import FlowScript.Decimal.Shortest
import Mathlib.Algebra.Order.Field.Power
import Mathlib.Algebra.Order.Field.Rat
import Mathlib.Data.Nat.Log
import Mathlib.Tactic.Linarith
import Mathlib.Tactic.Positivity
import Mathlib.Tactic.Ring

/-!
# Shortest decimals stand for one double

The interval of a double holds the numbers that round to it.  Two facts together say that a decimal found by
`Decimal.shortest` stands for one double only: it lies in the double's interval (`has_shortest`), and the intervals of
two doubles have nothing in common (`eq_of_has`).  For the first one the search has to end before its grids run out,
which is so because a grid of seventeen digits is finer than any interval (`exists_neighbour?`).
-/

namespace FlowScript

namespace Decimal

/-- The number that a decimal writes. -/
def value (d : Decimal) : ℚ := d.digits * 10 ^ (d.exponent + 1 - (Nat.toDigits 10 d.digits).length)

/-! ### Powers of ten -/

section Powers

variable {a b : ℕ} {p : ℤ}

/-- A power of ten is a fraction of two, one of which is one. -/
theorem zpow_mul_toNat (p : ℤ) : (10 : ℚ) ^ p * 10 ^ (-p).toNat = 10 ^ p.toNat := by
  rcases Int.le_total 0 p with hp | hp
  · obtain ⟨n, rfl⟩ := Int.eq_ofNat_of_zero_le hp
    simp
  · obtain ⟨n, hn⟩ := Int.eq_ofNat_of_zero_le (Int.neg_nonneg_of_nonpos hp)
    obtain rfl : p = -n := by omega
    simp

theorem le_mul_zpow_iff : (a : ℚ) ≤ b * 10 ^ p ↔ a * Nat.pow 10 (-p).toNat ≤ b * Nat.pow 10 p.toNat := by
  have hpos : (0 : ℚ) < 10 ^ (-p).toNat := by positivity
  rw [← mul_le_mul_iff_of_pos_right hpos, mul_assoc, zpow_mul_toNat]
  simp only [Nat.pow_eq]
  exact_mod_cast Iff.rfl

theorem lt_mul_zpow_iff : (a : ℚ) < b * 10 ^ p ↔ a * Nat.pow 10 (-p).toNat < b * Nat.pow 10 p.toNat := by
  have hpos : (0 : ℚ) < 10 ^ (-p).toNat := by positivity
  rw [← mul_lt_mul_iff_of_pos_right hpos, mul_assoc, zpow_mul_toNat]
  simp only [Nat.pow_eq]
  exact_mod_cast Iff.rfl

theorem mul_zpow_le_iff : (b : ℚ) * 10 ^ p ≤ a ↔ b * Nat.pow 10 p.toNat ≤ a * Nat.pow 10 (-p).toNat := by
  rw [← not_lt, lt_mul_zpow_iff, not_lt]

theorem mul_zpow_lt_iff : (b : ℚ) * 10 ^ p < a ↔ b * Nat.pow 10 p.toNat < a * Nat.pow 10 (-p).toNat := by
  rw [← not_le, le_mul_zpow_iff, not_le]

/-- `59 / 196` and `28 / 93` are close bounds for the logarithm of two to the base ten. -/
theorem ten_zpow_le_two_zpow {g b : ℤ} (h59 : 196 * g ≤ 59 * b) (h28 : 93 * g ≤ 28 * b) : (10 : ℚ) ^ g ≤ 2 ^ b := by
  have hten : (0 : ℚ) ≤ 10 ^ g := by positivity
  have htwo : (0 : ℚ) ≤ 2 ^ b := by positivity
  rcases le_total 0 g with hg | hg
  · apply le_of_pow_le_pow_left₀ (show 59 ≠ 0 by norm_num) htwo
    calc ((10 : ℚ) ^ g) ^ 59 = (10 ^ 59) ^ g := by rw [← zpow_natCast, ← zpow_natCast, zpow_comm]
      _ ≤ (2 ^ 196) ^ g := zpow_le_zpow_left₀ hg (by norm_num) (by norm_num)
      _ = 2 ^ (196 * g) := by rw [zpow_mul]; norm_num
      _ ≤ 2 ^ (b * 59) := zpow_le_zpow_right₀ (by norm_num) (by omega)
      _ = (2 ^ b) ^ 59 := by rw [zpow_mul]; norm_num
  · rcases le_total 0 b with hb | hb
    · exact le_trans (zpow_le_one_of_nonpos₀ (by norm_num) hg) (one_le_zpow₀ (by norm_num) hb)
    · apply le_of_pow_le_pow_left₀ (show 93 ≠ 0 by norm_num) htwo
      calc ((10 : ℚ) ^ g) ^ 93 = 10 ^ (93 * g) := by rw [mul_comm, zpow_mul]; norm_num
        _ ≤ 10 ^ (28 * b) := zpow_le_zpow_right₀ (by norm_num) h28
        _ = ((10 ^ 28) ^ (-b))⁻¹ := by rw [zpow_neg, inv_inv, zpow_mul]; norm_num
        _ ≤ ((2 ^ 93) ^ (-b))⁻¹ :=
          inv_anti₀ (by positivity) (zpow_le_zpow_left₀ (by omega) (by norm_num) (by norm_num))
        _ = (2 ^ b) ^ 93 := by rw [zpow_neg, inv_inv, ← zpow_natCast, ← zpow_natCast, zpow_comm]

theorem two_zpow_le_ten_zpow {b g : ℤ} (h59 : 59 * b ≤ 196 * g) (h28 : 28 * b ≤ 93 * g) : (2 : ℚ) ^ b ≤ 10 ^ g := by
  have h := ten_zpow_le_two_zpow (g := -g) (b := -b) (by omega) (by omega)
  rw [zpow_neg, zpow_neg] at h
  exact (inv_le_inv₀ (by positivity) (by positivity)).mp h

end Powers

/-! ### Intervals -/

namespace Interval

/-- Whether a number, counted in quarters of a unit, lies in the interval. -/
def Has (i : Interval) (q : ℚ) : Prop :=
  if i.closed then i.lower ≤ q ∧ q ≤ i.upper else i.lower < q ∧ q < i.upper

variable {i : Interval} {place : ℤ}

theorem contains_iff {n : ℕ} : i.contains n place = true ↔ i.Has (n * 10 ^ place * quartersPerOne) := by
  have hmove : (n : ℚ) * 10 ^ place * quartersPerOne = (n * quartersPerOne : ℕ) * 10 ^ place := by
    push_cast
    ring
  unfold contains Has
  rw [hmove]
  cases i.closed
  · simp only [Bool.false_eq_true, if_false, Bool.and_eq_true, decide_eq_true_eq, lt_mul_zpow_iff, mul_zpow_lt_iff]
  · simp only [if_true, Bool.and_eq_true, decide_eq_true_eq, le_mul_zpow_iff, mul_zpow_le_iff]

theorem Has.bounds {q : ℚ} (h : i.Has q) : i.lower ≤ q ∧ q ≤ i.upper := by
  unfold Has at h
  split at h
  · exact h
  · exact ⟨h.1.le, h.2.le⟩

theorem Has.bounds_of_open {q : ℚ} (h : i.Has q) (hopen : i.closed = false) : i.lower < q ∧ q < i.upper := by
  unfold Has at h
  rwa [hopen, if_neg Bool.false_ne_true] at h

/-- What lies strictly between the ends lies in the interval. -/
theorem Has.of_lt {q : ℚ} (hl : i.lower < q) (hu : q < i.upper) : i.Has q := by
  unfold Has
  split
  · exact ⟨hl.le, hu.le⟩
  · exact ⟨hl, hu⟩

end Interval

end Decimal

/-! ### The intervals of two doubles -/

namespace Double

variable {x y : Double}

theorem mantissa_lt' (x : Double) : x.mantissa < 2 ^ 53 := x.mantissa_lt

theorem le_mantissa (h : 0 < x.scale) : 2 ^ 52 ≤ x.mantissa := by
  rcases x.normal with h0 | h52
  · omega
  · exact h52

theorem units_eq (x : Double) : x.units = x.mantissa * 2 ^ x.scale := rfl

/-- The larger one of two doubles does not have the smaller scale. -/
theorem scale_le_of_units_lt (h : x.units < y.units) : x.scale ≤ y.scale := by
  by_contra hlt
  obtain ⟨k, hk⟩ : ∃ k, x.scale = y.scale + 1 + k := ⟨x.scale - y.scale - 1, by omega⟩
  have hx := le_mantissa (show 0 < x.scale by omega)
  have hy := y.mantissa_lt'
  have hle : y.units ≤ x.units := by
    rw [units_eq, units_eq, hk, pow_add, pow_add, pow_one]
    calc y.mantissa * 2 ^ y.scale ≤ x.mantissa * 2 * 2 ^ y.scale := Nat.mul_le_mul_right _ (by omega)
      _ = x.mantissa * (2 ^ y.scale * 2 * 1) := by ring
      _ ≤ x.mantissa * (2 ^ y.scale * 2 * 2 ^ k) :=
        Nat.mul_le_mul_left _ (Nat.mul_le_mul_left _ Nat.one_le_two_pow)
  omega

/-- A number of units is written in one way. -/
theorem eq_of_units_eq (h : x.units = y.units) : x.mantissa = y.mantissa ∧ x.scale = y.scale := by
  have key : ∀ a b : Double, a.units = b.units → ¬ a.scale < b.scale := by
    intro a b hab hlt
    obtain ⟨k, hk⟩ : ∃ k, b.scale = a.scale + 1 + k := ⟨b.scale - a.scale - 1, by omega⟩
    have hb := le_mantissa (show 0 < b.scale by omega)
    have ha := a.mantissa_lt'
    rw [units_eq, units_eq, hk, pow_add, pow_add, pow_one] at hab
    have hcancel : a.mantissa = b.mantissa * 2 * 2 ^ k := by
      apply Nat.eq_of_mul_eq_mul_right (show 0 < 2 ^ a.scale by positivity)
      rw [hab]
      ring
    have : b.mantissa * 2 * 1 ≤ b.mantissa * 2 * 2 ^ k := Nat.mul_le_mul_left _ Nat.one_le_two_pow
    omega
  have hscale : x.scale = y.scale := by
    have := key x y h
    have := key y x h.symm
    omega
  rw [units_eq, units_eq, hscale] at h
  exact ⟨Nat.eq_of_mul_eq_mul_right (by positivity) h, hscale⟩

end Double

namespace Decimal

namespace Interval

variable {x y : Double}

theorem closed_of : (of x).closed = true ↔ x.mantissa % 2 = 0 := by
  simp [of]

theorem upper_of (x : Double) : (of x).upper = (4 * x.mantissa + 2) * 2 ^ x.scale := rfl

theorem value_of (x : Double) : (of x).value = 4 * x.mantissa * 2 ^ x.scale := rfl

/-- Below a double that begins a new scale, the next one is only half as far away. -/
theorem lower_of (x : Double) :
    (of x).lower =
      (if x.mantissa = 2 ^ 52 ∧ 0 < x.scale then 4 * x.mantissa - 1 else 4 * x.mantissa - 2) * 2 ^ x.scale := by
  by_cases h : x.mantissa = 2 ^ 52 ∧ 0 < x.scale
  · rw [if_pos h]
    exact if_pos h
  · rw [if_neg h]
    exact if_neg h

/-- The interval of a double ends before that of a larger one begins; they may touch, but then one of them is open. -/
theorem upper_le_lower (h : x.units < y.units) :
    (of x).upper ≤ (of y).lower ∧ ((of x).closed = true → (of y).closed = true → (of x).upper < (of y).lower) := by
  obtain ⟨k, hk⟩ : ∃ k, y.scale = x.scale + k := ⟨y.scale - x.scale, by have := Double.scale_le_of_units_lt h; omega⟩
  have hpos : 0 < 2 ^ x.scale := by positivity
  have hx := x.mantissa_lt'
  -- both ends, counted in steps of the smaller scale
  suffices hsteps : 4 * x.mantissa + 2 ≤
        (if y.mantissa = 2 ^ 52 ∧ 0 < y.scale then 4 * y.mantissa - 1 else 4 * y.mantissa - 2) * 2 ^ k ∧
      (x.mantissa % 2 = 0 → y.mantissa % 2 = 0 → 4 * x.mantissa + 2 <
        (if y.mantissa = 2 ^ 52 ∧ 0 < y.scale then 4 * y.mantissa - 1 else 4 * y.mantissa - 2) * 2 ^ k) by
    rw [upper_of, lower_of, closed_of, closed_of, hk, pow_add, mul_comm (2 ^ x.scale), ← mul_assoc, ← hk]
    refine ⟨Nat.mul_le_mul_right _ hsteps.1, ?_⟩
    intro hxe hye
    exact Nat.mul_lt_mul_of_pos_right (hsteps.2 hxe hye) hpos
  cases k with
  | zero =>
    have hlt : x.mantissa < y.mantissa := by
      rw [Double.units_eq, Double.units_eq, hk] at h
      exact Nat.lt_of_mul_lt_mul_right h
    have hnot : ¬ (y.mantissa = 2 ^ 52 ∧ 0 < y.scale) := by
      rintro ⟨hy, hs⟩
      have := Double.le_mantissa (show 0 < x.scale by omega)
      omega
    rw [if_neg hnot, pow_zero, mul_one]
    omega
  | succ k =>
    have hy := Double.le_mantissa (show 0 < y.scale by omega)
    have hpow : 2 ≤ 2 ^ (k + 1) := by
      have := Nat.one_le_two_pow (n := k)
      rw [pow_succ]
      omega
    -- the larger scale is at least twice the smaller one
    have hfar : 2 ^ 55 - 2 ≤
        (if y.mantissa = 2 ^ 52 ∧ 0 < y.scale then 4 * y.mantissa - 1 else 4 * y.mantissa - 2) * 2 ^ (k + 1) := by
      refine le_trans ?_ (Nat.mul_le_mul_left _ hpow)
      split
      · omega
      · next hne =>
        have : y.mantissa ≠ 2 ^ 52 := fun he => hne ⟨he, by omega⟩
        omega
    constructor
    · omega
    · intro hxe _
      omega

/-- Two intervals that have a number in common are those of one double, up to its sign. -/
theorem eq_of_has {q : ℚ} (hx : (of x).Has q) (hy : (of y).Has q) :
    x.mantissa = y.mantissa ∧ x.scale = y.scale := by
  have key : ∀ a b : Double, (of a).Has q → (of b).Has q → ¬ a.units < b.units := by
    intro a b ha hb hlt
    obtain ⟨hle, hstrict⟩ := upper_le_lower hlt
    have hle' : ((of a).upper : ℚ) ≤ (of b).lower := by exact_mod_cast hle
    have hau := ha.bounds.2
    have hbl := hb.bounds.1
    cases hac : (of a).closed with
    | false => linarith [(ha.bounds_of_open hac).2]
    | true =>
      cases hbc : (of b).closed with
      | false => linarith [(hb.bounds_of_open hbc).1]
      | true =>
        have : ((of a).upper : ℚ) < (of b).lower := by exact_mod_cast hstrict hac hbc
        linarith
  apply Double.eq_of_units_eq
  have := key x y hx hy
  have := key y x hy hx
  omega

end Interval

/-! ### The first digit -/

/-- `num / den` has its first digit at `10 ^ e`. -/
def FirstDigitAt (num den : ℕ) (e : ℤ) : Prop := den * (10 : ℚ) ^ e ≤ num ∧ (num : ℚ) < den * 10 ^ (e + 1)

/-- A search that starts low enough and goes far enough finds the first digit. -/
theorem firstDigitAt_firstDigit {num den fuel : ℕ} {e : ℤ} (hlow : den * (10 : ℚ) ^ e ≤ num)
    (hhigh : (num : ℚ) < den * 10 ^ (e + 1 + fuel)) : FirstDigitAt num den (firstDigit num den fuel e) := by
  induction fuel generalizing e with
  | zero =>
    refine ⟨hlow, ?_⟩
    rw [Nat.cast_zero, add_zero] at hhigh
    exact hhigh
  | succ fuel ih =>
    unfold firstDigit
    split
    · next h => exact ⟨hlow, lt_mul_zpow_iff.mpr h⟩
    · next h =>
      apply ih
      · exact not_lt.mp (mt lt_mul_zpow_iff.mp h)
      · rw [show e + 1 + 1 + (fuel : ℤ) = e + 1 + (fuel + 1 : ℕ) by push_cast; ring]
        exact hhigh

theorem quartersPerOne_eq : quartersPerOne = 2 ^ 1076 := by
  decide +kernel

/-- The guess from the lengths in binary is low enough, and four steps go far enough, for all numbers that are not
larger than doubles are. -/
theorem firstDigitAt_guess {num den k m : ℕ} (hden : den = 2 ^ k) (hk : k ≤ 1076) (hpos : 0 < num)
    (hlt : num < 2 ^ m) (hm : m ≤ 2100) : FirstDigitAt num den (firstDigit num den 4 (firstDigitGuess num den)) := by
  have hlow : (2 : ℚ) ^ (num.log2 : ℤ) ≤ num := by exact_mod_cast Nat.log2_self_le (by omega)
  have hhigh : (num : ℚ) < 2 ^ ((num.log2 : ℤ) + 1) := by exact_mod_cast Nat.lt_log2_self
  have hlog : num.log2 < m := (Nat.log2_lt (by omega)).mpr hlt
  have hguess : firstDigitGuess num den = ((num.log2 : ℤ) - k - 1) * 30103 / 100000 - 1 := by
    unfold firstDigitGuess
    rw [hden, Nat.log2_two_pow]
  have hden' : (den : ℚ) = 2 ^ (k : ℤ) := by
    rw [hden]
    push_cast
    rw [zpow_natCast]
  generalize firstDigitGuess num den = g at hguess ⊢
  -- `2 ^ log2 num` lies between `den * 10 ^ g` and `den * 10 ^ (g + 5)`
  apply firstDigitAt_firstDigit
  · calc (den : ℚ) * 10 ^ g ≤ 2 ^ (k : ℤ) * 2 ^ ((num.log2 : ℤ) - k) := by
          rw [hden']
          exact mul_le_mul_of_nonneg_left (ten_zpow_le_two_zpow (by omega) (by omega)) (by positivity)
      _ = 2 ^ (num.log2 : ℤ) := by rw [← zpow_add₀ (by norm_num), add_sub_cancel]
      _ ≤ num := hlow
  · calc (num : ℚ) < 2 ^ ((num.log2 : ℤ) + 1) := hhigh
      _ = 2 ^ (k : ℤ) * 2 ^ ((num.log2 : ℤ) + 1 - k) := by rw [← zpow_add₀ (by norm_num), add_sub_cancel]
      _ ≤ den * 10 ^ (g + 1 + (4 : ℕ)) := by
          rw [hden']
          exact mul_le_mul_of_nonneg_left (two_zpow_le_ten_zpow (by omega) (by omega)) (by positivity)

/-! ### The search -/

namespace Interval

variable {i : Interval} {place top : ℤ} {n q : ℕ}

/-- How far two neighbours on the grid of `10 ^ place` are apart, in quarters of a unit. -/
def step (place : ℤ) : ℚ := quartersPerOne * 10 ^ place

theorem step_pos (place : ℤ) : 0 < step place := by
  have : (0 : ℚ) < quartersPerOne := by
    rw [quartersPerOne_eq]
    positivity
  unfold step
  positivity

/-- The value lies between its two neighbours. -/
theorem floorAt_bounds (i : Interval) (place : ℤ) :
    (i.floorAt place).1 * step place ≤ i.value ∧ i.value < ((i.floorAt place).1 + 1) * step place := by
  have hden : 0 < quartersPerOne * Nat.pow 10 place.toNat := by
    rw [quartersPerOne_eq, Nat.pow_eq]
    positivity
  have hmove (m : ℕ) : (m : ℚ) * step place = (m * quartersPerOne : ℕ) * 10 ^ place := by
    unfold step
    push_cast
    ring
  have hmove' : ((i.floorAt place).1 + 1 : ℚ) * step place =
      (((i.floorAt place).1 + 1) * quartersPerOne : ℕ) * 10 ^ place := by
    rw [← hmove]
    push_cast
    rfl
  rw [hmove, hmove', mul_zpow_le_iff, lt_mul_zpow_iff, mul_assoc, mul_assoc]
  constructor
  · exact Nat.div_mul_le_self _ _
  · rw [Nat.add_mul, Nat.one_mul]
    exact Nat.lt_div_mul_add hden

theorem contains_iff_step : i.contains n place = true ↔ i.Has (n * step place) := by
  rw [contains_iff, step, mul_assoc, mul_comm (10 ^ place : ℚ)]

/-- A neighbour is one of the two, and it lies in the interval. -/
theorem neighbour?_eq_some (h : i.neighbour? place = some q) :
    (q = (i.floorAt place).1 ∨ q = (i.floorAt place).1 + 1) ∧ i.Has (q * step place) := by
  rw [← contains_iff_step]
  unfold neighbour? at h
  dsimp only at h
  split at h
  · next hlow _ =>
    cases h
    exact ⟨.inl rfl, hlow⟩
  · next _ hhigh =>
    cases h
    exact ⟨.inr rfl, hhigh⟩
  · cases h
  · next hlow hhigh =>
    split at h
    · cases h
      exact ⟨.inl rfl, hlow⟩
    · cases h
      exact ⟨.inr rfl, hhigh⟩
    · cases h
      rcases Nat.mod_two_eq_zero_or_one (i.floorAt place).1 with hmod | hmod
      · rw [hmod, Nat.add_zero]
        exact ⟨.inl rfl, hlow⟩
      · rw [hmod]
        exact ⟨.inr rfl, hhigh⟩

theorem neighbour?_eq_none (h : i.neighbour? place = none) :
    ¬ i.Has ((i.floorAt place).1 * step place) ∧ ¬ i.Has (((i.floorAt place).1 + 1 : ℕ) * step place) := by
  rw [← contains_iff_step, ← contains_iff_step]
  unfold neighbour? at h
  dsimp only at h
  split at h
  · cases h
  · cases h
  · next hlow hhigh => simp [hlow, hhigh]
  · split at h <;> cases h

/-- Steps of a grid with `n` digits, counted from the first digit. -/
theorem zpow_eq_step (top : ℤ) (k n : ℕ) :
    quartersPerOne * (10 : ℚ) ^ (top + 1 - n + k) = 10 ^ k * step (top + 1 - n) := by
  rw [zpow_add₀ (by norm_num), zpow_natCast, step]
  ring

/-- On a grid with `n` digits the neighbours have `n` digits, or the upper one is a power of ten. -/
theorem neighbour?_bounds (htop : FirstDigitAt i.value quartersPerOne top)
    (h : i.neighbour? (top + 1 - (n + 1 : ℕ)) = some q) : 10 ^ n ≤ q ∧ q ≤ 10 ^ (n + 1) := by
  obtain ⟨hlow, hhigh⟩ := floorAt_bounds i (top + 1 - (n + 1 : ℕ))
  have hstep := step_pos (top + 1 - (n + 1 : ℕ))
  have hfirst := zpow_eq_step top n (n + 1)
  have hnext := zpow_eq_step top (n + 1) (n + 1)
  rw [show top + 1 - ((n + 1 : ℕ) : ℤ) + n = top by push_cast; ring] at hfirst
  rw [show top + 1 - ((n + 1 : ℕ) : ℤ) + (n + 1 : ℕ) = top + 1 by ring] at hnext
  have hge : 10 ^ n < (i.floorAt (top + 1 - (n + 1 : ℕ))).1 + 1 := by
    have : (10 : ℚ) ^ n < (i.floorAt (top + 1 - (n + 1 : ℕ))).1 + 1 := by
      apply lt_of_mul_lt_mul_right _ hstep.le
      rw [← hfirst]
      exact lt_of_le_of_lt htop.1 hhigh
    exact_mod_cast this
  have hlt : (i.floorAt (top + 1 - (n + 1 : ℕ))).1 < 10 ^ (n + 1) := by
    have : ((i.floorAt (top + 1 - (n + 1 : ℕ))).1 : ℚ) < 10 ^ (n + 1) := by
      apply lt_of_mul_lt_mul_right _ hstep.le
      rw [← hnext]
      exact lt_of_le_of_lt hlow htop.2
    exact_mod_cast this
  rcases (neighbour?_eq_some h).1 with hq | hq
  · omega
  · omega

theorem lower_lt_value_of {x : Double} (hx : 0 < x.mantissa) :
    (of x).lower < (of x).value ∧ (of x).value < (of x).upper := by
  have hpos : 0 < 2 ^ x.scale := by positivity
  rw [lower_of, value_of, upper_of]
  refine ⟨Nat.mul_lt_mul_of_pos_right ?_ hpos, Nat.mul_lt_mul_of_pos_right (by omega) hpos⟩
  split <;> omega

/-- A grid that misses the interval of a double has steps that are at least as wide. -/
theorem upper_le_lower_add_step {x : Double} (hx : 0 < x.mantissa) (h : (of x).neighbour? place = none) :
    ((of x).upper : ℚ) ≤ (of x).lower + step place := by
  obtain ⟨hbelow, habove⟩ := neighbour?_eq_none h
  obtain ⟨hlow, hhigh⟩ := floorAt_bounds (of x) place
  have hinside₁ : ((of x).lower : ℚ) < (of x).value := by exact_mod_cast (lower_lt_value_of hx).1
  have hinside₂ : ((of x).value : ℚ) < (of x).upper := by exact_mod_cast (lower_lt_value_of hx).2
  -- the value lies inside, so a neighbour outside is beyond an end
  have hlower : ((of x).floorAt place).1 * step place ≤ (of x).lower := by
    by_contra hlt
    exact hbelow (.of_lt (not_le.mp hlt) (lt_of_le_of_lt hlow hinside₂))
  have hupper : (of x).upper ≤ (((of x).floorAt place).1 + 1) * step place := by
    by_contra hlt
    apply habove
    push_cast
    exact .of_lt (lt_trans hinside₁ hhigh) (not_le.mp hlt)
  linarith

/-- A grid of seventeen digits is finer than the interval of any double. -/
theorem exists_neighbour? {x : Double} (hx : 0 < x.mantissa) (htop : FirstDigitAt (of x).value quartersPerOne top) :
    ∃ q, (of x).neighbour? (top + 1 - (17 : ℕ)) = some q := by
  cases hnone : (of x).neighbour? (top + 1 - (17 : ℕ)) with
  | some q => exact ⟨q, rfl⟩
  | none =>
    exfalso
    have hwidth := upper_le_lower_add_step hx hnone
    have hm := x.mantissa_lt'
    -- a step is a tiny part of the value, and the interval is wider than that part
    have htiny : 10 ^ 16 * step (top + 1 - (17 : ℕ)) ≤ (of x).value := by
      rw [← zpow_eq_step, show top + 1 - ((17 : ℕ) : ℤ) + (16 : ℕ) = top by push_cast; ring]
      exact htop.1
    have hnat : 10 ^ 16 * (of x).upper ≤ 10 ^ 16 * (of x).lower + (of x).value := by
      have : (10 : ℚ) ^ 16 * (of x).upper ≤ 10 ^ 16 * (of x).lower + (of x).value := by linarith
      exact_mod_cast this
    rw [lower_of, value_of, upper_of, ← mul_assoc, ← mul_assoc, ← Nat.add_mul] at hnat
    have hsteps := Nat.le_of_mul_le_mul_right hnat (show 0 < 2 ^ x.scale by positivity)
    split at hsteps <;> omega

end Interval

theorem value_mk {q n : ℕ} {top : ℤ} (hlow : 10 ^ n ≤ q) (hhigh : q < 10 ^ (n + 1)) :
    value ⟨q, top⟩ = q * 10 ^ (top + 1 - (n + 1 : ℕ)) := by
  have hlen : (Nat.toDigits 10 q).length = n + 1 := by
    have hle : (Nat.toDigits 10 q).length ≤ n + 1 := (Nat.length_toDigits_le_iff (by norm_num) (by omega)).mpr hhigh
    have hpos := Nat.length_toDigits_pos (b := 10) (n := q)
    rcases Nat.eq_zero_or_pos n with hn | hn
    · omega
    · have : ¬ (Nat.toDigits 10 q).length ≤ n := by
        rw [Nat.length_toDigits_le_iff (by norm_num) hn]
        omega
      omega
  rw [value, hlen]

namespace Interval

variable {i : Interval} {top : ℤ} {fuel n : ℕ}

/-- A search that meets a neighbour in the interval ends with a decimal in the interval. -/
theorem has_search (htop : FirstDigitAt i.value quartersPerOne top)
    (hmeets : ∃ m, n ≤ m ∧ m < n + fuel ∧ ∃ q, i.neighbour? (top + 1 - (m + 1 : ℕ)) = some q) :
    0 < (i.search top fuel (n + 1)).digits ∧ i.Has ((i.search top fuel (n + 1)).value * quartersPerOne) := by
  induction fuel generalizing n with
  | zero =>
    obtain ⟨m, hle, hlt, -⟩ := hmeets
    omega
  | succ fuel ih =>
    unfold search
    dsimp only
    split
    · next q hq =>
      obtain ⟨hlow, hhigh⟩ := neighbour?_bounds htop hq
      have hhas := (neighbour?_eq_some hq).2
      have hpos : 0 < 10 ^ n := by positivity
      split
      · next hten =>
        refine ⟨Nat.one_pos, ?_⟩
        have hvalue : Decimal.value ⟨1, top + 1⟩ = (10 : ℚ) ^ (top + 1) := by
          rw [value_mk (n := 0) (by norm_num) (by norm_num)]
          norm_num
        rw [hten] at hhas
        rw [hvalue]
        convert hhas using 1
        have hnext := zpow_eq_step top (n + 1) (n + 1)
        rw [show top + 1 - ((n + 1 : ℕ) : ℤ) + (n + 1 : ℕ) = top + 1 by ring] at hnext
        rw [mul_comm, hnext]
        norm_num
      · next hten =>
        refine ⟨by simp only; omega, ?_⟩
        have hlt : q < 10 ^ (n + 1) := lt_of_le_of_ne hhigh hten
        rw [value_mk hlow hlt]
        convert hhas using 1
        unfold step
        ring
    · next hnone =>
      apply ih
      obtain ⟨m, hle, hlt, q, hq⟩ := hmeets
      refine ⟨m, ?_, by omega, q, hq⟩
      rcases Nat.eq_or_lt_of_le hle with heq | hlt'
      · rw [← heq, hnone] at hq
        cases hq
      · exact hlt'

end Interval

/-- The shortest decimal of a double that is not zero is positive, and rounds to the double. -/
theorem has_shortest {x : Double} (hx : 0 < x.mantissa) :
    0 < (shortest x).digits ∧ (Interval.of x).Has ((shortest x).value * quartersPerOne) := by
  have hpos : 0 < (Interval.of x).value := by
    rw [Interval.value_of]
    positivity
  have hlt : (Interval.of x).value < 2 ^ (55 + x.scale) := by
    have hm := x.mantissa_lt'
    rw [Interval.value_of, pow_add]
    exact Nat.mul_lt_mul_of_pos_right (by omega) (by positivity)
  have hscale := x.scale_le
  have htop := firstDigitAt_guess quartersPerOne_eq le_rfl hpos hlt (by omega)
  obtain ⟨q, hq⟩ := Interval.exists_neighbour? hx htop
  exact Interval.has_search htop ⟨16, by omega, by omega, q, hq⟩

end Decimal

end FlowScript

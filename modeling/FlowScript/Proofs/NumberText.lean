import FlowScript.Proofs.Digits
import FlowScript.Proofs.ShortestDecimal
import FlowScript.Tree.Number
import FlowScript.Tree.Reader

/-!
# The text of a number determines it

The text of a double is a decimal that can be taken apart again, and its parts have the value of the double's shortest
decimal (`Decimal.spells_write`).  Since that decimal stands for one double only, no two numbers have the same text
(`Number.text_injective`).
-/

namespace FlowScript

open Json (isNumberChar)

theorem isNumberChar_of_isDigit {c : Char} (h : c.isDigit = true) : isNumberChar c = true := by
  rw [isNumberChar, isDigitIn_of_isDigit h]
  rfl

theorem IsDigits.isNumberChar {cs : List Char} (h : IsDigits cs) : ∀ c ∈ cs, isNumberChar c = true :=
  fun c hc => isNumberChar_of_isDigit (h c hc)

namespace Decimal

/-- The number that the parts of a decimal write. -/
def Parts.value (p : Parts) : ℚ := numberOf 10 (p.whole ++ p.fraction) * 10 ^ (p.exponent - p.fraction.length)

/-- A text that is read as a decimal with a certain value, and shows that it is no whole number. -/
structure Spells (cs : List Char) (v : ℚ) : Prop where
  reads : ∃ p, Parts.split? cs = some p ∧ p.value = v
  /-- The first digits end with a point or an exponent. -/
  marked : ∃ whole c rest, cs = whole ++ c :: rest ∧ IsDigits whole ∧ whole ≠ [] ∧ (c = '.' ∨ c = 'e')
  chars : ∀ c ∈ cs, isNumberChar c = true

/-! ### The three notations -/

theorem readExponent?_signed (e : ℤ) :
    readExponent? ((if e < 0 then '-' else '+') :: Nat.toDigits 10 e.natAbs) = some e := by
  by_cases he : e < 0
  · rw [if_pos he, readExponent?, readDigits?_toDigits]
    change some (-(e.natAbs : ℤ)) = some e
    rw [Option.some.injEq]
    omega
  · rw [if_neg he, readExponent?, readDigits?_toDigits, Option.map_some, Option.some.injEq, Int.ofNat_eq_natCast]
    omega

private theorem isNumberChar_exponent (e : ℤ) :
    ∀ c ∈ 'e' :: (if e < 0 then '-' else '+') :: Nat.toDigits 10 e.natAbs, isNumberChar c = true := by
  intro c hc
  rcases List.mem_cons.mp hc with rfl | hc
  · rfl
  · rcases List.mem_cons.mp hc with rfl | hc
    · split <;> rfl
    · exact (IsDigits.toDigits _).isNumberChar c hc

section Notations

variable {whole fraction : List Char} (hwhole : IsDigits whole) (hne : whole ≠ []) (hfraction : IsDigits fraction)
include hwhole hne

theorem Spells.exponent (e : ℤ) :
    Spells (whole ++ 'e' :: (if e < 0 then '-' else '+') :: Nat.toDigits 10 e.natAbs) (numberOf 10 whole * 10 ^ e) where
  reads := by
    have hsplit := hwhole.splitWhile_append
      ('e' :: (if e < 0 then '-' else '+') :: Nat.toDigits 10 e.natAbs) (by simp; decide)
    refine ⟨⟨whole, [], e⟩, ?_, by simp [Parts.value]⟩
    unfold Parts.split?
    simp [hsplit, hne, readExponent?_signed]
  marked := ⟨whole, 'e', _, rfl, hwhole, hne, .inr rfl⟩
  chars := by
    intro c hc
    rcases List.mem_append.mp hc with hc | hc
    · exact hwhole.isNumberChar c hc
    · exact isNumberChar_exponent e c hc

include hfraction

theorem Spells.point :
    Spells (whole ++ '.' :: fraction) (numberOf 10 (whole ++ fraction) * 10 ^ (-fraction.length : ℤ)) where
  reads := by
    have hsplit := hwhole.splitWhile_append ('.' :: fraction) (by simp; decide)
    have hsplit' := hfraction.splitWhile_append [] (by simp)
    rw [List.append_nil] at hsplit'
    refine ⟨⟨whole, fraction, 0⟩, ?_, by simp [Parts.value]⟩
    unfold Parts.split?
    simp [hsplit, hsplit', hne]
  marked := ⟨whole, '.', _, rfl, hwhole, hne, .inl rfl⟩
  chars := by
    intro c hc
    rcases List.mem_append.mp hc with hc | hc
    · exact hwhole.isNumberChar c hc
    · rcases List.mem_cons.mp hc with rfl | hc
      · rfl
      · exact hfraction.isNumberChar c hc

theorem Spells.point_exponent (e : ℤ) :
    Spells (whole ++ '.' :: (fraction ++ 'e' :: (if e < 0 then '-' else '+') :: Nat.toDigits 10 e.natAbs))
      (numberOf 10 (whole ++ fraction) * 10 ^ (e - fraction.length)) where
  reads := by
    have hsplit := hwhole.splitWhile_append
      ('.' :: (fraction ++ 'e' :: (if e < 0 then '-' else '+') :: Nat.toDigits 10 e.natAbs)) (by simp; decide)
    have hsplit' := hfraction.splitWhile_append
      ('e' :: (if e < 0 then '-' else '+') :: Nat.toDigits 10 e.natAbs) (by simp; decide)
    refine ⟨⟨whole, fraction, e⟩, ?_, rfl⟩
    unfold Parts.split?
    simp [hsplit, hsplit', hne, readExponent?_signed]
  marked := ⟨whole, '.', _, rfl, hwhole, hne, .inl rfl⟩
  chars := by
    intro c hc
    rcases List.mem_append.mp hc with hc | hc
    · exact hwhole.isNumberChar c hc
    · rcases List.mem_cons.mp hc with rfl | hc
      · rfl
      · rcases List.mem_append.mp hc with hc | hc
        · exact hfraction.isNumberChar c hc
        · exact isNumberChar_exponent e c hc

end Notations

/-! ### Written decimals -/

section Write

variable {digits : List Char} {n : ℕ} {exponent : ℤ}

theorem toList_positional_of_neg (h : exponent < 0) :
    (positional digits exponent).toList = ['0'] ++ '.' :: (List.replicate (-exponent - 1).toNat '0' ++ digits) := by
  simp only [positional, if_pos h, zeros, String.toList_append, String.toList_ofList, List.append_assoc]
  rfl

theorem toList_positional_of_length_le (h : digits.length ≤ n + 1) :
    (positional digits n).toList = digits ++ List.replicate (n + 1 - digits.length) '0' ++ '.' :: ['0'] := by
  have hafter : digits.drop (n + 1) = [] := List.drop_eq_nil_of_le h
  have hn : ¬ (n : ℤ) < 0 := by omega
  simp only [positional, if_neg hn, zeros, Int.toNat_natCast, hafter, List.isEmpty_nil, if_true, String.toList_append,
    String.toList_ofList, List.take_of_length_le h, List.append_assoc]
  rfl

theorem toList_positional_of_lt_length (h : n + 1 < digits.length) :
    (positional digits n).toList = digits.take (n + 1) ++ '.' :: digits.drop (n + 1) := by
  have hafter : (digits.drop (n + 1)).isEmpty = false := by
    rw [List.isEmpty_eq_false_iff, ne_eq, List.drop_eq_nil_iff]
    omega
  have hn : ¬ (n : ℤ) < 0 := by omega
  have hzeros : n + 1 - digits.length = 0 := by omega
  simp only [positional, if_neg hn, zeros, Int.toNat_natCast, hafter, hzeros, Bool.false_eq_true, if_false,
    String.toList_append, String.toList_ofList, List.replicate_zero, List.append_nil, List.append_assoc]
  rfl

theorem toList_scientific :
    (scientific digits exponent).toList =
      digits.take 1 ++ ((if digits.drop 1 = [] then [] else '.' :: digits.drop 1) ++
        'e' :: (if exponent < 0 then '-' else '+') :: Nat.toDigits 10 exponent.natAbs) := by
  simp only [scientific, String.toList_append, String.toList_ofList, toList_toString, List.append_assoc,
    List.isEmpty_iff]
  split <;> split <;> simp

variable (hdigits : IsDigits digits) (hne : digits ≠ [])
include hdigits

theorem spells_positional_of_neg (h : exponent < 0) :
    Spells (positional digits exponent).toList (numberOf 10 digits * 10 ^ (exponent + 1 - digits.length)) := by
  have hzeros := IsDigits.zeros (-exponent - 1).toNat
  have hone : IsDigits ['0'] := IsDigits.zeros 1
  have hnumber : numberOf 10 (['0'] ++ (List.replicate (-exponent - 1).toNat '0' ++ digits)) = numberOf 10 digits := by
    rw [hone.numberOf_append (hzeros.append hdigits), hzeros.numberOf_append hdigits, numberOf_zeros,
      show numberOf 10 ['0'] = 0 from rfl]
    simp
  rw [toList_positional_of_neg h]
  convert Spells.point hone (by simp) (hzeros.append hdigits) using 3
  · rw [hnumber]
  · rw [List.length_append, List.length_replicate]
    omega

include hne

theorem spells_positional_of_nonneg (h : 0 ≤ exponent) :
    Spells (positional digits exponent).toList (numberOf 10 digits * 10 ^ (exponent + 1 - digits.length)) := by
  obtain ⟨n, rfl⟩ := Int.eq_ofNat_of_zero_le h
  rcases Nat.lt_or_ge (n + 1) digits.length with hlen | hlen
  · -- the point stands between the digits
    have htake : digits.take (n + 1) ≠ [] := by simp [hne]
    rw [toList_positional_of_lt_length hlen]
    convert Spells.point (hdigits.take (n + 1)) htake (hdigits.drop (n + 1)) using 3
    · rw [List.take_append_drop]
    · rw [List.length_drop]
      omega
  · -- zeros fill the gap between the digits and the point
    have hzeros := IsDigits.zeros (n + 1 - digits.length)
    have hone : IsDigits ['0'] := IsDigits.zeros 1
    have hnumber : numberOf 10 (digits ++ List.replicate (n + 1 - digits.length) '0' ++ ['0']) =
        numberOf 10 digits * 10 ^ (n + 1 - digits.length) * 10 := by
      rw [(hdigits.append hzeros).numberOf_append hone, hdigits.numberOf_append hzeros, numberOf_zeros,
        show numberOf 10 ['0'] = 0 from rfl, List.length_replicate]
      simp
    have hexp : (n : ℤ) + 1 - digits.length = (n + 1 - digits.length : ℕ) := by omega
    rw [toList_positional_of_length_le hlen]
    convert Spells.point (hdigits.append hzeros) (by simp [hne]) hone using 1
    rw [hnumber, hexp, zpow_natCast]
    push_cast
    norm_num
    ring

theorem spells_scientific (exponent : ℤ) :
    Spells (scientific digits exponent).toList (numberOf 10 digits * 10 ^ (exponent + 1 - digits.length)) := by
  have htake : digits.take 1 ≠ [] := by simp [hne]
  have hlen : 0 < digits.length := List.length_pos_iff.mpr hne
  rw [toList_scientific]
  split
  · next hdrop =>
    have hone : digits.length ≤ 1 := List.drop_eq_nil_iff.mp hdrop
    rw [List.nil_append]
    convert Spells.exponent (hdigits.take 1) htake exponent using 3
    · rw [List.take_of_length_le hone]
    · omega
  · rw [List.cons_append]
    convert Spells.point_exponent (hdigits.take 1) htake (hdigits.drop 1) exponent using 3
    · rw [List.take_append_drop]
    · rw [List.length_drop]
      omega

end Write

/-- A written decimal has the value that it was written from. -/
theorem spells_write (f : DoubleFormat) (d : Decimal) : Spells (f.write d).toList d.value := by
  have hdigits := IsDigits.toDigits d.digits
  have hne := Nat.toDigits_ne_nil (b := 10) (n := d.digits)
  have hvalue : d.value =
      numberOf 10 (Nat.toDigits 10 d.digits) * 10 ^ (d.exponent + 1 - (Nat.toDigits 10 d.digits).length) := by
    rw [numberOf_toDigits, value]
  rw [hvalue]
  unfold DoubleFormat.write
  dsimp only
  split
  · rcases Int.lt_or_le d.exponent 0 with h | h
    · exact spells_positional_of_neg hdigits h
    · exact spells_positional_of_nonneg hdigits hne h
  · exact spells_scientific hdigits hne d.exponent

end Decimal

namespace Number

open Decimal (Spells)

/-! ### Doubles -/

/-- The text of a double without its sign. -/
def magnitude (x : Double) : String :=
  if x.mantissa = 0 then "0.0" else layout.write (Decimal.shortest x)

theorem realText_eq (x : Double) : realText x = (if x.negative then "-" else "") ++ magnitude x := rfl

theorem spells_magnitude (x : Double) :
    Spells (magnitude x).toList (if x.mantissa = 0 then 0 else (Decimal.shortest x).value) := by
  unfold magnitude
  split
  · have hone : IsDigits ['0'] := IsDigits.zeros 1
    have h := Spells.point hone (by simp) hone
    rw [show numberOf 10 (['0'] ++ ['0']) = 0 from rfl, Nat.cast_zero, zero_mul] at h
    exact h
  · exact Decimal.spells_write layout _

theorem shortest_value_pos {x : Double} (h : x.mantissa ≠ 0) : 0 < (Decimal.shortest x).value := by
  have hpos := (Decimal.has_shortest (Nat.pos_of_ne_zero h)).1
  unfold Decimal.value
  positivity

/-- Doubles that are written alike, their signs apart, are alike. -/
theorem eq_of_magnitude_eq {x y : Double} (h : magnitude x = magnitude y) :
    x.mantissa = y.mantissa ∧ x.scale = y.scale := by
  obtain ⟨p, hp, hpx⟩ := (spells_magnitude x).reads
  obtain ⟨q, hq, hqy⟩ := (spells_magnitude y).reads
  rw [h, hq, Option.some.injEq] at hp
  rw [← hp, hqy] at hpx
  by_cases hx : x.mantissa = 0
  · by_cases hy : y.mantissa = 0
    · have hx0 := x.normal
      have hy0 := y.normal
      simp only [Nat.pow_eq] at hx0 hy0
      omega
    · rw [if_pos hx, if_neg hy] at hpx
      exact absurd hpx (shortest_value_pos hy).ne'
  · by_cases hy : y.mantissa = 0
    · rw [if_neg hx, if_pos hy] at hpx
      exact absurd hpx (shortest_value_pos hx).ne
    · rw [if_neg hx, if_neg hy] at hpx
      have hhx := (Decimal.has_shortest (Nat.pos_of_ne_zero hx)).2
      have hhy := (Decimal.has_shortest (Nat.pos_of_ne_zero hy)).2
      rw [hpx] at hhy
      exact Decimal.Interval.eq_of_has hhx hhy

theorem magnitude_ne_minus (x : Double) (rest : List Char) : (magnitude x).toList ≠ '-' :: rest := by
  obtain ⟨whole, c, tail, htext, hwhole, hne, -⟩ := (spells_magnitude x).marked
  obtain ⟨d, ds, rfl⟩ := List.exists_cons_of_ne_nil hne
  rw [htext]
  intro h
  have hd : d = '-' := (List.cons.inj h).1
  have := hwhole d List.mem_cons_self
  rw [hd] at this
  exact absurd this (by decide)

theorem realText_injective {x y : Double} (h : realText x = realText y) : x = y := by
  have hlists := congrArg String.toList h
  rw [realText_eq, realText_eq, String.toList_append, String.toList_append] at hlists
  -- the sign is the first character or missing, and the rest is the same
  have hsign : x.negative = y.negative := by
    cases hx : x.negative <;> cases hy : y.negative <;> simp only [hx, hy] at hlists
    · rfl
    · exact absurd hlists (magnitude_ne_minus x _)
    · exact absurd hlists.symm (magnitude_ne_minus y _)
    · rfl
  rw [hsign, List.append_cancel_left_eq, String.toList_inj] at hlists
  obtain ⟨hmantissa, hscale⟩ := eq_of_magnitude_eq hlists
  obtain ⟨xn, xm, xs, _, _, _⟩ := x
  obtain ⟨yn, ym, ys, _, _, _⟩ := y
  simp_all

/-! ### All numbers -/

theorem toList_toString_int (n : ℤ) :
    (toString n).toList = (if n < 0 then ['-'] else []) ++ Nat.toDigits 10 n.natAbs := by
  cases n with
  | ofNat n =>
    rw [if_neg (by simp), List.nil_append]
    exact toList_toString n
  | negSucc n =>
    rw [if_pos (Int.negSucc_lt_zero n), Int.natAbs_negSucc, ← toList_toString]
    exact String.toList_append (s := "-")

/-- The text of a whole number has digits only, after its sign. -/
theorem eq_minus_or_isDigit {n : ℤ} {c : Char} (h : c ∈ (toString n).toList) : c = '-' ∨ c.isDigit = true := by
  rw [toList_toString_int] at h
  rcases List.mem_append.mp h with h | h
  · left
    split at h
    · simpa using h
    · simp at h
  · right
    exact IsDigits.toDigits _ c h

theorem toString_int_injective {m n : ℤ} (h : toString m = toString n) : m = n := by
  have hlists := congrArg String.toList h
  rw [toList_toString_int, toList_toString_int] at hlists
  have hminus : ∀ k l : ℕ, Nat.toDigits 10 k ≠ '-' :: Nat.toDigits 10 l := by
    intro k l heq
    have := IsDigits.toDigits k '-' (by rw [heq]; exact List.mem_cons_self)
    exact absurd this (by decide)
  rcases Int.lt_or_le m 0 with hm | hm <;> rcases Int.lt_or_le n 0 with hn | hn
  · rw [if_pos hm, if_pos hn, List.append_cancel_left_eq] at hlists
    have := toDigits_injective hlists
    omega
  · rw [if_pos hm, if_neg (by omega)] at hlists
    exact absurd hlists.symm (hminus _ _)
  · rw [if_neg (by omega), if_pos hn] at hlists
    exact absurd hlists (hminus _ _)
  · rw [if_neg (by omega), if_neg (by omega), List.append_cancel_left_eq] at hlists
    have := toDigits_injective hlists
    omega

theorem toString_int_ne_realText (n : ℤ) (x : Double) : toString n ≠ realText x := by
  intro h
  obtain ⟨whole, c, rest, htext, -, -, hc⟩ := (spells_magnitude x).marked
  -- the mark of the double is not among the characters of a whole number
  have hmem : c ∈ (toString n).toList := by
    rw [h, realText_eq, String.toList_append, htext]
    simp
  have hint := eq_minus_or_isDigit hmem
  rcases hc with rfl | rfl <;> exact absurd hint (by decide)

/-- No two numbers have the same text. -/
theorem text_injective {a b : Number} (h : a.text = b.text) : a = b := by
  cases a with
  | int m =>
    cases b with
    | int n => rw [toString_int_injective h]
    | real y => exact absurd h (toString_int_ne_realText m y)
  | real x =>
    cases b with
    | int n => exact absurd h.symm (toString_int_ne_realText n x)
    | real y => rw [realText_injective h]

/-- The text of a number begins with a digit or a sign. -/
theorem exists_text_eq_cons (a : Number) :
    ∃ c rest, a.text.toList = c :: rest ∧ (c = '-' ∨ c.isDigit = true) := by
  cases a with
  | int n =>
    obtain ⟨c, rest, hcons⟩ := List.exists_cons_of_ne_nil
      (show (toString n).toList ≠ [] by rw [toList_toString_int]; simp [Nat.toDigits_ne_nil])
    exact ⟨c, rest, hcons, eq_minus_or_isDigit (by rw [hcons]; exact List.mem_cons_self)⟩
  | real x =>
    obtain ⟨whole, c, rest, htext, hwhole, hne, -⟩ := (spells_magnitude x).marked
    obtain ⟨d, ds, rfl⟩ := List.exists_cons_of_ne_nil hne
    change ∃ c rest, (realText x).toList = c :: rest ∧ (c = '-' ∨ c.isDigit = true)
    rw [realText_eq, String.toList_append, htext]
    cases x.negative
    · exact ⟨d, ds ++ c :: rest, rfl, .inr (hwhole d List.mem_cons_self)⟩
    · exact ⟨'-', _, rfl, .inl rfl⟩

theorem isNumberChar_of_mem_text {a : Number} {c : Char} (h : c ∈ a.text.toList) : isNumberChar c = true := by
  cases a with
  | int n =>
    rcases eq_minus_or_isDigit h with rfl | hdigit
    · rfl
    · exact isNumberChar_of_isDigit hdigit
  | real x =>
    change c ∈ (realText x).toList at h
    rw [realText_eq, String.toList_append] at h
    rcases List.mem_append.mp h with h | h
    · split at h
      · rw [show c = '-' by simpa using h]
        rfl
      · simp at h
    · exact (spells_magnitude x).chars c h

end Number

end FlowScript

/-!
# Texts in byte order

Texts are compared by code points.  Comparing the bytes of their UTF-8 forms gives the same order (`bytes_lt_iff`):
the first byte of a character grows with its code, and among characters of one length the bytes that follow are the
digits of the code in base 64, the highest first.
-/

namespace FlowScript

/-- The UTF-8 form of a text. -/
def bytes (s : String) : List UInt8 := s.toUTF8.data.toList

theorem bytes_eq_flatMap (s : String) : bytes s = s.toList.flatMap String.utf8EncodeChar := by
  change s.toByteArray.data.toList = _
  rw [← String.utf8Encode_toList, List.utf8Encode, List.toList_data_toByteArray]

theorem bytes_injective {s t : String} (h : bytes s = bytes t) : s = t := by
  apply String.toByteArray_inj.mp
  apply ByteArray.ext
  exact Array.toList_inj.mp h

/-! ### Characters -/

section Characters

variable {a b m n : Nat} {x y : List UInt8}

private theorem byte_cons_lt (ha : a < 256) (hb : b < 256) (h : a < b ∨ a = b ∧ x < y) :
    UInt8.ofNat a :: x < UInt8.ofNat b :: y := by
  rw [List.cons_lt_cons_iff]
  rcases h with h | ⟨rfl, h⟩
  · left
    rw [UInt8.lt_iff_toNat_lt, UInt8.toNat_ofNat_of_lt' ha, UInt8.toNat_ofNat_of_lt' hb]
    exact h
  · exact .inr ⟨rfl, h⟩

/-- The last `k` digits of a code in base 64, as the bytes that continue a character. -/
def continuation (code : Nat) : Nat → List UInt8
  | 0 => []
  | k + 1 => UInt8.ofNat (code / Nat.pow 64 k % 64 + 0x80) :: continuation code k

/-- Codes that agree above their last `k` digits compare as those digits do. -/
theorem continuation_append_lt (h : m < n) {k : Nat} (hk : m / Nat.pow 64 k = n / Nat.pow 64 k) :
    continuation m k ++ x < continuation n k ++ y := by
  induction k with
  | zero =>
    have hmn : m = n := by simpa using hk
    omega
  | succ k ih =>
    have hdiv : m / Nat.pow 64 k / 64 = n / Nat.pow 64 k / 64 := by
      rw [Nat.div_div_eq_div_mul, Nat.div_div_eq_div_mul]
      exact hk
    have hle : m / Nat.pow 64 k ≤ n / Nat.pow 64 k := Nat.div_le_div_right (Nat.le_of_lt h)
    apply byte_cons_lt (by omega) (by omega)
    by_cases heq : m / Nat.pow 64 k = n / Nat.pow 64 k
    · exact .inr ⟨by rw [heq], ih heq⟩
    · left
      omega

/-- How many bytes continue the character with a code. -/
def further (code : Nat) : Nat :=
  if code ≤ 0x7f then 0 else if code ≤ 0x7ff then 1 else if code ≤ 0xffff then 2 else 3

/-- The first byte of the character with a code: a mark for the number of further bytes, and the digit above them. -/
def lead (code : Nat) : Nat :=
  if code ≤ 0x7f then code
  else if code ≤ 0x7ff then code / 0x40 + 0xc0
  else if code ≤ 0xffff then code / 0x1000 + 0xe0
  else code / 0x40000 + 0xf0

theorem code_lt (c : Char) : c.toNat < 0x110000 := by
  have hvalid := c.valid
  unfold UInt32.isValidChar Nat.isValidChar at hvalid
  change c.val.toNat < 0x110000
  omega

theorem utf8EncodeChar_eq (c : Char) :
    String.utf8EncodeChar c = UInt8.ofNat (lead c.toNat) :: continuation c.toNat (further c.toNat) := by
  have hcode : c.toNat < 0x110000 := code_lt c
  unfold String.utf8EncodeChar lead further
  change ite (c.toNat ≤ 0x7f) _ (ite (c.toNat ≤ 0x7ff) _ (ite (c.toNat ≤ 0xffff) _ _)) = _
  split
  · rfl
  split
  · change UInt8.ofNat (c.toNat / 0x40 % 0x20 + 0xc0) :: _ = _
    rw [Nat.mod_eq_of_lt (by omega : c.toNat / 0x40 < 0x20)]
    simp [continuation]
  split
  · change UInt8.ofNat (c.toNat / 0x1000 % 0x10 + 0xe0) :: _ = _
    rw [Nat.mod_eq_of_lt (by omega : c.toNat / 0x1000 < 0x10)]
    simp [continuation]
  · change UInt8.ofNat (c.toNat / 0x40000 % 0x08 + 0xf0) :: _ = _
    rw [Nat.mod_eq_of_lt (by omega : c.toNat / 0x40000 < 0x08)]
    simp [continuation]

theorem lead_lt (h : n < 0x110000) : lead n < 256 := by
  unfold lead
  split
  · omega
  split
  · omega
  split
  · omega
  · omega

/-- The first byte grows with the code; where it stays, the characters have one length and one digit in it. -/
theorem lead_lt_or_eq (h : m < n) :
    lead m < lead n ∨
      lead m = lead n ∧ further m = further n ∧ m / Nat.pow 64 (further m) = n / Nat.pow 64 (further m) := by
  unfold lead further
  repeat' split
  all_goals simp only [show Nat.pow 64 0 = 1 from rfl, show Nat.pow 64 1 = 0x40 from rfl,
    show Nat.pow 64 2 = 0x1000 from rfl, show Nat.pow 64 3 = 0x40000 from rfl, true_and]
  all_goals omega

/-- A smaller character comes first in byte order, whatever follows. -/
theorem utf8EncodeChar_append_lt {c d : Char} (h : c < d) :
    String.utf8EncodeChar c ++ x < String.utf8EncodeChar d ++ y := by
  have hcode : c.toNat < d.toNat := h
  rw [utf8EncodeChar_eq, utf8EncodeChar_eq]
  apply byte_cons_lt (lead_lt (code_lt c)) (lead_lt (code_lt d))
  rcases lead_lt_or_eq hcode with hlt | ⟨heq, hfurther, hdigit⟩
  · exact .inl hlt
  · right
    rw [← hfurther]
    exact ⟨heq, continuation_append_lt hcode hdigit⟩

end Characters

/-! ### Texts -/

private theorem flatMap_utf8EncodeChar_lt {cs ds : List Char} (h : cs < ds) :
    cs.flatMap String.utf8EncodeChar < ds.flatMap String.utf8EncodeChar := by
  induction cs generalizing ds with
  | nil =>
    cases ds with
    | nil => exact absurd h (List.lt_irrefl [])
    | cons d ds =>
      rw [List.flatMap_cons, utf8EncodeChar_eq]
      exact List.nil_lt_cons _ _
  | cons c cs ih =>
    cases ds with
    | nil => exact absurd h (List.not_lt_nil _)
    | cons d ds =>
      rw [List.flatMap_cons, List.flatMap_cons]
      rcases List.cons_lt_cons_iff.mp h with hlt | ⟨rfl, htail⟩
      · exact utf8EncodeChar_append_lt hlt
      · exact List.append_left_lt (ih htail)

/-- Byte order is the order of texts. -/
theorem bytes_lt_iff {s t : String} : bytes s < bytes t ↔ s < t := by
  have mono : ∀ {s t : String}, s < t → bytes s < bytes t := by
    intro s t h
    rw [bytes_eq_flatMap, bytes_eq_flatMap]
    exact flatMap_utf8EncodeChar_lt h
  constructor
  · intro h
    -- otherwise the texts are equal or come the other way round, and so do their bytes
    apply Decidable.byContradiction
    intro hst
    by_cases hts : t < s
    · exact List.lt_asymm h (mono hts)
    · have heq : s = t := String.le_antisymm (String.not_lt.mp hts) (String.not_lt.mp hst)
      rw [heq] at h
      exact List.lt_irrefl _ h
  · exact mono

end FlowScript

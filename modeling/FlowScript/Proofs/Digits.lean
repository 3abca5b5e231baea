import FlowScript.Text.Basic

/-!
# Decimal digits

Runs of decimal digits: what number they write, and that the digits of a number write that number again
(`numberOf_toDigits`).  A run ends where something else begins (`splitWhile_digits`).
-/

namespace FlowScript

theorem digitValue?_of_isDigit {c : Char} (h : c.isDigit = true) : digitValue? c = some (c.toNat - '0'.toNat) :=
  if_pos (Char.isDigit_iff_toNat.mp h)

theorem isDigitIn_of_isDigit {c : Char} (h : c.isDigit = true) : isDigitIn 10 c = true := by
  have hbounds := Char.isDigit_iff_toNat.mp h
  have h0 : '0'.toNat = 48 := rfl
  have h9 : '9'.toNat = 57 := rfl
  rw [isDigitIn, digitValue?_of_isDigit h]
  simp only [decide_eq_true_eq]
  omega

/-- Nothing but decimal digits. -/
def IsDigits (cs : List Char) : Prop := ∀ c ∈ cs, c.isDigit = true

namespace IsDigits

variable {cs ds : List Char}

theorem append (hc : IsDigits cs) (hd : IsDigits ds) : IsDigits (cs ++ ds) := by
  intro c h
  rcases List.mem_append.mp h with h | h
  · exact hc c h
  · exact hd c h

theorem take (h : IsDigits cs) (n : Nat) : IsDigits (cs.take n) := fun c hc => h c (List.mem_of_mem_take hc)

theorem drop (h : IsDigits cs) (n : Nat) : IsDigits (cs.drop n) := fun c hc => h c (List.mem_of_mem_drop hc)

theorem zeros (n : Nat) : IsDigits (List.replicate n '0') := by
  intro c hc
  rw [List.eq_of_mem_replicate hc]
  rfl

theorem toDigits (n : Nat) : IsDigits (Nat.toDigits 10 n) :=
  fun _ hc => Nat.isDigit_of_mem_toDigits (by decide) (by decide) hc

theorem numberOf_eq (h : IsDigits cs) : numberOf 10 cs = Nat.ofDigitChars 10 cs 0 := by
  have key : ∀ n : Nat, cs.foldl (fun n c => n * 10 + (digitValue? c).getD 0) n = Nat.ofDigitChars 10 cs n := by
    induction cs with
    | nil =>
      intro n
      rfl
    | cons c cs ih =>
      intro n
      rw [List.foldl_cons, Nat.ofDigitChars_cons, digitValue?_of_isDigit (h c List.mem_cons_self), Option.getD_some,
        ih (fun d hd => h d (List.mem_cons_of_mem c hd)), Nat.mul_comm]
  exact key 0

theorem numberOf_append (hc : IsDigits cs) (hd : IsDigits ds) :
    numberOf 10 (cs ++ ds) = numberOf 10 cs * Nat.pow 10 ds.length + numberOf 10 ds := by
  rw [(hc.append hd).numberOf_eq, hc.numberOf_eq, hd.numberOf_eq, Nat.ofDigitChars_append,
    Nat.ofDigitChars_eq_ofDigitChars_zero, Nat.mul_comm]
  rfl

/-- A run of digits ends before the first character that is none. -/
theorem splitWhile_append (h : IsDigits ds) (rest : List Char) (hrest : ∀ c ∈ rest.head?, isDigitIn 10 c = false) :
    splitWhile (isDigitIn 10) (ds ++ rest) = (ds, rest) := by
  have hds : ∀ c ∈ ds, isDigitIn 10 c = true := fun c hc => isDigitIn_of_isDigit (h c hc)
  rw [splitWhile, List.takeWhile_append_of_pos hds, List.dropWhile_append_of_pos hds]
  cases rest with
  | nil => simp
  | cons c rest =>
    have hc := hrest c rfl
    simp [hc]

end IsDigits

theorem numberOf_zeros (n : Nat) : numberOf 10 (List.replicate n '0') = 0 := by
  rw [(IsDigits.zeros n).numberOf_eq, Nat.ofDigitChars_replicate_zero, Nat.mul_zero]

theorem numberOf_toDigits (n : Nat) : numberOf 10 (Nat.toDigits 10 n) = n := by
  rw [(IsDigits.toDigits n).numberOf_eq, Nat.ofDigitChars_ten_toDigits]

theorem toDigits_injective {m n : Nat} (h : Nat.toDigits 10 m = Nat.toDigits 10 n) : m = n := by
  rw [← numberOf_toDigits m, h, numberOf_toDigits]

theorem toList_toString (n : Nat) : (toString n).toList = Nat.toDigits 10 n := by
  rw [Nat.toString_eq_ofList_toDigits, String.toList_ofList]

theorem toString_nat_injective {m n : Nat} (h : toString m = toString n) : m = n := by
  have hlists := congrArg String.toList h
  rw [toList_toString, toList_toString] at hlists
  exact toDigits_injective hlists

theorem readDigits?_toDigits (n : Nat) : readDigits? 10 (Nat.toDigits 10 n) = some n := by
  rw [readDigits?, if_pos, numberOf_toDigits]
  refine ⟨Nat.toDigits_ne_nil, ?_⟩
  rw [List.all_eq_true]
  exact fun c hc => isDigitIn_of_isDigit (IsDigits.toDigits n c hc)

end FlowScript

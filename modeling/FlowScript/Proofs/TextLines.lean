import FlowScript.Text.Basic
import Mathlib.Data.List.DropRight
import Mathlib.Data.List.Induction

/-!
# Cutting and trimming texts

How `pieces`, `lines` and `dropEndWhile` go through a text from either end, and what can be said of all lines of a
text without trimming it first (`forall_lines_trimmed`).  `infix_append_cons` cuts a text at a character that a word
does not have.
-/

namespace FlowScript

variable {α : Type} {p r : α → Bool} {c : α} {l m w : List α}

/-! ### Trimming -/

theorem dropEndWhile_eq_rdropWhile (p : α → Bool) (l : List α) : dropEndWhile p l = l.rdropWhile p := rfl

/-- Trimming stops at the last element that is not trimmed. -/
theorem dropEndWhile_append (l m : List α) :
    dropEndWhile p (l ++ m) = if dropEndWhile p m = [] then dropEndWhile p l else l ++ dropEndWhile p m := by
  change (l ++ m).rdropWhile p = if m.rdropWhile p = [] then l.rdropWhile p else l ++ m.rdropWhile p
  induction m using List.reverseRecOn with
  | nil => simp
  | append_singleton m c ih =>
    rw [← List.append_assoc]
    by_cases hc : p c = true
    · rw [List.rdropWhile_concat_pos p _ c hc, List.rdropWhile_concat_pos p _ c hc, ih]
    · rw [List.rdropWhile_concat_neg p _ c hc, List.rdropWhile_concat_neg p _ c hc, if_neg (by simp),
        List.append_assoc]

/-! ### Pieces -/

theorem pieces_cons_of_pos (hc : p c = true) : pieces p (c :: l) = [] :: pieces p l := by
  rw [pieces, if_pos hc]

theorem pieces_cons_of_neg (hc : ¬ p c = true) : pieces p (c :: l) = (pieces p l).modifyHead (c :: ·) := by
  rw [pieces, if_neg hc]
  split
  · next h => exact absurd h (pieces_ne_nil p l)
  · next h => rw [h]; rfl

theorem pieces_eq_splitOnP (p : α → Bool) (l : List α) : pieces p l = l.splitOnP p := by
  induction l with
  | nil => rfl
  | cons c l ih =>
    rw [List.splitOnP_cons_eq_if_modifyHead, ← ih]
    split
    · next hc => exact pieces_cons_of_pos hc
    · next hc => exact pieces_cons_of_neg hc

/-- A text is cut at each element where it may be cut. -/
theorem pieces_append_cons (hc : p c = true) : pieces p (l ++ c :: m) = pieces p l ++ pieces p m := by
  simp only [pieces_eq_splitOnP, List.splitOnP_append_cons l m hc]

/-- What stands before the first cut is part of the first piece. -/
theorem pieces_append_of_forall (h : ∀ d ∈ l, ¬ p d = true) : pieces p (l ++ m) = (pieces p m).modifyHead (l ++ ·) := by
  induction l with
  | nil => cases h : pieces p m <;> exact h
  | cons d l ih =>
    rw [List.cons_append, pieces_cons_of_neg (h d List.mem_cons_self),
      ih fun e he => h e (List.mem_cons_of_mem d he), List.modifyHead_modifyHead]
    rfl

theorem pieces_of_forall (h : ∀ d ∈ l, ¬ p d = true) : pieces p l = [l] := by
  have := pieces_append_of_forall (m := []) h
  simpa [pieces] using this

theorem not_of_mem_pieces {x : List α} {d : α} (hx : x ∈ pieces p l) (hd : d ∈ x) : ¬ p d = true := by
  induction l generalizing x with
  | nil =>
    rw [pieces, List.mem_singleton] at hx
    subst hx
    cases hd
  | cons c l ih =>
    by_cases hc : p c = true
    · rw [pieces_cons_of_pos hc, List.mem_cons] at hx
      rcases hx with rfl | hx
      · cases hd
      · exact ih hx hd
    · rw [pieces_cons_of_neg hc] at hx
      obtain ⟨q, qs, hq⟩ := List.exists_cons_of_ne_nil (pieces_ne_nil p l)
      rw [hq, List.modifyHead_cons, List.mem_cons] at hx
      rcases hx with rfl | hx
      · rcases List.mem_cons.mp hd with rfl | hd
        · exact hc
        · exact ih (by rw [hq]; exact List.mem_cons_self) hd
      · exact ih (by rw [hq]; exact List.mem_cons_of_mem q hx) hd

/-- An element at the end where the text is not cut is part of the last piece. -/
theorem pieces_concat_of_neg (hc : ¬ p c = true) (l : List α) :
    ∃ qs q, pieces p l = qs ++ [q] ∧ pieces p (l ++ [c]) = qs ++ [q ++ [c]] := by
  induction l with
  | nil => exact ⟨[], [], rfl, by rw [List.nil_append, pieces_of_forall (by simpa using hc)]; rfl⟩
  | cons d l ih =>
    obtain ⟨qs, q, hl, hlc⟩ := ih
    rw [List.cons_append]
    by_cases hd : p d = true
    · rw [pieces_cons_of_pos hd, pieces_cons_of_pos hd, hl, hlc]
      exact ⟨[] :: qs, q, rfl, rfl⟩
    · rw [pieces_cons_of_neg hd, pieces_cons_of_neg hd, hl, hlc]
      cases qs with
      | nil => exact ⟨[], d :: q, rfl, rfl⟩
      | cons x xs => exact ⟨(d :: x) :: xs, q, rfl, rfl⟩

/-- Trimming a text changes nothing that is said of its pieces without regard to what is trimmed. -/
theorem forall_pieces_dropEndWhile {q : List α → Prop} (hnil : q [])
    (hend : ∀ l c, r c = true → (q (l ++ [c]) ↔ q l)) (l : List α) :
    (∀ x ∈ pieces p (dropEndWhile r l), q x) ↔ ∀ x ∈ pieces p l, q x := by
  rw [dropEndWhile_eq_rdropWhile]
  induction l using List.reverseRecOn with
  | nil => rfl
  | append_singleton l c ih =>
    by_cases hr : r c = true
    · rw [List.rdropWhile_concat_pos r l c hr, ih]
      by_cases hc : p c = true
      · rw [pieces_append_cons hc]
        simp [pieces, or_imp, forall_and, hnil]
      · obtain ⟨qs, x, hl, hlc⟩ := pieces_concat_of_neg hc l
        rw [hl, hlc]
        simp [or_imp, forall_and, hend x c hr]
    · rw [List.rdropWhile_concat_neg r l c hr]

/-! ### Lines -/

/-- What is said of every line without regard to carriage returns at its end is said of every piece between LFs. -/
theorem forall_lines {q : List Char → Prop} (hnil : q []) (hend : ∀ l, q (l ++ ['\r']) ↔ q l) (cs : List Char) :
    (∀ x ∈ lines cs, q x) ↔ ∀ x ∈ pieces (· == '\n') cs, q x := by
  have hcarriage : ∀ l, q (dropCarriage l) ↔ q l := by
    intro l
    unfold dropCarriage
    split
    · next h =>
      obtain ⟨m, rfl⟩ := List.getLast?_eq_some_iff.mp h
      rw [List.dropLast_concat, hend]
    · rfl
  obtain ⟨qs, x, hx⟩ : ∃ qs x, pieces (· == '\n') cs = qs ++ [x] :=
    ⟨_, _, (List.dropLast_concat_getLast (pieces_ne_nil (· == '\n') cs)).symm⟩
  unfold lines
  dsimp only
  rw [hx, List.dropLast_concat, List.getLast?_concat]
  cases x with
  | nil => simp [or_imp, forall_and, hnil, hcarriage]
  | cons c x => simp [or_imp, forall_and, hcarriage]

/-- The lines of a text that was trimmed first, for what is said without regard to blanks at the end of a line. -/
theorem forall_lines_trimmed {q : List Char → Prop} (hnil : q [])
    (hend : ∀ l c, isBlank c = true → (q (l ++ [c]) ↔ q l)) (cs : List Char) :
    (∀ x ∈ lines (dropEndWhile isBlank cs), q x) ↔ ∀ x ∈ pieces (· == '\n') cs, q x := by
  rw [forall_lines hnil (fun l => hend l '\r' (by decide)), forall_pieces_dropEndWhile hnil hend]

/-! ### Words -/

/-- A word does not go over an element that it does not have. -/
theorem infix_append_cons (hc : c ∉ w) : w <:+: l ++ c :: m ↔ w <:+: l ∨ w <:+: m := by
  -- a part of the word that begins at the element is empty
  have hfront : ∀ v, v <:+: w → v <+: c :: m → v = [] := by
    intro v hv hpre
    rcases List.prefix_cons_iff.mp hpre with rfl | ⟨t, rfl, -⟩
    · rfl
    · exact absurd (hv.subset List.mem_cons_self) hc
  constructor
  · intro h
    rcases List.infix_append_iff.mp h with h | h | ⟨u, v, rfl, hu, hv⟩
    · exact .inl h
    · rcases List.infix_cons_iff.mp h with h | h
      · rw [hfront w List.infix_rfl h]
        exact .inl (List.nil_infix)
      · exact .inr h
    · rw [hfront v (List.suffix_append u v).isInfix hv, List.append_nil]
      exact .inl hu.isInfix
  · rintro (h | h)
    · exact h.trans (List.prefix_append l (c :: m)).isInfix
    · exact h.trans ((List.suffix_cons c m).trans (List.suffix_append l (c :: m))).isInfix

/-- A text that is cut only where the word has nothing has the word iff one of the pieces has it. -/
theorem exists_piece_infix (hw : ∀ d ∈ w, ¬ p d = true) (l : List α) :
    (∃ x ∈ pieces p l, w <:+: x) ↔ w <:+: l := by
  induction hn : l.length using Nat.strongRecOn generalizing l with
  | ind n ih =>
    by_cases h : ∃ d ∈ l, p d = true
    · -- any cut will do
      obtain ⟨d, hd, hp⟩ := h
      obtain ⟨a, b, rfl⟩ := List.append_of_mem hd
      rw [List.length_append, List.length_cons] at hn
      rw [pieces_append_cons hp, infix_append_cons fun hmem => hw d hmem hp, ← ih a.length (by omega) a rfl,
        ← ih b.length (by omega) b rfl]
      simp [or_and_right, exists_or]
    · rw [pieces_of_forall (by simpa using h)]
      simp

theorem infix_intercalate (hw : w ≠ []) (hc : c ∉ w) (ls : List (List α)) :
    w <:+: [c].intercalate ls ↔ ∃ x ∈ ls, w <:+: x := by
  induction ls with
  | nil => simp [hw]
  | cons l ls ih =>
    cases ls with
    | nil => simp
    | cons m ls =>
      rw [List.intercalate_cons_cons, List.append_assoc, List.singleton_append, infix_append_cons hc, ih]
      simp

end FlowScript

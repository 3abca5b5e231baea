import FlowScript.Script.Layout

/-!
# Lines and levels of a layout

`Edit.written` lists the lines that edits write, and the text of the edits is these lines, each with its ending
(`Edit.text_eq_unlines`).  A line counts as one however many line breaks its own text has.

Edits that never take a level away where there is none (`Edit.Grounded`) do the same at every higher level, with all
their lines indented by as much (`Edit.Grounded.written_add`).  Edits are balanced if they are grounded and end at the
level where they start, whichever that is.
-/

namespace FlowScript

namespace Edit

/-! ### Lines -/

/-- A line at a level, without its ending; an empty line stays empty. -/
def indented (level : Nat) (line : String) : String := if line = "" then "" else indentation level ++ line

/-- Lines with their endings. -/
def unlines (ls : List String) : String := String.join (ls.map (· ++ "\n"))

/-- The lines that one edit writes at a level, without their endings. -/
def ownLines (level : Nat) : Edit → List String
  | line text | opening text => [indented level text]
  | blank => [""]
  | verbatim text => (verbatimLines text).map (indented level)
  | comment text => (commentLines text).map (indented level)
  | indent | dedent => []
  | block text => [indented level (text ++ " \x7b")]
  | closing text => [indented (level - 1) text]
  | blockEnd => [indented (level - 1) "\x7d"]

/-- The lines that a list of edits writes, from a level on. -/
def written (level : Nat) : List Edit → List String
  | [] => []
  | e :: es => e.ownLines level ++ written (e.next level) es

theorem unlines_append (ls ms : List String) : unlines (ls ++ ms) = unlines ls ++ unlines ms := by
  simp [unlines]

theorem lineText_eq (level : Nat) (line : String) : lineText level line = indented level line ++ "\n" := by
  unfold lineText indented
  split <;> rfl

theorem linesText_eq (level : Nat) (ls : List String) : linesText level ls = unlines (ls.map (indented level)) := by
  rw [linesText, unlines, List.map_map]
  exact congrArg String.join (List.map_congr_left fun l _ => lineText_eq level l)

theorem added_eq_unlines (level : Nat) (e : Edit) : e.added level = unlines (e.ownLines level) := by
  cases e with
  | verbatim text => exact linesText_eq level (verbatimLines text)
  | comment text => exact linesText_eq level (commentLines text)
  | _ => simp [added, ownLines, unlines, lineText_eq]

theorem text_eq_unlines (level : Nat) (es : List Edit) : text level es = unlines (written level es) := by
  induction es generalizing level with
  | nil => rfl
  | cons e es ih => rw [text, written, unlines_append, added_eq_unlines, ih]

theorem indentation_add (k n : Nat) : indentation (k + n) = indentation k ++ indentation n := by
  rw [← String.toList_inj, String.toList_append]
  simp [indentation, Nat.mul_add]

theorem indented_empty (level : Nat) : indented level "" = "" := rfl

theorem indented_eq_empty_iff {level : Nat} {line : String} : indented level line = "" ↔ line = "" := by
  unfold indented
  split
  · next h => simp [h]
  · next h => simp [h]

/-- To indent twice is to indent by the sum. -/
theorem indented_indented (k n : Nat) (line : String) : indented k (indented n line) = indented (n + k) line := by
  by_cases h : line = ""
  · simp [indented, h]
  · have hne : indented n line ≠ "" := fun h' => h (indented_eq_empty_iff.mp h')
    rw [indented, if_neg hne, indented, if_neg h, indented, if_neg h, Nat.add_comm, indentation_add,
      String.append_assoc]

/-! ### Levels -/

/-- Edits that take a level away. -/
def lowers : Edit → Bool
  | dedent | closing _ | blockEnd => true
  | _ => false

/-- Edits that add a level. -/
def raises : Edit → Bool
  | indent | opening _ | block _ => true
  | _ => false

/-- No edit takes a level away where there is none. -/
def Grounded (start : Nat) : List Edit → Prop
  | [] => True
  | e :: es => (e.lowers = true → 0 < start) ∧ Grounded (e.next start) es

theorem next_add {n : Nat} {e : Edit} (h : e.lowers = true → 0 < n) (k : Nat) : e.next (n + k) = e.next n + k := by
  cases e with
  | dedent | closing | blockEnd =>
    have : 0 < n := h rfl
    simp only [next]
    omega
  | _ => simp only [next] <;> omega

theorem ownLines_add {n : Nat} {e : Edit} (h : e.lowers = true → 0 < n) (k : Nat) :
    e.ownLines (n + k) = (e.ownLines n).map (indented k) := by
  cases e with
  | dedent => rfl
  | closing | blockEnd =>
    have : 0 < n := h rfl
    have hlevel : n + k - 1 = n - 1 + k := by omega
    simp only [ownLines, List.map_cons, List.map_nil, indented_indented, hlevel]
  | blank => simp [ownLines, indented_empty]
  | _ => simp [ownLines, indented_indented]

namespace Grounded

variable {n : Nat} {es fs : List Edit}

theorem add (h : Grounded n es) (k : Nat) : Grounded (n + k) es := by
  induction es generalizing n with
  | nil => trivial
  | cons e es ih =>
    refine ⟨?_, ?_⟩
    · intro hlow
      have := h.1 hlow
      omega
    · rw [next_add h.1 k]
      exact ih h.2

theorem level_add (h : Grounded n es) (k : Nat) : level (n + k) es = level n es + k := by
  induction es generalizing n with
  | nil => rfl
  | cons e es ih =>
    have hnext := ih h.2
    rw [← next_add h.1 k] at hnext
    exact hnext

/-- Grounded edits write the same lines at every higher level, with more indentation. -/
theorem written_add (h : Grounded n es) (k : Nat) : written (n + k) es = (written n es).map (indented k) := by
  induction es generalizing n with
  | nil => rfl
  | cons e es ih =>
    rw [written, written, List.map_append, ownLines_add h.1 k, next_add h.1 k, ih h.2]

theorem append (h : Grounded n es) (h' : Grounded (level n es) fs) : Grounded n (es ++ fs) := by
  induction es generalizing n with
  | nil => exact h'
  | cons e es ih => exact ⟨h.1, ih h.2 h'⟩

end Grounded

/-- Edits that never take away a level that they did not add, and take away all that they added. -/
structure Balanced (es : List Edit) : Prop where
  grounded : ∀ n, Grounded n es
  level_eq : ∀ n, level n es = n

namespace Balanced

variable {es fs : List Edit}

/-- It is enough to look at edits that start where there is no indentation. -/
theorem of_zero (h : Grounded 0 es) (hlevel : level 0 es = 0) : Balanced es where
  grounded n := by
    have := h.add n
    rwa [Nat.zero_add] at this
  level_eq n := by
    have := h.level_add n
    rwa [Nat.zero_add, hlevel, Nat.zero_add] at this

theorem nil : Balanced [] := of_zero trivial rfl

theorem append (h : Balanced es) (h' : Balanced fs) : Balanced (es ++ fs) where
  grounded n := (h.grounded n).append (h'.grounded _)
  level_eq n := by rw [level_append, h.level_eq, h'.level_eq]

/-- Balanced edits between one that adds a level and one that takes it away. -/
theorem nest {first last : Edit} (hfirst : first.raises = true) (h : Balanced es) (hlast : last.lowers = true) :
    Balanced ([first] ++ es ++ [last]) := by
  have hraise : first.lowers = false ∧ ∀ n, first.next n = n + 1 := by
    cases first <;> simp_all [raises, lowers, next]
  have hlower : ∀ n, last.next (n + 1) = n := by
    cases last <;> simp_all [lowers, next]
  have hlevel : ∀ n, level n ([first] ++ es) = n + 1 := by
    intro n
    rw [level_append, h.level_eq]
    exact hraise.2 n
  refine ⟨?_, ?_⟩
  · intro n
    have hopen : Grounded n ([first] ++ es) :=
      Grounded.append ⟨by simp [hraise.1], trivial⟩ (h.grounded _)
    refine hopen.append ⟨?_, trivial⟩
    intro _
    rw [hlevel]
    omega
  · intro n
    rw [level_append, hlevel]
    exact hlower n

end Balanced

end Edit

end FlowScript

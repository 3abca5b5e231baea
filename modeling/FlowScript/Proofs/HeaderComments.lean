import FlowScript.Proofs.TextLines
import FlowScript.Script.OfProgram

/-!
# The header of a script

The header holds texts of the author: the name, the source and the description of the workflow.  Each line of it that
the layout writes begins with two slashes.  A script has more line terminators than the layout knows: besides LF there
are CR, U+2028 and U+2029.  `Header.onlyComments_iff` says which headers are comments all the same.
-/

namespace FlowScript

/-- The characters that end a line of a script. -/
def isLineTerminator (c : Char) : Bool := c == '\n' || c == '\r' || c == '\u2028' || c == '\u2029'

/-- Every line of a script that is not empty begins with two slashes. -/
def OnlyComments (cs : List Char) : Prop := ∀ l ∈ pieces isLineTerminator cs, l = [] ∨ ['/', '/'] <+: l

/-- In a text, whose blanks at the end do not count, every line after the first is empty or begins with two slashes;
so all of it stays in a comment that its first line is in. -/
def StaysInComment (cs : List Char) : Prop :=
  ∀ l ∈ (pieces isLineTerminator (dropEndWhile isBlank cs)).tail, l = [] ∨ ['/', '/'] <+: l

/-! ### Lines of comments -/

theorem onlyComments_flatMap (ls : List String) :
    OnlyComments (ls.flatMap fun l => l.toList ++ ['\n']) ↔ ∀ l ∈ ls, OnlyComments l.toList := by
  induction ls with
  | nil => simp [OnlyComments, pieces]
  | cons l ls ih =>
    rw [List.flatMap_cons, List.append_assoc, List.singleton_append, List.forall_mem_cons, ← ih]
    unfold OnlyComments
    rw [pieces_append_cons (by decide), List.forall_mem_append]

theorem onlyComments_commentLine (text : List Char) :
    OnlyComments (Edit.commentLine (String.ofList text)).toList ↔ StaysInComment text := by
  unfold Edit.commentLine trimEnd StaysInComment
  dsimp only
  rw [String.toList_ofList]
  split
  · next h =>
    have hbody : dropEndWhile isBlank text = [] := by simpa using h
    rw [hbody]
    simp [OnlyComments, pieces, isLineTerminator]
  · have hslashes : ∀ c ∈ ['/', '/', ' '], ¬ isLineTerminator c = true := by
      simp [isLineTerminator]
    obtain ⟨q, qs, hq⟩ := List.exists_cons_of_ne_nil (pieces_ne_nil isLineTerminator (dropEndWhile isBlank text))
    unfold OnlyComments
    rw [String.toList_append, String.toList_ofList, String.toList_ofList, pieces_append_of_forall hslashes, hq]
    simp

/-- A comment consists of comments iff no line of its text leaves the comment that it is in. -/
theorem onlyComments_commentLines (text : String) :
    (∀ l ∈ Edit.commentLines text, OnlyComments l.toList) ↔
      ∀ l ∈ pieces (· == '\n') text.toList, StaysInComment l := by
  have hnil : StaysInComment [] := by simp [StaysInComment, dropEndWhile, pieces]
  have hblank : ∀ l c, isBlank c = true → (StaysInComment (l ++ [c]) ↔ StaysInComment l) := by
    intro l c hc
    rw [StaysInComment, StaysInComment, dropEndWhile_eq_rdropWhile, List.rdropWhile_concat_pos isBlank l c hc]
    rfl
  rw [← forall_lines_trimmed hnil hblank]
  simp [Edit.commentLines, onlyComments_commentLine]

/-- A word before a text does not change whether it stays in a comment. -/
theorem staysInComment_append {label : List Char} (hlabel : ∀ c ∈ label, ¬ isLineTerminator c = true)
    (cs : List Char) : StaysInComment (label ++ cs) ↔ StaysInComment cs := by
  unfold StaysInComment
  rw [dropEndWhile_append]
  split
  · next h =>
    have hfront : dropEndWhile isBlank label <+: label := List.rdropWhile_prefix isBlank label
    have htrimmed : ∀ c ∈ dropEndWhile isBlank label, ¬ isLineTerminator c = true :=
      fun c hc => hlabel c (hfront.subset hc)
    rw [h, pieces_of_forall htrimmed]
    simp [pieces]
  · obtain ⟨q, qs, hq⟩ := List.exists_cons_of_ne_nil (pieces_ne_nil isLineTerminator (dropEndWhile isBlank cs))
    rw [pieces_append_of_forall hlabel, hq]
    simp

namespace Header

theorem toList_oneLine (text : String) :
    (oneLine text).toList =
      [' '].intercalate ((pieces Edit.isLineEnd text.toList).filter fun l => !l.isEmpty) := by
  rw [oneLine, String.toList_intercalate, List.map_map]
  simp [Function.comp_def]

/-- There is no line ending in a text on one line. -/
theorem not_isLineEnd_of_mem_oneLine {text : String} {c : Char} (hc : c ∈ (oneLine text).toList) :
    ¬ Edit.isLineEnd c = true := by
  intro hend
  have hspace : ' ' ∉ [c] := by
    rw [List.mem_singleton]
    rintro rfl
    exact absurd hend (by decide)
  obtain ⟨u, v, huv⟩ := List.append_of_mem hc
  have hinfix : [c] <:+: (oneLine text).toList := ⟨u, v, by rw [huv, List.append_assoc, List.singleton_append]⟩
  rw [toList_oneLine, infix_intercalate (by simp) hspace] at hinfix
  obtain ⟨x, hx, hcx⟩ := hinfix
  exact not_of_mem_pieces (List.mem_filter.mp hx).1 (hcx.subset List.mem_cons_self) hend

/-- The lines of the header. -/
def commentLines (h : Header) : List String :=
  Edit.commentLines ("Workflow: " ++ oneLine h.workflow) ++ Edit.commentLines ("Source: " ++ oneLine h.source) ++
    match h.description with
    | some text => if hasInk text then "//" :: Edit.commentLines text else []
    | none => []

theorem toList_linesText (ls : List String) :
    (Edit.linesText 0 ls).toList = ls.flatMap fun l => l.toList ++ ['\n'] := by
  have hline : ∀ l, Edit.lineText 0 l = l ++ "\n" := by
    intro l
    unfold Edit.lineText
    split
    · next h => rw [h]; rfl
    · simp [Edit.indentation]
  simp [Edit.linesText, List.flatMap_map, hline]

theorem text_edits (h : Header) :
    (Edit.text 0 h.edits).toList = h.commentLines.flatMap fun l => l.toList ++ ['\n'] := by
  have hline : Edit.lineText 0 "//" = "//\n" := by simp [Edit.lineText, Edit.indentation]
  rw [← toList_linesText]
  unfold edits commentLines
  cases h.description with
  | none => simp [Edit.text, Edit.added, Edit.next, Edit.linesText]
  | some text =>
    dsimp only
    split
    · simp [Edit.text, Edit.added, Edit.next, Edit.linesText, hline]
    · simp [Edit.text, Edit.added, Edit.next, Edit.linesText]

/-- A labelled text on one line makes a single comment line. -/
theorem onlyComments_labelled {label : String} (hlabel : ∀ c ∈ label.toList, ¬ isLineTerminator c = true)
    (text : String) :
    (∀ l ∈ Edit.commentLines (label ++ oneLine text), OnlyComments l.toList) ↔
      StaysInComment (oneLine text).toList := by
  have hline : ∀ c ∈ label.toList ++ (oneLine text).toList, ¬ (c == '\n') = true := by
    intro c hc hn
    rw [beq_iff_eq] at hn
    subst hn
    rcases List.mem_append.mp hc with hc | hc
    · exact hlabel _ hc (by decide)
    · exact not_isLineEnd_of_mem_oneLine hc (by decide)
  rw [onlyComments_commentLines, String.toList_append, pieces_of_forall hline, List.forall_mem_singleton,
    staysInComment_append hlabel]

/-- A text without ink makes no comment line. -/
theorem commentLines_of_not_hasInk {text : String} (h : ¬ hasInk text = true) : Edit.commentLines text = [] := by
  have hblank : dropEndWhile isBlank text.toList = [] := by
    rw [dropEndWhile_eq_rdropWhile, List.rdropWhile_eq_nil_iff]
    simpa [hasInk] using h
  rw [Edit.commentLines, hblank]
  rfl

/-- The header consists of comments iff no line of its texts leaves the comment that it is in.  The description is cut
at LF only, while the name and the source are put on one line. -/
theorem onlyComments_iff (h : Header) :
    OnlyComments (Edit.text 0 h.edits).toList ↔
      StaysInComment (oneLine h.workflow).toList ∧ StaysInComment (oneLine h.source).toList ∧
        ∀ text, h.description = some text → ∀ l ∈ pieces (· == '\n') text.toList, StaysInComment l := by
  have hslashes : OnlyComments "//".toList := by simp [OnlyComments, pieces, isLineTerminator]
  rw [text_edits, onlyComments_flatMap, commentLines, List.forall_mem_append, List.forall_mem_append,
    onlyComments_labelled (by simp [isLineTerminator]), onlyComments_labelled (by simp [isLineTerminator]), and_assoc]
  cases hd : h.description with
  | none => simp
  | some text =>
    simp only [Option.some.injEq, forall_eq', ← onlyComments_commentLines]
    split
    · rw [List.forall_mem_cons, and_iff_right hslashes]
    · next hink => simp [commentLines_of_not_hasInk hink]

/-- A carriage return in the description and U+2028 in the name put code before the script's own. -/
theorem not_onlyComments_terminator :
    ¬ OnlyComments (Edit.text 0 (edits ⟨"a", "b", some "c\rexit()"⟩)).toList ∧
      ¬ OnlyComments (Edit.text 0 (edits ⟨"a\u2028exit()", "b", none⟩)).toList := by
  unfold OnlyComments
  decide +kernel

end Header

end FlowScript

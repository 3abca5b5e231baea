import FlowScript.Proofs.HeaderComments
import FlowScript.Run.Result

/-!
# Giving a script its input

The host puts the input data in the place of the first placeholder of the script.  That is the one of the prologue iff
no text of the header has a placeholder (`inject_script_iff`): the header stands before the prologue, and what the
author wrote stands in it.

A word without blanks is not torn or made by the layout of the header, so the header has it iff one of its texts has.
-/

namespace FlowScript

/-! ### The first occurrence of a word -/

section

variable {w r a b : List Char} {c : Char}

theorem replaceFirst_append (hw : w ≠ []) : replaceFirst w r (w ++ b) = r ++ b := by
  obtain ⟨d, w, rfl⟩ := List.exists_cons_of_ne_nil hw
  rw [List.cons_append, replaceFirst, ← List.cons_append, dropWord?_eq_some.mpr rfl]

theorem replaceFirst_cons (h : ¬ w <+: c :: a) : replaceFirst w r (c :: a) = c :: replaceFirst w r a := by
  rw [replaceFirst]
  split
  · next rest hrest =>
    rw [dropWord?_eq_some.mp hrest] at h
    exact absurd (List.prefix_append w rest) h
  · rfl

/-- A word that a text has is replaced in this text, whatever follows the text. -/
theorem exists_replaceFirst (hw : w ≠ []) (h : w <:+: a) :
    ∃ u v, a = u ++ w ++ v ∧ ∀ b, replaceFirst w r (a ++ b) = u ++ r ++ v ++ b := by
  induction a with
  | nil => exact absurd (List.infix_nil.mp h) hw
  | cons c a ih =>
    by_cases hfront : w <+: c :: a
    · obtain ⟨v, hv⟩ := hfront
      refine ⟨[], v, hv.symm, ?_⟩
      intro b
      rw [← hv, List.append_assoc, replaceFirst_append hw, List.nil_append, List.append_assoc]
    · have hin := (List.infix_cons_iff.mp h).resolve_left hfront
      obtain ⟨u, v, rfl, hrest⟩ := ih hin
      refine ⟨c :: u, v, rfl, ?_⟩
      intro b
      -- the word fits into the text, so what follows the text does not complete it
      have hlater : ¬ w <+: c :: (u ++ w ++ v ++ b) := by
        intro hpre
        refine hfront (List.prefix_of_prefix_length_le hpre (List.prefix_append (c :: (u ++ w ++ v)) b) ?_)
        simp only [List.length_cons, List.length_append]
        omega
      rw [List.cons_append, replaceFirst_cons hlater, hrest]
      rfl

theorem prefix_append_cons (hc : c ∉ w) : w <+: a ++ c :: b ↔ w <+: a := by
  constructor
  · intro h
    rcases List.prefix_or_prefix_of_prefix h (List.prefix_append a (c :: b)) with ha | ha
    · exact ha
    · obtain ⟨v, rfl⟩ := ha
      cases v with
      | nil => exact (List.append_nil a).symm ▸ List.prefix_rfl
      | cons d v =>
        rw [List.prefix_append_right_inj, List.cons_prefix_cons] at h
        exact absurd (by rw [h.1]; simp) hc
  · exact fun h => h.trans (List.prefix_append a _)

/-- A word that stands after a text that does not have it is replaced, if a character that it does not have either
stands between them. -/
theorem replaceFirst_of_not_infix (hw : w ≠ []) (hc : c ∉ w) (h : ¬ w <:+: a) :
    replaceFirst w r (a ++ c :: (w ++ b)) = a ++ c :: (r ++ b) := by
  induction a with
  | nil =>
    have hfront : ¬ w <+: [] ++ c :: (w ++ b) := by
      rw [prefix_append_cons hc, List.prefix_nil]
      exact hw
    rw [List.nil_append, replaceFirst_cons hfront, replaceFirst_append hw, List.nil_append]
  | cons d a ih =>
    rw [List.infix_cons_iff, not_or] at h
    have hfront : ¬ w <+: d :: (a ++ c :: (w ++ b)) := by
      rw [← List.cons_append, prefix_append_cons hc]
      exact h.1
    rw [List.cons_append, replaceFirst_cons hfront, ih h.2, List.cons_append]

end

/-! ### Words of the header -/

/-- A word that the layout of comments neither makes nor tears. -/
structure IsWord (w : List Char) : Prop where
  ne_nil : w ≠ []
  not_isBlank : ∀ c ∈ w, ¬ isBlank c = true
  not_slash : '/' ∉ w

section

variable {w : List Char} (hw : IsWord w)
include hw

theorem IsWord.not_infix_nil : ¬ w <:+: [] := fun h => hw.ne_nil (List.infix_nil.mp h)

theorem infix_concat_isBlank {c : Char} (hc : isBlank c = true) (l : List Char) : w <:+: l ++ [c] ↔ w <:+: l := by
  rw [infix_append_cons fun hmem => hw.not_isBlank c hmem hc, or_iff_left hw.not_infix_nil]

theorem infix_dropEndWhile_isBlank (l : List Char) : w <:+: dropEndWhile isBlank l ↔ w <:+: l := by
  rw [dropEndWhile_eq_rdropWhile]
  induction l using List.reverseRecOn with
  | nil => rfl
  | append_singleton l c ih =>
    by_cases hc : isBlank c = true
    · rw [List.rdropWhile_concat_pos isBlank l c hc, ih, infix_concat_isBlank hw hc]
    · rw [List.rdropWhile_concat_neg isBlank l c hc]

theorem infix_flatMap_lines (ls : List String) :
    w <:+: ls.flatMap (fun l => l.toList ++ ['\n']) ↔ ∃ l ∈ ls, w <:+: l.toList := by
  induction ls with
  | nil => simp [hw.ne_nil]
  | cons l ls ih =>
    rw [List.flatMap_cons, List.append_assoc, List.singleton_append,
      infix_append_cons fun h => hw.not_isBlank _ h (by decide), List.exists_mem_cons_iff]
    exact or_congr_right ih

theorem not_infix_slashes : ¬ w <:+: ['/', '/'] := by
  intro h
  obtain ⟨c, u, rfl⟩ := List.exists_cons_of_ne_nil hw.ne_nil
  have hc : c = '/' := by simpa using h.subset List.mem_cons_self
  exact hw.not_slash (by simp [hc])

/-- A comment line has the words of its text. -/
theorem infix_commentLine (text : List Char) :
    w <:+: (Edit.commentLine (String.ofList text)).toList ↔ w <:+: text := by
  have hspace : ' ' ∉ w := fun h => hw.not_isBlank _ h (by decide)
  have hslashes := not_infix_slashes hw
  rw [← infix_dropEndWhile_isBlank hw text]
  unfold Edit.commentLine trimEnd
  dsimp only
  rw [String.toList_ofList]
  split
  · next h =>
    have hbody : dropEndWhile isBlank text = [] := by simpa using h
    simp [hbody, hslashes, hw.ne_nil]
  · have hline : ("// " ++ String.ofList (dropEndWhile isBlank text)).toList =
        ['/', '/'] ++ ' ' :: dropEndWhile isBlank text := by simp
    rw [hline, infix_append_cons hspace, or_iff_right hslashes]

theorem exists_commentLine_infix (text : String) :
    (∃ l ∈ Edit.commentLines text, w <:+: l.toList) ↔ w <:+: text.toList := by
  have hline : ∀ c ∈ w, ¬ (c == '\n') = true := by
    intro c hc hn
    exact hw.not_isBlank c hc (by rw [beq_iff_eq.mp hn]; decide)
  have := forall_lines_trimmed (q := fun x => ¬ w <:+: x) hw.not_infix_nil
    (fun l c hc => not_congr (infix_concat_isBlank hw hc l)) text.toList
  rw [← exists_piece_infix hline, ← not_iff_not]
  simpa [Edit.commentLines, infix_commentLine hw] using this

namespace Header

theorem infix_oneLine (text : String) : w <:+: (oneLine text).toList ↔ w <:+: text.toList := by
  have hline : ∀ c ∈ w, ¬ Edit.isLineEnd c = true := by
    intro c hc hend
    refine hw.not_isBlank c hc ?_
    rcases (Bool.or_eq_true _ _).mp hend with h | h <;> rw [beq_iff_eq.mp h] <;> decide
  rw [toList_oneLine, infix_intercalate hw.ne_nil fun h => hw.not_isBlank _ h (by decide), ← exists_piece_infix hline]
  -- the empty pieces that are left out do not have the word
  constructor
  · rintro ⟨x, hx, hwx⟩
    exact ⟨x, (List.mem_filter.mp hx).1, hwx⟩
  · rintro ⟨x, hx, hwx⟩
    refine ⟨x, List.mem_filter.mpr ⟨hx, ?_⟩, hwx⟩
    cases x with
    | nil => exact absurd hwx hw.not_infix_nil
    | cons c x => rfl

end Header

end

namespace Header

/-- Whether a text of the header has a word. -/
def Mentions (h : Header) (word : String) : Prop :=
  word.toList <:+: h.workflow.toList ∨ word.toList <:+: h.source.toList ∨
    ∃ text, h.description = some text ∧ word.toList <:+: text.toList

theorem isWord_inputPlaceholder : IsWord inputPlaceholder.toList where
  ne_nil := by decide
  not_isBlank := by
    have hall : inputPlaceholder.toList.all (fun c => !isBlank c) = true := by decide
    simpa using hall
  not_slash := by decide

theorem infix_labelled (label : String) (hlabel : '_' ∉ label.toList) (text : String) :
    inputPlaceholder.toList <:+: (label ++ " " ++ oneLine text).toList ↔ inputPlaceholder.toList <:+: text.toList := by
  have hnot : ¬ inputPlaceholder.toList <:+: label.toList := fun h => hlabel (h.subset (by decide))
  have hlist : (label ++ " " ++ oneLine text).toList = label.toList ++ ' ' :: (oneLine text).toList := by simp
  rw [hlist, infix_append_cons (by decide), or_iff_right hnot, infix_oneLine isWord_inputPlaceholder]

/-- The header of a script has the placeholder iff one of its texts has it. -/
theorem infix_text_edits (h : Header) :
    inputPlaceholder.toList <:+: (Edit.text 0 h.edits).toList ↔ h.Mentions inputPlaceholder := by
  have hw := isWord_inputPlaceholder
  have hworkflow : inputPlaceholder.toList <:+: ("Workflow: " ++ oneLine h.workflow).toList ↔
      inputPlaceholder.toList <:+: h.workflow.toList := infix_labelled "Workflow:" (by decide) h.workflow
  have hsource : inputPlaceholder.toList <:+: ("Source: " ++ oneLine h.source).toList ↔
      inputPlaceholder.toList <:+: h.source.toList := infix_labelled "Source:" (by decide) h.source
  rw [text_edits, infix_flatMap_lines hw, commentLines]
  simp only [List.mem_append, or_and_right, exists_or, exists_commentLine_infix hw, or_assoc, hworkflow, hsource,
    Mentions]
  refine or_congr_right (or_congr_right ?_)
  cases h.description with
  | none => simp
  | some text =>
    simp only [Option.some.injEq, exists_eq_left', ← exists_commentLine_infix hw text]
    split
    · simp only [List.mem_cons, exists_eq_or_imp]
      exact or_iff_right (not_infix_slashes hw)
    · next hink => simp [commentLines_of_not_hasInk hink]

end Header

/-! ### The placeholder of the prologue -/

theorem Header.level_edits (h : Header) : Edit.level 0 h.edits = 0 := by
  unfold edits
  split
  · split <;> rfl
  · rfl

namespace Program

/-- What stands before the placeholder of the prologue. -/
def beforeInput (p : Program) : String :=
  Edit.text 0 p.header.edits ++
    "\nconst \x7b extract = \x7b\x7d, constants = \x7b\x7d, input = \x7b\x7d, startFromStep = 0 \x7d = "

/-- What stands after it: the records, the result object and the loop. -/
def afterInput (p : Program) : String :=
  ";\n" ++ Edit.text 0 ([.blank, .opening "const steps = ["] ++ records p.tasks ++ epilogue)

theorem script_eq (p : Program) : p.script = p.beforeInput ++ inputPlaceholder ++ p.afterInput := by
  have hedits : p.edits = p.header.edits ++ (([.blank] ++ prologue) ++
      ([.blank, .opening "const steps = ["] ++ records p.tasks ++ epilogue)) := by
    simp [edits]
  have hprologue : Edit.text 0 ([.blank] ++ prologue) =
      "\nconst \x7b extract = \x7b\x7d, constants = \x7b\x7d, input = \x7b\x7d, startFromStep = 0 \x7d = " ++
        inputPlaceholder ++ ";\n" := by
    simp [prologue, Edit.text, Edit.added, Edit.next, Edit.lineText, Edit.indentation, inputPlaceholder]
  have hlevel : Edit.level 0 ([.blank] ++ prologue) = 0 := rfl
  rw [script, hedits, Edit.text_append, Header.level_edits, Edit.text_append, hlevel, hprologue]
  simp only [beforeInput, afterInput, String.append_assoc]

theorem infix_beforeInput (p : Program) :
    inputPlaceholder.toList <:+: p.beforeInput.toList ↔ p.header.Mentions inputPlaceholder := by
  have hline : ¬ inputPlaceholder.toList <:+:
      "const \x7b extract = \x7b\x7d, constants = \x7b\x7d, input = \x7b\x7d, startFromStep = 0 \x7d = ".toList :=
    fun h => absurd (h.subset (by decide : '_' ∈ inputPlaceholder.toList)) (by decide)
  have hlist : p.beforeInput.toList = (Edit.text 0 p.header.edits).toList ++ '\n' ::
      "const \x7b extract = \x7b\x7d, constants = \x7b\x7d, input = \x7b\x7d, startFromStep = 0 \x7d = ".toList := by
    simp [beforeInput]
  rw [← Header.infix_text_edits, hlist, infix_append_cons (by decide), or_iff_left hline]

end Program

namespace RunInput

theorem exists_render (i : RunInput) : ∃ cs, i.render.toList = '\x7b' :: cs := by
  simp [render, Tree.compact]

/-- Without a placeholder in the header, the one of the prologue is replaced. -/
theorem inject_of_not_mentions {p : Program} (i : RunInput) (h : ¬ p.header.Mentions inputPlaceholder) :
    i.inject p.script = p.beforeInput ++ i.render ++ p.afterInput := by
  -- a blank stands before the placeholder
  obtain ⟨a, ha⟩ : ∃ a, p.beforeInput.toList = a ++ [' '] := by
    refine ⟨(Edit.text 0 p.header.edits).toList ++
      "\nconst \x7b extract = \x7b\x7d, constants = \x7b\x7d, input = \x7b\x7d, startFromStep = 0 \x7d =".toList, ?_⟩
    simp [Program.beforeInput]
  have hnot : ¬ inputPlaceholder.toList <:+: a := by
    rw [← p.infix_beforeInput, ha] at h
    exact fun hin => h (hin.trans (List.prefix_append a [' ']).isInfix)
  rw [← String.toList_inj, inject, String.toList_ofList, p.script_eq]
  simp only [String.toList_append, ha, List.append_assoc, List.singleton_append]
  exact replaceFirst_of_not_infix (by decide) (by decide) hnot

/-- A placeholder in the header is replaced there, and nothing after the header changes. -/
theorem inject_of_mentions {p : Program} (i : RunInput) (h : p.header.Mentions inputPlaceholder) :
    ∃ u v, Edit.text 0 p.header.edits = u ++ inputPlaceholder ++ v ∧
      ∀ rest, i.inject (Edit.text 0 p.header.edits ++ rest) = u ++ i.render ++ v ++ rest := by
  rw [← Header.infix_text_edits] at h
  obtain ⟨u, v, huv, hrest⟩ := exists_replaceFirst (r := i.render.toList) (by decide) h
  refine ⟨String.ofList u, String.ofList v, ?_, ?_⟩
  · rw [← String.toList_inj, huv]
    simp
  · intro rest
    rw [← String.toList_inj, inject, String.toList_ofList, String.toList_append, hrest]
    simp

/-- If the input data is in the prologue, the header had no placeholder. -/
theorem not_mentions_of_inject {p : Program} {i : RunInput}
    (h : i.inject p.script = p.beforeInput ++ i.render ++ p.afterInput) : ¬ p.header.Mentions inputPlaceholder := by
  intro hmentions
  obtain ⟨u, v, huv, hrest⟩ := i.inject_of_mentions hmentions
  obtain ⟨cs, hcs⟩ := i.exists_render
  rw [p.script_eq, Program.beforeInput, String.append_assoc, String.append_assoc, hrest, huv] at h
  -- after what stands before the placeholder of the header, a brace would have to be an underscore
  have hlist := congrArg String.toList h
  simp [hcs, inputPlaceholder] at hlist

end RunInput

/-- The input data goes into the prologue iff no text of the header has the placeholder.  Otherwise it goes into the
header, and the prologue keeps its placeholder. -/
theorem inject_script_iff (p : Program) (i : RunInput) :
    p.script = p.beforeInput ++ inputPlaceholder ++ p.afterInput ∧
      (i.inject p.script = p.beforeInput ++ i.render ++ p.afterInput ↔ ¬ p.header.Mentions inputPlaceholder) ∧
      (p.header.Mentions inputPlaceholder → ∃ u v, Edit.text 0 p.header.edits = u ++ inputPlaceholder ++ v ∧
        ∀ rest, p.script = Edit.text 0 p.header.edits ++ rest →
          i.inject p.script = u ++ i.render ++ v ++ rest) := by
  refine ⟨p.script_eq, ⟨RunInput.not_mentions_of_inject, i.inject_of_not_mentions⟩, ?_⟩
  intro hmentions
  obtain ⟨u, v, huv, hrest⟩ := i.inject_of_mentions hmentions
  exact ⟨u, v, huv, fun rest h => by rw [h, hrest]⟩

/-- A workflow whose name is the placeholder takes the input data away from the prologue. -/
theorem inject_script_ne_placeholderName :
    let p : Program := ⟨⟨"__INPUT_DATA__", "-", none⟩, [⟨0, "go", .click "#go", none, none, none⟩]⟩
    let i := RunInput.startingAt 0
    i.inject p.script ≠ p.beforeInput ++ i.render ++ p.afterInput := by
  intro p i h
  exact RunInput.not_mentions_of_inject h (.inl List.infix_rfl)

end FlowScript

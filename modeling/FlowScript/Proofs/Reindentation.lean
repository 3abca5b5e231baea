import FlowScript.Proofs.ScriptBlocks
import FlowScript.Proofs.TextLines

/-!
# Code that is laid out again

Code of the author is put into a script line by line, each line at the level of the script.  `outdent?` takes the
indentation away again.  What is left is the author's code (`Edit.Reindents`): only the line ends have changed, since a
CR before LF is not kept, and there is one LF at the end however many line ends there were.  The same is true of the body
of a record that performs such code, with or without a guard (`reindents_code`).
-/

namespace FlowScript

/-- A text with LF for each CR LF.  Other carriage returns stay. -/
def dropReturns : List Char → List Char
  | [] => []
  | c :: rest => if c = '\r' ∧ rest.head? = some '\n' then dropReturns rest else c :: dropReturns rest

/-- A line without the indentation of a level.  A line that is not empty must have it, and something after it. -/
def outdentLine? (level : Nat) (line : List Char) : Option (List Char) :=
  if line = [] then some []
  else if (Edit.indentation level).toList <+: line ∧ 2 * level < line.length then some (line.drop (2 * level))
  else none

/-- A text without the indentation of a level. -/
def outdent? (level : Nat) (cs : List Char) : Option (List Char) :=
  ((pieces (· == '\n') cs).mapM (outdentLine? level)).map fun ls => ['\n'].intercalate ls

/-! ### Line ends -/

theorem dropReturns_of_not_mem {cs : List Char} (h : '\n' ∉ cs) : dropReturns cs = cs := by
  induction cs with
  | nil => rfl
  | cons c cs ih =>
    have hcs : '\n' ∉ cs := fun hmem => h (List.mem_cons_of_mem c hmem)
    have hhead : cs.head? ≠ some '\n' := fun hhead => hcs (List.mem_of_mem_head? hhead)
    rw [dropReturns, if_neg fun hc => hhead hc.2, ih hcs]

theorem dropCarriage_cons_of_ne_nil {q : List Char} (hq : q ≠ []) (c : Char) :
    dropCarriage (c :: q) = c :: dropCarriage q := by
  obtain ⟨d, q, rfl⟩ := List.exists_cons_of_ne_nil hq
  unfold dropCarriage
  rw [List.getLast?_cons_cons]
  split <;> rfl

/-- A line loses a carriage return that stands right before its end. -/
theorem dropReturns_append_lf {q : List Char} (h : '\n' ∉ q) (rest : List Char) :
    dropReturns (q ++ '\n' :: rest) = dropCarriage q ++ '\n' :: dropReturns rest := by
  have hlf : dropReturns ('\n' :: rest) = '\n' :: dropReturns rest := by
    rw [dropReturns, if_neg fun hc => absurd hc.1 (by decide)]
  induction q with
  | nil => exact hlf
  | cons c q ih =>
    have hq : '\n' ∉ q := fun hmem => h (List.mem_cons_of_mem c hmem)
    rw [List.cons_append, dropReturns]
    cases q with
    | nil =>
      by_cases hc : c = '\r'
      · subst hc
        simp [hlf, dropCarriage]
      · simp [hlf, hc, dropCarriage]
    | cons d q =>
      have hd : d ≠ '\n' := fun hd => hq (hd ▸ List.mem_cons_self)
      rw [if_neg fun hc => hd (Option.some.inj hc.2), ih hq, dropCarriage_cons_of_ne_nil (List.cons_ne_nil d q)]
      rfl

theorem dropReturns_intercalate {qs : List (List Char)} {x : List Char} (hqs : ∀ q ∈ qs, '\n' ∉ q) (hx : '\n' ∉ x) :
    dropReturns (['\n'].intercalate (qs ++ [x])) = ['\n'].intercalate (qs.map dropCarriage ++ [x]) := by
  induction qs with
  | nil => simpa using dropReturns_of_not_mem hx
  | cons q qs ih =>
    rw [List.forall_mem_cons] at hqs
    rw [List.map_cons, List.cons_append, List.cons_append, List.intercalate_cons_of_ne_nil (by simp),
      List.intercalate_cons_of_ne_nil (by simp), List.append_assoc, List.singleton_append,
      dropReturns_append_lf hqs.1, ih hqs.2, List.append_assoc, List.singleton_append]

theorem intercalate_concat_nil {ls : List (List Char)} (h : ls ≠ []) :
    ['\n'].intercalate (ls ++ [[]]) = ['\n'].intercalate ls ++ ['\n'] := by
  induction ls with
  | nil => exact absurd rfl h
  | cons l ls ih =>
    cases ls with
    | nil => simp
    | cons m ls =>
      rw [List.cons_append, List.intercalate_cons_of_ne_nil (by simp), ih (List.cons_ne_nil m ls),
        List.intercalate_cons_cons, List.append_assoc]
      simp

/-- The lines of a text that does not end with LF, with their endings. -/
theorem intercalate_lines {c : Char} (hc : c ≠ '\n') (cs : List Char) :
    ['\n'].intercalate (lines (cs ++ [c]) ++ [[]]) = dropReturns (cs ++ [c]) ++ ['\n'] := by
  obtain ⟨qs, q, -, hpieces⟩ := pieces_concat_of_neg (p := (· == '\n')) (c := c) (by simpa using hc) cs
  have hline : ∀ x ∈ qs ++ [q ++ [c]], '\n' ∉ x := by
    intro x hx hlf
    rw [← hpieces] at hx
    exact not_of_mem_pieces hx hlf (by decide)
  have hjoin : ['\n'].intercalate (qs ++ [q ++ [c]]) = cs ++ [c] := by
    rw [← hpieces, pieces_eq_splitOnP, ← List.splitOn_eq_splitOnP, List.intercalate_splitOn]
  have hlines : lines (cs ++ [c]) = qs.map dropCarriage ++ [q ++ [c]] := by
    unfold lines
    dsimp only
    rw [hpieces, List.dropLast_concat, List.getLast?_concat]
    cases q <;> rfl
  rw [hlines, intercalate_concat_nil (by simp),
    ← dropReturns_intercalate (fun x hx => hline x (by simp [hx])) (hline _ (by simp)), hjoin]

/-! ### Indentation -/

theorem outdentLine?_indented (level : Nat) (line : String) :
    outdentLine? level (Edit.indented level line).toList = some line.toList := by
  unfold Edit.indented outdentLine?
  split
  · next h => simp [h]
  · next h =>
    have hlength : (Edit.indentation level).toList.length = 2 * level := by simp [Edit.indentation]
    have hline : 0 < line.toList.length := by
      rw [List.length_pos_iff]
      simpa using h
    rw [String.toList_append, if_neg (by simpa using fun _ => h), if_pos, List.drop_left' hlength]
    refine ⟨List.prefix_append _ _, ?_⟩
    rw [List.length_append, hlength]
    omega

theorem toList_unlines (ls : List String) :
    (Edit.unlines ls).toList = ['\n'].intercalate (ls.map String.toList ++ [[]]) := by
  induction ls with
  | nil => simp [Edit.unlines]
  | cons l ls ih =>
    rw [List.map_cons, List.cons_append, List.intercalate_cons_of_ne_nil (by simp), ← ih]
    simp [Edit.unlines]

theorem mapM_outdentLine? (level : Nat) (ls : List String) :
    ((ls.map (Edit.indented level)).map String.toList ++ [[]]).mapM (outdentLine? level) =
      some (ls.map String.toList ++ [[]]) := by
  induction ls with
  | nil => rfl
  | cons l ls ih =>
    rw [List.map_cons, List.map_cons, List.cons_append, List.mapM_cons, outdentLine?_indented, ih]
    rfl

theorem lf_not_mem_indented {level : Nat} {line : String} (h : '\n' ∉ line.toList) :
    '\n' ∉ (Edit.indented level line).toList := by
  unfold Edit.indented
  split
  · simp
  · simp [Edit.indentation, h]

/-- Indented lines are found again without their indentation. -/
theorem outdent?_linesText {level : Nat} {ls : List String} (h : ∀ l ∈ ls, '\n' ∉ l.toList) :
    outdent? level (Edit.linesText level ls).toList = some (Edit.unlines ls).toList := by
  have hpieces : pieces (· == '\n') (Edit.linesText level ls).toList =
      (ls.map (Edit.indented level)).map String.toList ++ [[]] := by
    rw [Edit.linesText_eq, toList_unlines, pieces_eq_splitOnP, ← List.splitOn_eq_splitOnP, List.splitOn_intercalate]
    · simp only [List.map_map, List.mem_append, List.mem_map, List.mem_singleton]
      rintro x (⟨l, hl, rfl⟩ | rfl)
      · exact lf_not_mem_indented (h l hl)
      · simp
    · simp
  rw [outdent?, hpieces, mapM_outdentLine?, toList_unlines]
  rfl

/-! ### Code at a level -/

namespace Edit

/-- What is written for code at a level.  If the code has anything but line ends, then every line that is written is
empty or has the indentation; and without the indentation these lines are the code, with LF for each CR LF and one LF in
place of the line ends after its last other character. -/
structure Reindents (level : Nat) (code written : String) : Prop where
  eq_empty : (∀ c ∈ code.toList, c = '\n' ∨ c = '\r') → written = ""
  outdent?_eq : ∀ (front ends : List Char) (last : Char), code.toList = front ++ last :: ends →
    last ≠ '\n' → last ≠ '\r' → (∀ c ∈ ends, c = '\n' ∨ c = '\r') →
    outdent? level written.toList = some (dropReturns (front ++ [last]) ++ ['\n'])

theorem isLineEnd_iff {c : Char} : isLineEnd c = true ↔ c = '\n' ∨ c = '\r' := by
  simp [isLineEnd]

/-- No line of code has a line feed. -/
theorem lf_not_mem_verbatimLines (code : String) : ∀ l ∈ verbatimLines code, '\n' ∉ l.toList := by
  have hlines : ∀ x ∈ lines (dropEndWhile isLineEnd code.toList), '\n' ∉ x := by
    rw [forall_lines (by simp) (by simp)]
    exact fun x hx hlf => not_of_mem_pieces hx hlf (by decide)
  intro l hl
  obtain ⟨x, hx, rfl⟩ := List.mem_map.mp hl
  simpa using hlines x hx

theorem reindents_verbatim (level : Nat) (code : String) : Reindents level code ((verbatim code).added level) where
  eq_empty := by
    intro h
    have hnil : dropEndWhile isLineEnd code.toList = [] := by
      rw [dropEndWhile_eq_rdropWhile, List.rdropWhile_eq_nil_iff]
      exact fun c hc => isLineEnd_iff.mpr (h c hc)
    rw [added, verbatimLines, hnil]
    rfl
  outdent?_eq := by
    intro front ends last hcode hlf hcr hends
    have hlast : ¬isLineEnd last = true := by simp [isLineEnd, hlf, hcr]
    have htrimmed : dropEndWhile isLineEnd code.toList = front ++ [last] := by
      have hnil : dropEndWhile isLineEnd ends = [] := by
        rw [dropEndWhile_eq_rdropWhile, List.rdropWhile_eq_nil_iff]
        exact fun c hc => isLineEnd_iff.mpr (hends c hc)
      rw [hcode, List.append_cons, dropEndWhile_append, if_pos hnil, dropEndWhile_eq_rdropWhile,
        List.rdropWhile_concat_neg isLineEnd front last hlast]
    have htexts : (verbatimLines code).map String.toList = lines (front ++ [last]) := by
      simp [verbatimLines, htrimmed, Function.comp_def]
    rw [added, outdent?_linesText (lf_not_mem_verbatimLines code), toList_unlines, htexts, intercalate_lines hlf]

end Edit

/-! ### Code in a record -/

namespace Task

/-- The edits of a record up to its code. -/
def codeOpening (t : Task) : List Edit :=
  [.opening "\x7b", property "name" t.name, property "action" "playwright_code", .block "execute: async () =>"] ++
    match t.guard with
    | some g => [.block ("if (" ++ Script.guard g ++ ")")]
    | none => []

/-- The edits of a record after its code. -/
def codeEnding (t : Task) (last : Bool) : List Edit :=
  (match t.guard with
    | some _ => [.blockEnd]
    | none => []) ++
    [.closing "\x7d,"] ++ property? "output" t.output ++ property? "hint" t.hint ++
    [.closing (if last then "\x7d" else "\x7d,")]

/-- How many levels of a record its code is in: those of the record, of the function, and of the guard if there is
one. -/
def codeDepth (t : Task) : Nat := if t.guard.isSome then 3 else 2

variable {t : Task} {code : String}

theorem edits_of_rawCode (h : t.action = .rawCode code) (last : Bool) :
    t.edits last = t.codeOpening ++ [.verbatim code] ++ t.codeEnding last := by
  unfold edits body codeOpening codeEnding selector?
  cases t.guard <;> simp [h, Action.kind, Action.selector?, Action.edits, property?]

theorem level_codeOpening (t : Task) (n : Nat) : Edit.level n t.codeOpening = n + t.codeDepth := by
  unfold codeOpening codeDepth
  cases t.guard <;> rfl

/-- The code of a task stands in its record as it would stand alone at the level that the record has there. -/
theorem text_edits_of_rawCode (h : t.action = .rawCode code) (level : Nat) (last : Bool) :
    Edit.text level (t.edits last) =
      Edit.text level t.codeOpening ++ (Edit.verbatim code).added (level + t.codeDepth) ++
        Edit.text (level + t.codeDepth) (t.codeEnding last) := by
  have hlevel : Edit.level level (t.codeOpening ++ [.verbatim code]) = level + t.codeDepth := by
    rw [Edit.level_append, level_codeOpening]
    rfl
  rw [edits_of_rawCode h, Edit.text_append, hlevel, Edit.text_append, level_codeOpening]
  simp [Edit.text]

end Task

/-- Code keeps its lines when it is written at a level, by itself or in the record of a task, with or without a guard.
Nothing else of the record depends on the code. -/
theorem reindents_code (code : String) :
    (∀ level, Edit.Reindents level code ((Edit.verbatim code).added level)) ∧
    ∀ (t : Task) (level : Nat) (last : Bool), t.action = .rawCode code →
      ∃ written, Edit.Reindents (level + t.codeDepth) code written ∧
        Edit.text level (t.edits last) =
          Edit.text level t.codeOpening ++ written ++ Edit.text (level + t.codeDepth) (t.codeEnding last) := by
  refine ⟨fun level => Edit.reindents_verbatim level code, ?_⟩
  intro t level last h
  exact ⟨_, Edit.reindents_verbatim (level + t.codeDepth) code, Task.text_edits_of_rawCode h level last⟩

/-- Code with a blank line between two CR LF, a line that is indented and has a blank at its end, and several line ends
after it, in the guarded record of a script. -/
theorem reindents_code_guarded :
    ∃ written, Edit.Reindents 4 "go();\r\n\r\n  stop(); \n\r\n" written ∧
      Edit.text 1 (Task.edits ⟨0, "Run", .rawCode "go();\r\n\r\n  stop(); \n\r\n",
        some ⟨[⟨"input.on", .equals, .bool true⟩], .and⟩, none, none⟩ true) =
        "  \x7b\n    name: \"Run\",\n    action: \"playwright_code\",\n    execute: async () => \x7b\n" ++
          "      if (input.on === true) \x7b\n" ++ written ++ "      \x7d\n    \x7d,\n  \x7d\n" ∧
      outdent? 4 written.toList = some "go();\n\n  stop(); \n".toList := by
  obtain ⟨written, hwritten, htext⟩ := (reindents_code "go();\r\n\r\n  stop(); \n\r\n").2
    ⟨0, "Run", .rawCode "go();\r\n\r\n  stop(); \n\r\n", some ⟨[⟨"input.on", .equals, .bool true⟩], .and⟩, none, none⟩
    1 true rfl
  refine ⟨written, hwritten, ?_, ?_⟩
  · rw [htext]
    congr 1
  · have houtdent := hwritten.outdent?_eq "go();\r\n\r\n  stop();".toList ['\n', '\r', '\n'] ' '
      (by decide) (by decide) (by decide) (by simp)
    exact houtdent.trans (by decide)

end FlowScript

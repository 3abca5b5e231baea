import FlowScript.Proofs.LayoutLines
import FlowScript.Script.OfProgram

/-!
# A script is a row of blocks

The script of a program is its header, a prologue, one block for each task, and an ending.  Prologue and ending are the
same for all programs, and a block depends on its own task and on whether it is the last one (`Program.script_blocks`).
A block has the lines of the task's record on its own, each indented once; for the edits of a record never take away a
level that they did not add.
-/

namespace FlowScript

open Edit

/-! ### Balanced parts of a script -/

/-- Edits that leave the level alone are balanced. -/
theorem Edit.Balanced.of_forall {es : List Edit} (h : ∀ e ∈ es, e.lowers = false ∧ e.raises = false) : Balanced es := by
  induction es with
  | nil => exact .nil
  | cons e es ih =>
    obtain ⟨hlower, hraise⟩ := h e List.mem_cons_self
    have hnext : ∀ n, e.next n = n := by
      intro n
      cases e <;> simp_all [lowers, raises, next]
    have hone : Balanced [e] := ⟨fun n => ⟨by simp [hlower], trivial⟩, hnext⟩
    exact hone.append (ih fun f hf => h f (List.mem_cons_of_mem e hf))

theorem Header.balanced_edits (h : Header) : Balanced h.edits := by
  refine .of_forall ?_
  unfold edits
  split
  · split <;> simp [lowers, raises]
  · simp [lowers, raises]

theorem Action.balanced_edits (a : Action) : Balanced a.edits := by
  refine .of_forall ?_
  cases a <;> simp [edits, lowers, raises]

namespace Task

theorem balanced_property (key text : String) : Balanced [property key text] :=
  .of_forall (by simp [property, lowers, raises])

theorem balanced_property? (key : String) (text : Option String) : Balanced (property? key text) := by
  cases text with
  | none => exact .nil
  | some text => exact balanced_property key text

theorem balanced_body (t : Task) : Balanced t.body := by
  unfold body
  cases t.guard with
  | none => exact t.action.balanced_edits
  | some g => exact .nest rfl t.action.balanced_edits rfl

/-- What stands between the braces of a record. -/
def interior (t : Task) : List Edit :=
  [property "name" t.name, property "action" t.action.kind] ++ property? "selector" t.selector? ++
    ([.block "execute: async () =>"] ++ t.body ++ [.closing "\x7d,"]) ++
    property? "output" t.output ++ property? "hint" t.hint

theorem edits_eq_interior (t : Task) (last : Bool) :
    t.edits last = [.opening "\x7b"] ++ t.interior ++ [.closing (if last then "\x7d" else "\x7d,")] := by
  simp [edits, interior]

theorem balanced_interior (t : Task) : Balanced t.interior := by
  have hhead : Balanced [property "name" t.name, property "action" t.action.kind] :=
    (balanced_property "name" t.name).append (balanced_property "action" t.action.kind)
  have hexecute : Balanced ([.block "execute: async () =>"] ++ t.body ++ [.closing "\x7d,"]) :=
    .nest rfl t.balanced_body rfl
  exact (((hhead.append (balanced_property? _ _)).append hexecute).append (balanced_property? _ _)).append
    (balanced_property? _ _)

theorem balanced_edits (t : Task) (last : Bool) : Balanced (t.edits last) := by
  rw [edits_eq_interior]
  exact .nest rfl t.balanced_interior rfl

end Task

namespace Program

theorem balanced_records (ts : List Task) : Balanced (records ts) := by
  induction ts with
  | nil => exact .nil
  | cons t ts ih =>
    cases ts with
    | nil => exact t.balanced_edits true
    | cons u ts => exact (t.balanced_edits false).append ih

/-- The list of the records, with the brackets around it. -/
def recordList (ts : List Task) : List Edit := [.opening "const steps = ["] ++ records ts ++ [.closing "];"]

theorem balanced_recordList (ts : List Task) : Balanced (recordList ts) := .nest rfl (balanced_records ts) rfl

theorem balanced_resultObject : Balanced resultObject :=
  .of_zero (by simp [resultObject, Grounded, lowers, next]) rfl

theorem balanced_loop : Balanced loop :=
  .of_zero (by simp [loop, Grounded, lowers, next]) rfl

theorem edits_eq_parts (p : Program) :
    p.edits = p.header.edits ++ ([.blank] ++ prologue ++ [.blank]) ++ recordList p.tasks ++
      ([.blank] ++ resultObject ++ [.blank] ++ loop ++ [.blank, .line "return results;"]) := by
  simp [edits, recordList, epilogue]

theorem balanced_edits (p : Program) : Balanced p.edits := by
  have hblank : Balanced [.blank] := .of_forall (by simp [lowers, raises])
  have hprologue : Balanced ([.blank] ++ prologue ++ [.blank]) :=
    .of_forall (by simp [prologue, lowers, raises])
  have hreturn : Balanced [.blank, .line "return results;"] := .of_forall (by simp [lowers, raises])
  rw [edits_eq_parts]
  exact ((p.header.balanced_edits.append hprologue).append (balanced_recordList p.tasks)).append
    ((((hblank.append balanced_resultObject).append hblank).append balanced_loop).append hreturn)

end Program

/-! ### Blocks -/

namespace Task

/-- The record of a task as it stands in a script. -/
def block (t : Task) (last : Bool) : String := Edit.text 1 (t.edits last)

/-- A block has the lines of the record on its own, each indented once. -/
theorem block_eq_unlines (t : Task) (last : Bool) :
    t.block last = unlines ((written 0 (t.edits last)).map (indented 1)) := by
  rw [block, text_eq_unlines, ← ((t.balanced_edits last).grounded 0).written_add 1]

/-- Whether a block is the last one shows in its last line only. -/
theorem block_eq_append (t : Task) (last : Bool) :
    t.block last = Edit.text 1 ([.opening "\x7b"] ++ t.interior) ++ (if last then "  \x7d\n" else "  \x7d,\n") := by
  have hlevel : level 1 ([.opening "\x7b"] ++ t.interior) = 2 := by
    rw [level_append, t.balanced_interior.level_eq]
    rfl
  rw [block, edits_eq_interior, text_append, hlevel]
  cases last <;> rfl

end Task

namespace Program

/-- The blocks of the tasks, one after the other. -/
def blocks (ts : List Task) : String := String.join (ts.mapIdx fun i t => t.block (decide (i + 1 = ts.length)))

theorem text_records (ts : List Task) : Edit.text 1 (records ts) = blocks ts := by
  induction ts with
  | nil => rfl
  | cons t ts ih =>
    cases ts with
    | nil => simp [records, blocks, Task.block]
    | cons u ts =>
      rw [records, text_append, (t.balanced_edits false).level_eq, ih]
      · simp [blocks, List.mapIdx_cons, Task.block]
      · simp

/-- The lines between the header and the first block. -/
def openingLines : List String := [
  "",
  "const \x7b extract = \x7b\x7d, constants = \x7b\x7d, input = \x7b\x7d, startFromStep = 0 \x7d = __INPUT_DATA__;",
  "",
  "const steps = ["]

/-- The lines after the last block. -/
def endingLines : List String := [
  "];",
  "",
  "const results = \x7b",
  "  success: true,",
  "  completedSteps: [],",
  "  failedStep: null,",
  "  output: \x7b\x7d,",
  "\x7d;",
  "",
  "for (let i = startFromStep; i < steps.length; i++) \x7b",
  "  const step = steps[i];",
  "  try \x7b",
  "    const result = await step.execute();",
  "    results.completedSteps.push(\x7b index: i, name: step.name, success: true \x7d);",
  "    if (step.output && result !== undefined) \x7b",
  "      results.output[step.output] = result;",
  "    \x7d",
  "  \x7d catch (error) \x7b",
  "    results.success = false;",
  "    results.failedStep = \x7b",
  "      index: i,",
  "      name: step.name,",
  "      selector: step.selector,",
  "      hint: step.hint,",
  "      error: error instanceof Error ? error.message : String(error),",
  "    \x7d;",
  "    break;",
  "  \x7d",
  "\x7d",
  "",
  "return results;"]

/-- What stands between the header and the records. -/
def opening : List Edit := [.blank] ++ prologue ++ [.blank, .opening "const steps = ["]

theorem written_opening : written 0 opening = openingLines := by
  decide +kernel

theorem written_epilogue : written 1 epilogue = endingLines := by
  decide +kernel

/-- The lines of a script that are the same for all programs stand around the blocks of the tasks. -/
theorem script_eq_blocks (p : Program) :
    p.script = Edit.text 0 p.header.edits ++ unlines openingLines ++ blocks p.tasks ++ unlines endingLines := by
  have hedits : p.edits = p.header.edits ++ opening ++ records p.tasks ++ epilogue := by
    simp [edits, opening]
  have hopening : level 0 (p.header.edits ++ opening) = 1 := by
    rw [level_append, p.header.balanced_edits.level_eq]
    rfl
  have hrecords : level 0 (p.header.edits ++ opening ++ records p.tasks) = 1 := by
    rw [level_append, hopening, (balanced_records p.tasks).level_eq]
  calc p.script
      = Edit.text 0 p.header.edits ++ Edit.text 0 opening ++ Edit.text 1 (records p.tasks) ++ Edit.text 1 epilogue := by
        rw [script, hedits, text_append, hrecords, text_append, hopening, text_append, p.header.balanced_edits.level_eq]
    _ = Edit.text 0 p.header.edits ++ unlines openingLines ++ blocks p.tasks ++ unlines endingLines := by
        rw [text_records, text_eq_unlines 0 opening, written_opening, text_eq_unlines 1 epilogue, written_epilogue]

/-- The script of a program is its header, a fixed prologue, the blocks of its tasks and a fixed ending.  A block
depends on its task, but not on the position that the task names, and on whether it is the last one, which shows in a
comma.  It is the record on its own, with every line that is not empty indented once.  All parts keep the level at which
they start, and no level is taken away where there is none. -/
theorem script_blocks (p : Program) :
    p.script = Edit.text 0 p.header.edits ++ unlines openingLines ++ blocks p.tasks ++ unlines endingLines ∧
      (∀ (t : Task) (last : Bool),
        (∀ index, Task.block { t with index } last = t.block last) ∧
          t.script last = unlines (written 0 (t.edits last)) ∧
          t.block last = unlines ((written 0 (t.edits last)).map (indented 1))) ∧
      (∀ t : Task, ∃ front, t.block true = front ++ "  \x7d\n" ∧ t.block false = front ++ "  \x7d,\n") ∧
      ((∀ h : Header, Balanced h.edits) ∧ (∀ a : Action, Balanced a.edits) ∧
        (∀ (t : Task) (last : Bool), Balanced (t.edits last)) ∧ (∀ ts : List Task, Balanced (recordList ts)) ∧
        Balanced resultObject ∧ Balanced loop) ∧
      Grounded 0 p.edits ∧ level 0 p.edits = 0 := by
  refine ⟨p.script_eq_blocks, ?_, ?_, ?_, p.balanced_edits.grounded 0, p.balanced_edits.level_eq 0⟩
  · intro t last
    exact ⟨fun _ => rfl, text_eq_unlines 0 _, t.block_eq_unlines last⟩
  · intro t
    exact ⟨_, t.block_eq_append true, t.block_eq_append false⟩
  · exact ⟨Header.balanced_edits, Action.balanced_edits, Task.balanced_edits, balanced_recordList,
      balanced_resultObject, balanced_loop⟩

end Program

end FlowScript

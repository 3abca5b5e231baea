import FlowScript.Script.Record

/-!
# The script of a program

A script has a header of comments, a line that takes the input data, the records of the tasks, the result object, and
the loop that runs the tasks one after the other until one fails.
-/

namespace FlowScript

/-- What the host replaces by the input data. -/
def inputPlaceholder : String := "__INPUT_DATA__"

namespace Header

/-- A text on one line: the lines that are not empty, joined by spaces. -/
def oneLine (text : String) : String :=
  " ".intercalate (((pieces Edit.isLineEnd text.toList).filter fun l => !l.isEmpty).map String.ofList)

def edits (h : Header) : List Edit :=
  [.comment ("Workflow: " ++ oneLine h.workflow), .comment ("Source: " ++ oneLine h.source)] ++
    match h.description with
    | some text => if hasInk text then [.line "//", .comment text] else []
    | none => []

end Header

namespace Program

/-- The line that takes the input data apart. -/
def prologue : List Edit :=
  [.line ("const \x7b extract = \x7b\x7d, constants = \x7b\x7d, input = \x7b\x7d, startFromStep = 0 \x7d = " ++
    inputPlaceholder ++ ";")]

/-- The records, the last one without comma. -/
def records : List Task → List Edit
  | [] => []
  | [t] => t.edits true
  | t :: r => t.edits false ++ records r

def resultObject : List Edit := [
  .opening "const results = \x7b",
  .line "success: true,",
  .line "completedSteps: [],",
  .line "failedStep: null,",
  .line "output: \x7b\x7d,",
  .closing "\x7d;"]

def loop : List Edit := [
  .block "for (let i = startFromStep; i < steps.length; i++)",
  .line "const step = steps[i];",
  .block "try",
  .line "const result = await step.execute();",
  .line "results.completedSteps.push(\x7b index: i, name: step.name, success: true \x7d);",
  .block "if (step.output && result !== undefined)",
  .line "results.output[step.output] = result;",
  .blockEnd,
  .dedent,
  .block "\x7d catch (error)",
  .line "results.success = false;",
  .opening "results.failedStep = \x7b",
  .line "index: i,",
  .line "name: step.name,",
  .line "selector: step.selector,",
  .line "hint: step.hint,",
  .line "error: error instanceof Error ? error.message : String(error),",
  .closing "\x7d;",
  .line "break;",
  .blockEnd,
  .blockEnd]

/-- What follows the records. -/
def epilogue : List Edit :=
  [.closing "];", .blank] ++ resultObject ++ [.blank] ++ loop ++ [.blank, .line "return results;"]

def edits (p : Program) : List Edit :=
  p.header.edits ++ [.blank] ++ prologue ++ [.blank, .opening "const steps = ["] ++ records p.tasks ++ epilogue

/-- The text of the script. -/
def script (p : Program) : String := Edit.text 0 p.edits

end Program

/-- The record of a task on its own. -/
def Task.script (t : Task) (last : Bool) : String := Edit.text 0 (t.edits last)

end FlowScript

import FlowScript.Script.Layout
import FlowScript.Script.Literal

/-!
# Task records

The object that stands for a task in the generated script: its name, action and selector, the function that performs
the action, and the output key and hint if there are any.
-/

namespace FlowScript

namespace Action

/-- The statements that perform an action. -/
def edits : Action → List Edit
  | navigate url => [
      .line ("await page.goto(" ++ Script.value url ++ ");"),
      .line "await page.waitForLoadState(\"domcontentloaded\");"]
  | fill selector value => [
      .line ("await page.fill(" ++ Script.quote selector ++ ", " ++ Script.value value ++ ");")]
  | click selector => [.line ("await page.click(" ++ Script.quote selector ++ ");")]
  | press selector key => [
      .line ("await page.press(" ++ Script.quote selector ++ ", " ++ Script.quote key ++ ");")]
  | wait selector milliseconds => [
      .line ("await page.waitForSelector(" ++ Script.quote selector ++ ", \x7b timeout: " ++
        toString milliseconds ++ " \x7d);")]
  | rawCode code => [.verbatim code]

end Action

namespace Task

/-- A line that gives a key a quoted text. -/
def property (key text : String) : Edit := .line (key ++ ": " ++ Script.quote text ++ ",")

def property? (key : String) : Option String → List Edit
  | some text => [property key text]
  | none => []

/-- The body of the record's function. -/
def body (t : Task) : List Edit :=
  match t.guard with
  | some g => [.block ("if (" ++ Script.guard g ++ ")")] ++ t.action.edits ++ [.blockEnd]
  | none => t.action.edits

/-- The record of a task; a comma follows it unless it is the last one. -/
def edits (t : Task) (last : Bool) : List Edit :=
  [.opening "\x7b", property "name" t.name, property "action" t.action.kind] ++
    property? "selector" t.selector? ++
    [.block "execute: async () =>"] ++ t.body ++ [.closing "\x7d,"] ++
    property? "output" t.output ++ property? "hint" t.hint ++
    [.closing (if last then "\x7d" else "\x7d,")]

end Task

end FlowScript

import FlowScript.Event
import FlowScript.Problem
import FlowScript.Program.Interpolation

/-!
# From workflows to programs

`Program.ofWorkflow` gives each step its action and guard.  All steps are looked at, and the problems of all of them
are reported.  `Workflow.warnings` lists what is allowed but suspicious: joining words that are not known, and names
and output keys that occur twice.
-/

namespace FlowScript

inductive ActionFault where
  | unknownAction (name : String)
  | missingField (step action field : String)
deriving DecidableEq

inductive GuardFault where
  | noConditions
  | mixedShapes
  | noShape
  | unknownOperator (op field : String)
deriving DecidableEq

namespace ActionFault

def code : ActionFault → String
  | unknownAction _ => "L001"
  | missingField _ _ _ => "L003"

def message : ActionFault → String
  | unknownAction name => "Unknown action type: `" ++ name ++ "`"
  | missingField step action field =>
    "Step '" ++ step ++ "' (" ++ action ++ ") is missing required field `" ++ field ++ "`"

def problem (f : ActionFault) (index : Nat) : Problem := ⟨f.code, .lower, f.message, some index, none⟩

end ActionFault

namespace GuardFault

def code : GuardFault → String
  | noConditions | mixedShapes | noShape => "L002"
  | unknownOperator _ _ => "L004"

def message : GuardFault → String
  | noConditions => "When clause has an empty `conditions` list"
  | mixedShapes => "When clause mixes `field`/`op` with `conditions`; use exactly one shape"
  | noShape => "When clause must be either \x7bfield, op, value\x7d or \x7bconditions, match\x7d"
  | unknownOperator op field => "Unknown comparison operator `" ++ op ++ "` on `" ++ field ++ "`"

/-- The problem of a clause that may belong to any step. -/
def problem (f : GuardFault) : Problem := .unplaced f.code .lower f.message

end GuardFault

namespace Action

/-- A field that the step's action needs. -/
def need {α : Type} (s : Step) (field : String) : Option α → Except ActionFault α
  | some a => .ok a
  | none => .error (.missingField s.name s.action field)

/-- Texts may hold references, other values are literals. -/
def fillValue : Tree → Expr
  | .str s => Expr.ofText s
  | v => .literal v

def ofStep (s : Step) : Except ActionFault Action :=
  match s.action with
  | "navigate" => do
    let url ← need s "url" s.url
    return navigate (Expr.ofText url)
  | "fill" => do
    let selector ← need s "selector" s.selector
    let value ← need s "value" s.value
    return fill selector (fillValue value)
  | "click" => do
    let selector ← need s "selector" s.selector
    return click selector
  | "press" => do
    let selector ← need s "selector" s.selector
    let key ← need s "key" s.key
    return press selector key
  | "wait" => do
    let selector ← need s "selector" s.selector
    return wait selector (s.timeout.getD defaultWait)
  | "playwright_code" => do
    let code ← need s "code" s.code
    return rawCode code
  | other => .error (.unknownAction other)

end Action

namespace Test

def make (field op : String) (value : Tree) : Except GuardFault Test :=
  match Comparison.ofSymbol? op with
  | some comparison => .ok ⟨field, comparison, value⟩
  | none => .error (.unknownOperator op field)

def ofCondition (c : Condition) : Except GuardFault Test := make c.field c.op c.value

def ofConditions : List Condition → Except GuardFault (List Test)
  | [] => .ok []
  | c :: r => do
    let t ← ofCondition c
    let ts ← ofConditions r
    return t :: ts

end Test

/-- The word `all` joins with and; every other word, and none, with or. -/
def Junction.ofMatch (mode : Option String) : Junction := if mode = some "all" then .and else .or

namespace Guard

/-- A clause has exactly one of two shapes: a field with an operator, or a list of conditions. -/
def ofWhen (w : WhenClause) : Except GuardFault Guard :=
  match w.field, w.op, w.conditions with
  | some field, some op, none => do
    let t ← Test.make field op (w.value.getD .null)
    return ⟨[t], .and⟩
  | none, none, some conditions =>
    if conditions.isEmpty then .error .noConditions
    else do
      let tests ← Test.ofConditions conditions
      return ⟨tests, Junction.ofMatch w.matchMode⟩
  | _, _, some _ => .error .mixedShapes
  | _, _, none => .error .noShape

def ofWhen? : Option WhenClause → Except GuardFault (Option Guard)
  | none => .ok none
  | some w => (ofWhen w).map some

end Guard

/-- The joining word of a list of conditions is known, if there is one. -/
def WhenClause.warnings (w : WhenClause) : List Event :=
  match Guard.ofWhen w, w.conditions, w.matchMode with
  | .ok _, some _, some mode => if mode = "all" ∨ mode = "any" then [] else [.unknownMatch mode]
  | _, _, _ => []

def Step.warnings (s : Step) : List Event :=
  match s.whenClause with
  | some w => w.warnings
  | none => []

namespace Task

/-- The task of the step at a position.  A fault of its action comes before a fault of its clause. -/
def ofStep (index : Nat) (s : Step) : Except (List Problem) Task :=
  match Action.ofStep s, Guard.ofWhen? s.whenClause with
  | .ok action, .ok guard => .ok ⟨index, s.name, action, guard, s.output, s.hint⟩
  | .error a, .ok _ => .error [a.problem index]
  | .ok _, .error g => .error [g.problem.atStep index]
  | .error a, .error g => .error [a.problem index, g.problem.atStep index]

/-- The tasks of the steps from a position on, or the problems of all of them. -/
def ofSteps : (index : Nat) → List Step → Except (List Problem) (List Task)
  | _, [] => .ok []
  | index, s :: r =>
    match ofStep index s, ofSteps (index + 1) r with
    | .ok t, .ok ts => .ok (t :: ts)
    | .ok _, .error ps => .error ps
    | .error ps, .ok _ => .error ps
    | .error ps, .error qs => .error (ps ++ qs)

/-- Warns of names and outputs that an earlier task has too; `names` and `outputs` are those of the tasks before. -/
def duplicates (names outputs : List String) : List Task → List Event
  | [] => []
  | t :: r =>
    let byName := if names.contains t.name then [Event.duplicateName t.index t.name] else []
    let (byOutput, outputs) := match t.output with
      | some key => (if outputs.contains key then [Event.duplicateOutput t.index key] else [], key :: outputs)
      | none => ([], outputs)
    byName ++ byOutput ++ duplicates (t.name :: names) outputs r

end Task

def Problem.noSteps : Problem := .unplaced "L005" .lower "Workflow must contain at least one step"

def Program.ofWorkflow (w : Workflow) (source : String) : Except (List Problem) Program :=
  if w.steps.isEmpty then .error [.noSteps]
  else match Task.ofSteps 0 w.steps with
    | .ok tasks => .ok ⟨⟨w.name, source, w.description⟩, tasks⟩
    | .error ps => .error ps

/-- What `Program.ofWorkflow` warns of.  Duplicates are looked for only in workflows that have a program. -/
def Workflow.warnings (w : Workflow) : List Event :=
  w.steps.flatMap Step.warnings ++
    match Task.ofSteps 0 w.steps with
    | .ok tasks => Task.duplicates [] [] tasks
    | .error _ => []

end FlowScript

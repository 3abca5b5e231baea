import FlowScript.Tree.Decode

/-!
# Workflow definitions

A workflow is a name, a description and a list of steps, as its author wrote them.  A step names an action and carries
whatever fields that action may need; which it does need is decided when the workflow is turned into a program.
`Workflow.encode` and `Workflow.decode` go between definitions and trees; fields without value are left out.
-/

namespace FlowScript

structure Condition where
  /-- An expression of the generated script. -/
  field : String
  op : String
  value : Tree
deriving DecidableEq

/-- When a step is to run: a single comparison, or a list of conditions and how to join them. -/
structure WhenClause where
  field : Option String
  op : Option String
  value : Option Tree
  conditions : Option (List Condition)
  matchMode : Option String
deriving DecidableEq

structure Step where
  name : String
  action : String
  url : Option String
  selector : Option String
  value : Option Tree
  key : Option String
  /-- Milliseconds. -/
  timeout : Option Nat
  code : Option String
  whenClause : Option WhenClause
  output : Option String
  hint : Option String
deriving DecidableEq

structure Workflow where
  name : String
  description : Option String
  steps : List Step
deriving DecidableEq

/-- A step without any of the optional fields. -/
def Step.plain (name action : String) : Step :=
  ⟨name, action, none, none, none, none, none, none, none, none, none⟩

def WhenClause.simple (field op : String) (value : Tree) : WhenClause :=
  ⟨some field, some op, some value, none, none⟩

def WhenClause.compound (conditions : List Condition) (matchMode : Option String) : WhenClause :=
  ⟨none, none, none, some conditions, matchMode⟩

/-- A field with a value, or nothing. -/
def Tree.entry? {α : Type} (key : String) (encode : α → Tree) (value : Option α) : List (String × Tree) :=
  match value with
  | some a => [(key, encode a)]
  | none => []

open Decode

namespace Condition

def encode (c : Condition) : Tree :=
  Tree.object [("field", .str c.field), ("op", .str c.op), ("value", c.value)]

def decode : Decoder Condition := fun t => do
  let shape := direct "Condition"
  let r ← row shape t
  let field := r.slot 0 "field" text
  let op := r.slot 1 "op" text
  let value := r.slot 2 "value" tree
  r.settle shape [field.state .required, op.state .required, value.state .never]
  return { field := ← field.get, op := ← op.get, value := ← value.getD .null }

end Condition

namespace WhenClause

def encode (w : WhenClause) : Tree :=
  Tree.object <| Tree.entry? "field" .str w.field ++ Tree.entry? "op" .str w.op ++ Tree.entry? "value" id w.value ++
    Tree.entry? "conditions" (fun cs => .arr (cs.map Condition.encode)) w.conditions ++
    Tree.entry? "match" .str w.matchMode

def decode : Decoder WhenClause := fun t => do
  let shape := direct "WhenClause"
  let r ← row shape t
  let field := r.slot 0 "field" (optional text)
  let op := r.slot 1 "op" (optional text)
  let value := r.slot 2 "value" (optional tree)
  let conditions := r.slot 3 "conditions" (optional (list Condition.decode))
  let matchMode := r.slot 4 "match" (optional text)
  r.settle shape
    [field.state .never, op.state .never, value.state .never, conditions.state .never, matchMode.state .never]
  return {
    field := ← field.getD none
    op := ← op.getD none
    value := ← value.getD none
    conditions := ← conditions.getD none
    matchMode := ← matchMode.getD none }

end WhenClause

namespace Step

def encode (s : Step) : Tree :=
  Tree.object <| [("name", .str s.name), ("action", .str s.action)] ++ Tree.entry? "url" .str s.url ++
    Tree.entry? "selector" .str s.selector ++ Tree.entry? "value" id s.value ++ Tree.entry? "key" .str s.key ++
    Tree.entry? "timeout" .nat s.timeout ++ Tree.entry? "code" .str s.code ++
    Tree.entry? "when" WhenClause.encode s.whenClause ++ Tree.entry? "output" .str s.output ++
    Tree.entry? "hint" .str s.hint

def decode : Decoder Step := fun t => do
  let shape := direct "StepDefinition"
  let r ← row shape t
  let name := r.slot 0 "name" text
  let action := r.slot 1 "action" text
  let url := r.slot 2 "url" (optional text)
  let selector := r.slot 3 "selector" (optional text)
  let value := r.slot 4 "value" (optional tree)
  let key := r.slot 5 "key" (optional text)
  let timeout := r.slot 6 "timeout" (optional count)
  let code := r.slot 7 "code" (optional text)
  let whenSlot := r.slot 8 "when" (optional WhenClause.decode)
  let output := r.slot 9 "output" (optional text)
  let hint := r.slot 10 "hint" (optional text)
  r.settle shape
    [name.state .required, action.state .required, url.state .never, selector.state .never, value.state .never,
      key.state .never, timeout.state .never, code.state .never, whenSlot.state .never, output.state .never,
      hint.state .never]
  return {
    name := ← name.get
    action := ← action.get
    url := ← url.getD none
    selector := ← selector.getD none
    value := ← value.getD none
    key := ← key.getD none
    timeout := ← timeout.getD none
    code := ← code.getD none
    whenClause := ← whenSlot.getD none
    output := ← output.getD none
    hint := ← hint.getD none }

end Step

namespace Workflow

def encode (w : Workflow) : Tree :=
  Tree.object <| [("name", .str w.name)] ++ Tree.entry? "description" .str w.description ++
    [("steps", .arr (w.steps.map Step.encode))]

def decode : Decoder Workflow := fun t => do
  let shape := direct "WorkflowDefinition"
  let r ← row shape t
  let name := r.slot 0 "name" text
  let description := r.slot 1 "description" (optional text)
  let steps := r.slot 2 "steps" (list Step.decode)
  r.settle shape [name.state .required, description.state .never, steps.state .required]
  return { name := ← name.get, description := ← description.getD none, steps := ← steps.get }

end Workflow

end FlowScript

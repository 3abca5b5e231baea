import FlowScript.Program.Basic

/-!
# Programs as trees

`Program.encode` writes a program as a tree, and `Program.decode` reads it back.  Actions, expressions and parts of
templates say in one field of which kind they are.  What is absent is written as null.
-/

namespace FlowScript

open Decode

namespace Reference

def encodeFields (r : Reference) : List (String × Tree) :=
  [("namespace", .str r.scope.name), ("identifier", .str r.identifier)]

def encode (r : Reference) : Tree := Tree.object r.encodeFields

def decodeScope : Decoder Scope := variant (Scope.all.map fun s => (s.name, s)) isNullOrEmpty

def ofRow (r : Row) : Except DecodeError Reference := do
  let scope := r.slot 0 "namespace" decodeScope
  let identifier := r.slot 1 "identifier" text
  r.settle (nested "struct VariableRef") [scope.state .required, identifier.state .required]
  return { scope := ← scope.get, identifier := ← identifier.get }

def decode : Decoder Reference := fun t => row (nested "struct VariableRef") t >>= ofRow

end Reference

namespace Part

def encode : Part → Tree
  | lit s => Tree.object [("part_type", .str "lit"), ("value", .str s)]
  | var r => Tree.object [("part_type", .str "var"), ("value", r.encode)]

def tagged : Tagged := ⟨"part_type", ["lit", "var"], true⟩

def decode : Decoder Part := fun t => do
  let (kind, r) ← tagged.split "TemplatePart" t
  if kind = "lit" then
    let value := r.slot 0 "value" text
    r.settle (nested "struct variant TemplatePart::Lit") [value.state .required]
    return lit (← value.get)
  else
    let value := r.slot 0 "value" Reference.decode
    r.settle (nested "struct variant TemplatePart::Var") [value.state .required]
    return var (← value.get)

end Part

namespace Expr

def encode : Expr → Tree
  | literal v => Tree.object [("kind", .str "literal"), ("value", v)]
  | ref r => Tree.object (("kind", .str "variable") :: r.encodeFields)
  | template ps => Tree.object [("kind", .str "template"), ("parts", .arr (ps.map Part.encode))]

def tagged : Tagged := ⟨"kind", ["literal", "variable", "template"], true⟩

def decode : Decoder Expr := fun t => do
  let (kind, r) ← tagged.split "ValueExpr" t
  if kind = "literal" then
    let value := r.slot 0 "value" tree
    r.settle (nested "struct variant ValueExpr::Literal") [value.state .required]
    return literal (← value.get)
  else if kind = "variable" then
    return ref (← Reference.ofRow r)
  else
    let parts := r.slot 0 "parts" (list Part.decode)
    r.settle (nested "struct variant ValueExpr::Template") [parts.state .required]
    return template (← parts.get)

end Expr

namespace Action

/-- The name of the action's kind in a tree. -/
def tag : Action → String
  | navigate _ => "navigate"
  | fill _ _ => "fill"
  | click _ => "click"
  | press _ _ => "press"
  | wait _ _ => "wait"
  | rawCode _ => "raw_code"

def encodeFields : Action → List (String × Tree)
  | navigate url => [("url", url.encode)]
  | fill selector value => [("selector", .str selector), ("value", value.encode)]
  | click selector => [("selector", .str selector)]
  | press selector key => [("selector", .str selector), ("key", .str key)]
  | wait selector milliseconds => [("selector", .str selector), ("timeout_ms", .nat milliseconds)]
  | rawCode code => [("code", .str code)]

def encode (a : Action) : Tree := Tree.object (("kind", .str a.tag) :: a.encodeFields)

def tagged : Tagged := ⟨"kind", ["navigate", "fill", "click", "press", "wait", "raw_code"], false⟩

def shape (name : String) : Shape := nested ("struct variant Action::" ++ name)

def decode : Decoder Action := fun t => do
  let (kind, r) ← tagged.split "Action" t
  match kind with
  | "navigate" =>
    let url := r.slot 0 "url" Expr.decode
    r.settle (shape "Navigate") [url.state .required]
    return navigate (← url.get)
  | "fill" =>
    let selector := r.slot 0 "selector" text
    let value := r.slot 1 "value" Expr.decode
    r.settle (shape "Fill") [selector.state .required, value.state .required]
    return fill (← selector.get) (← value.get)
  | "click" =>
    let selector := r.slot 0 "selector" text
    r.settle (shape "Click") [selector.state .required]
    return click (← selector.get)
  | "press" =>
    let selector := r.slot 0 "selector" text
    let key := r.slot 1 "key" text
    r.settle (shape "Press") [selector.state .required, key.state .required]
    return press (← selector.get) (← key.get)
  | "wait" =>
    let selector := r.slot 0 "selector" text
    let milliseconds := r.slot 1 "timeout_ms" count
    r.settle (shape "Wait") [selector.state .required, milliseconds.state .required]
    return wait (← selector.get) (← milliseconds.get)
  | _ =>
    let code := r.slot 0 "code" text
    r.settle (shape "RawCode") [code.state .required]
    return rawCode (← code.get)

end Action

namespace Test

def encode (t : Test) : Tree :=
  Tree.object [("field", .str t.field), ("operator", .str t.comparison.name), ("value", t.value)]

def decodeComparison : Decoder Comparison := variant (Comparison.all.map fun c => (c.name, c)) isNull

def decode : Decoder Test := fun t => do
  let shape := direct "ConditionIR"
  let r ← row shape t
  let field := r.slot 0 "field" text
  let comparison := r.slot 1 "operator" decodeComparison
  let value := r.slot 2 "value" tree
  r.settle shape [field.state .required, comparison.state .required, value.state .required]
  return { field := ← field.get, comparison := ← comparison.get, value := ← value.get }

end Test

namespace Guard

def encode (g : Guard) : Tree :=
  Tree.object [("conditions", .arr (g.tests.map Test.encode)), ("combine", .str g.junction.name)]

def decodeJunction : Decoder Junction := variant [("And", .and), ("Or", .or)] isNull

def decode : Decoder Guard := fun t => do
  let shape := direct "Guard"
  let r ← row shape t
  let tests := r.slot 0 "conditions" (list Test.decode)
  let junction := r.slot 1 "combine" decodeJunction
  r.settle shape [tests.state .required, junction.state .required]
  return { tests := ← tests.get, junction := ← junction.get }

end Guard

namespace Task

def encode (t : Task) : Tree :=
  Tree.object [
    ("index", .nat t.index),
    ("name", .str t.name),
    ("action", t.action.encode),
    ("guard", Tree.ofOption Guard.encode t.guard),
    ("output", Tree.ofOption .str t.output),
    ("hint", Tree.ofOption .str t.hint)]

def decode : Decoder Task := fun t => do
  let shape := direct "StepIR"
  let r ← row shape t
  let index := r.slot 0 "index" Decode.index
  let name := r.slot 1 "name" text
  let action := r.slot 2 "action" Action.decode
  let guard := r.slot 3 "guard" (optional Guard.decode)
  let output := r.slot 4 "output" (optional text)
  let hint := r.slot 5 "hint" (optional text)
  r.settle shape
    [index.state .required, name.state .required, action.state .required, guard.state .inList, output.state .inList,
      hint.state .inList]
  return {
    index := ← index.get
    name := ← name.get
    action := ← action.get
    guard := ← guard.getD none
    output := ← output.getD none
    hint := ← hint.getD none }

end Task

namespace Header

def encode (h : Header) : Tree :=
  Tree.object [
    ("workflow_name", .str h.workflow),
    ("source", .str h.source),
    ("description", Tree.ofOption .str h.description)]

def decode : Decoder Header := fun t => do
  let shape := direct "ProgramHeader"
  let r ← row shape t
  let workflow := r.slot 0 "workflow_name" text
  let source := r.slot 1 "source" text
  let description := r.slot 2 "description" (optional text)
  r.settle shape [workflow.state .required, source.state .required, description.state .inList]
  return { workflow := ← workflow.get, source := ← source.get, description := ← description.getD none }

end Header

namespace Program

def encode (p : Program) : Tree :=
  Tree.object [("header", p.header.encode), ("steps", .arr (p.tasks.map Task.encode))]

def decode : Decoder Program := fun t => do
  let shape := direct "ProgramIR"
  let r ← row shape t
  let header := r.slot 0 "header" Header.decode
  let tasks := r.slot 1 "steps" (list Task.decode)
  r.settle shape [header.state .required, tasks.state .required]
  return { header := ← header.get, tasks := ← tasks.get }

end Program

end FlowScript

import FlowScript.Compile

/-!
# The embedding surface

What a host that embeds the compiler gets to see: outcomes as plain data, with problems and violations in one form.
-/

namespace FlowScript

/-- A problem, or a violation with its keyword. -/
structure Notice where
  problem : Problem
  keyword : Option String
deriving DecidableEq

namespace Notice

def ofProblem (p : Problem) : Notice := ⟨p, none⟩

def ofViolation (v : Violation) : Notice := ⟨v.problem, some v.keyword⟩

def encode (n : Notice) : Tree :=
  Tree.object [
    ("code", .str n.problem.code),
    ("phase", .str n.problem.phase.name),
    ("message", .str n.problem.message),
    ("step_index", Tree.ofOption .nat n.problem.step),
    ("path", Tree.ofOption .str n.problem.path),
    ("keyword", Tree.ofOption .str n.keyword)]

end Notice

namespace Surface

structure Validation where
  valid : Bool
  errors : List Notice

inductive Compilation where
  | success (program : Compiled)
  | errors (notices : List Notice)

def validate (text : String) (schema : SchemaDocument := Workflow.schema) (complaint : Complaint := .silent) :
    Validation :=
  match validateText text schema complaint with
  | .ok vs => ⟨vs.isEmpty, vs.map Notice.ofViolation⟩
  | .error ps => ⟨false, ps.map Notice.ofProblem⟩

def compile (text : String) (source : Option String) (schema : SchemaDocument := Workflow.schema)
    (complaint : Complaint := .silent) : Compilation :=
  match compileText text (source.getD inlineSource) schema complaint with
  | .ok p => .success p
  | .error ps => .errors (ps.map Notice.ofProblem)

def Validation.encode (v : Validation) : Tree :=
  Tree.object [("valid", .bool v.valid), ("errors", .arr (v.errors.map Notice.encode))]

def Compilation.encode : Compilation → Tree
  | success p =>
    Tree.object [
      ("status", .str "success"),
      ("workflowName", .str p.workflow),
      ("stepCount", .nat p.stepCount),
      ("text", .str p.text)]
  | errors ns => Tree.object [("status", .str "errors"), ("errors", .arr (ns.map Notice.encode))]

end Surface

end FlowScript

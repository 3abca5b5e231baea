import FlowScript.Tree.Basic

/-!
# Events

What the compiler and the step loop report about their work, apart from their results.
-/

namespace FlowScript

inductive Level where
  | debug
  | info
  | warn
deriving DecidableEq

def Level.name : Level → String
  | debug => "DEBUG"
  | info => "INFO"
  | warn => "WARN"

inductive Event where
  | schemaReady
  | validating (source : String)
  | rejected (count : Nat)
  | lowering (workflow : String)
  | compiled (workflow : String) (steps : Nat)
  | duplicateName (step : Nat) (name : String)
  | duplicateOutput (step : Nat) (output : String)
  | unknownMatch (mode : String)
  | executing (step : Nat) (name : String)
  | stepFailed (step : Nat) (name error : String)
deriving DecidableEq

namespace Event

def level : Event → Level
  | schemaReady | validating _ | rejected _ | lowering _ | executing _ _ => .debug
  | compiled _ _ => .info
  | duplicateName _ _ | duplicateOutput _ _ | unknownMatch _ | stepFailed _ _ _ => .warn

/-- The part of the program that reports the event. -/
def target : Event → String
  | schemaReady | rejected _ => "workflow_compiler::validate"
  | validating _ | lowering _ | compiled _ _ => "workflow_compiler::compile"
  | duplicateName _ _ | duplicateOutput _ _ | unknownMatch _ => "workflow_compiler::lower"
  | executing _ _ | stepFailed _ _ _ => "workflow_compiler::runtime"

def message : Event → String
  | schemaReady => "workflow schema compiled"
  | validating _ => "validating"
  | rejected _ => "workflow failed schema validation"
  | lowering _ => "lowering"
  | compiled _ _ => "compiled workflow"
  | duplicateName _ _ => "duplicate step name"
  | duplicateOutput _ _ => "duplicate output key, later step overwrites the earlier result"
  | unknownMatch _ => "unrecognized `match` value in when clause, joining conditions with OR"
  | executing _ _ => "executing step"
  | stepFailed _ _ _ => "step failed"

def details : Event → List (String × Tree)
  | schemaReady => []
  | validating source => [("source", .str source)]
  | rejected count => [("count", .nat count)]
  | lowering workflow => [("workflow", .str workflow)]
  | compiled workflow steps => [("workflow", .str workflow), ("steps", .nat steps)]
  | duplicateName step name => [("step", .nat step), ("name", .str name)]
  | duplicateOutput step output => [("step", .nat step), ("output", .str output)]
  | unknownMatch mode => [("match_mode", .str mode)]
  | executing step name => [("step", .nat step), ("name", .str name)]
  | stepFailed step name error => [("step", .nat step), ("name", .str name), ("error", .str error)]

def encode (e : Event) : Tree :=
  Tree.object [
    ("level", .str e.level.name),
    ("target", .str e.target),
    ("fields", Tree.object (("message", .str e.message) :: e.details))]

end Event

end FlowScript

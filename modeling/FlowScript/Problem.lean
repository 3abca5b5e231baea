import FlowScript.Tree.Basic

/-!
# Problems

What keeps a workflow from becoming a script: a code, the phase that found it, a message, and where it is.
-/

namespace FlowScript

inductive Phase where
  | parse
  | validate
  | lower
deriving DecidableEq

def Phase.name : Phase → String
  | parse => "Parse"
  | validate => "Validate"
  | lower => "Lower"

structure Problem where
  code : String
  phase : Phase
  message : String
  /-- The step at fault, counted from zero. -/
  step : Option Nat
  /-- A pointer into the document. -/
  path : Option String
deriving DecidableEq

namespace Problem

/-- A path that points somewhere is shown, and otherwise the step. -/
def location (p : Problem) : String :=
  let atStep := match p.step with
    | some n => " (step " ++ toString n ++ ")"
    | none => ""
  match p.path with
  | some path => if path = "" then atStep else " (at " ++ path ++ ")"
  | none => atStep

def display (p : Problem) : String :=
  "[" ++ p.phase.name ++ ":" ++ p.code ++ "] " ++ p.message ++ p.location

/-- Notes the step unless one is known. -/
def atStep (p : Problem) (index : Nat) : Problem := { p with step := p.step.or (some index) }

def encode (p : Problem) : Tree :=
  Tree.object [
    ("code", .str p.code),
    ("phase", .str p.phase.name),
    ("message", .str p.message),
    ("step_index", Tree.ofOption .nat p.step),
    ("path", Tree.ofOption .str p.path)]

/-- A problem whose place is not known. -/
def unplaced (code : String) (phase : Phase) (message : String) : Problem := ⟨code, phase, message, none, none⟩

end Problem

end FlowScript

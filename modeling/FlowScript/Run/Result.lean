import FlowScript.Script.OfProgram

/-!
# Input and result of a run

`RunInput` is what a script is given, `RunResult` what it returns.  Both are encoded as trees and decoded from them.
-/

namespace FlowScript

structure Completed where
  index : Nat
  name : String
  success : Bool
deriving DecidableEq

structure Failure where
  index : Nat
  name : String
  selector : Option String
  hint : Option String
  error : String
deriving DecidableEq

structure RunResult where
  success : Bool
  completed : List Completed
  failed : Option Failure
  /-- The values that tasks gave, by their output keys. -/
  output : Fields
deriving DecidableEq

/-- The result before anything has run. -/
def RunResult.initial : RunResult := ⟨true, [], none, []⟩

/-- Where to go on after somebody has dealt with the task that failed. -/
def RunResult.resumeIndex? (r : RunResult) : Option Nat := r.failed.map (·.index + 1)

structure RunInput where
  extract : Fields
  constants : Fields
  input : Fields
  startFromStep : Nat
deriving DecidableEq

open Decode

namespace Completed

def encode (c : Completed) : Tree :=
  Tree.object [("index", .nat c.index), ("name", .str c.name), ("success", .bool c.success)]

def decode : Decoder Completed := fun t => do
  let shape := direct "CompletedStep"
  let r ← row shape t
  let index := r.slot 0 "index" Decode.index
  let name := r.slot 1 "name" text
  let success := r.slot 2 "success" bool
  r.settle shape [index.state .required, name.state .required, success.state .required]
  return { index := ← index.get, name := ← name.get, success := ← success.get }

end Completed

namespace Failure

def encode (f : Failure) : Tree :=
  Tree.object [
    ("index", .nat f.index),
    ("name", .str f.name),
    ("selector", Tree.ofOption .str f.selector),
    ("hint", Tree.ofOption .str f.hint),
    ("error", .str f.error)]

def decode : Decoder Failure := fun t => do
  let shape := direct "FailedStep"
  let r ← row shape t
  let index := r.slot 0 "index" Decode.index
  let name := r.slot 1 "name" text
  let selector := r.slot 2 "selector" (optional text)
  let hint := r.slot 3 "hint" (optional text)
  let error := r.slot 4 "error" text
  r.settle shape
    [index.state .required, name.state .required, selector.state .never, hint.state .never, error.state .required]
  return {
    index := ← index.get
    name := ← name.get
    selector := ← selector.getD none
    hint := ← hint.getD none
    error := ← error.get }

end Failure

namespace RunResult

def encode (r : RunResult) : Tree :=
  Tree.object [
    ("success", .bool r.success),
    ("completedSteps", .arr (r.completed.map Completed.encode)),
    ("failedStep", Tree.ofOption Failure.encode r.failed),
    ("output", .obj r.output)]

def decode : Decoder RunResult := fun t => do
  let shape := direct "ExecutionResult"
  let r ← row shape t
  let success := r.slot 0 "success" bool
  let completed := r.slot 1 "completedSteps" (list Completed.decode)
  let failed := r.slot 2 "failedStep" (optional Failure.decode)
  let output := r.slot 3 "output" fields
  r.settle shape [success.state .required, completed.state .required, failed.state .inList, output.state .never]
  return {
    success := ← success.get
    completed := ← completed.get
    failed := ← failed.getD none
    output := ← output.getD [] }

end RunResult

namespace RunInput

/-- No data, and a task to start from. -/
def startingAt (step : Nat) : RunInput := ⟨[], [], [], step⟩

def encode (i : RunInput) : Tree :=
  Tree.object [
    ("extract", .obj i.extract),
    ("constants", .obj i.constants),
    ("input", .obj i.input),
    ("startFromStep", .nat i.startFromStep)]

def decode : Decoder RunInput := fun t => do
  let shape := direct "RuntimeInput"
  let r ← row shape t
  let extract := r.slot 0 "extract" fields
  let constants := r.slot 1 "constants" fields
  let input := r.slot 2 "input" fields
  let start := r.slot 3 "startFromStep" Decode.index
  r.settle shape [extract.state .never, constants.state .never, input.state .never, start.state .never]
  return {
    extract := ← extract.getD []
    constants := ← constants.getD []
    input := ← input.getD []
    startFromStep := ← start.getD 0 }

/-- The object that a script is given; its keys have an order of their own. -/
def render (i : RunInput) : String :=
  (Tree.obj [
    ("extract", .obj i.extract),
    ("constants", .obj i.constants),
    ("input", .obj i.input),
    ("startFromStep", .nat i.startFromStep)]).compact

end RunInput

/-- Replaces the first occurrence of `word`, which is not empty. -/
def replaceFirst (word replacement : List Char) : List Char → List Char
  | [] => []
  | c :: r =>
    match dropWord? word (c :: r) with
    | some rest => replacement ++ rest
    | none => c :: replaceFirst word replacement r

/-- Gives a script its input. -/
def RunInput.inject (i : RunInput) (script : String) : String :=
  String.ofList (replaceFirst inputPlaceholder.toList i.render.toList script.toList)

end FlowScript

import FlowScript.Event
import FlowScript.Run.Result

/-!
# The step loop

`runFrom` runs the tasks from a position on, in order, and stops at the first one that fails.  The executor has a
state of its own that is handed on from task to task.  Guards are the executor's business.
-/

namespace FlowScript

/-- What performing a task comes to: a failure with its message, or a value or none. -/
abbrev Outcome := Except String (Option Tree)

/-- Performs a task in a state. -/
abbrev Executor (σ : Type) := σ → Task → Outcome × σ

namespace RunResult

/-- Notes that the task at a position was completed. -/
def complete (r : RunResult) (position : Nat) (t : Task) (value : Option Tree) : RunResult :=
  { r with
    completed := r.completed ++ [⟨position, t.name, true⟩]
    output := match t.output, value with
      | some key, some v => r.output.put key v
      | _, _ => r.output }

/-- Notes that the task at a position failed. -/
def fail (r : RunResult) (position : Nat) (t : Task) (error : String) : RunResult :=
  { r with success := false, failed := some ⟨position, t.name, t.selector?, t.hint, error⟩ }

end RunResult

/-- Runs tasks, the first of which is at `position`. -/
def runTasks {σ : Type} (exec : Executor σ) : (position : Nat) → List Task → RunResult → σ → RunResult × σ
  | _, [], r, s => (r, s)
  | position, t :: ts, r, s =>
    match exec s t with
    | (.ok value, s) => runTasks exec (position + 1) ts (r.complete position t value) s
    | (.error message, s) => (r.fail position t message, s)

/-- Runs the tasks from position `start` on; beyond the end there is nothing to run. -/
def runFrom {σ : Type} (exec : Executor σ) (tasks : List Task) (start : Nat) (s : σ) : RunResult × σ :=
  runTasks exec start (tasks.drop start) .initial s

/-- What the loop reports of a run. -/
def RunResult.events (r : RunResult) : List Event :=
  r.completed.map (fun c => .executing c.index c.name) ++
    match r.failed with
    | some f => [.executing f.index f.name, .stepFailed f.index f.name f.error]
    | none => []

end FlowScript

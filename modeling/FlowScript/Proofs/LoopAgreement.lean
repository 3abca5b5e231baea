import FlowScript.Proofs.Code
import FlowScript.Proofs.StepLoop
import FlowScript.Proofs.StringLiteral

/-!
# The loop of a script

The loop that a script ends with is code (`Code.loopCode`), and so are the records of its tasks (`Task.properties`).
Performed as such, over functions that do what an executor does, it gives the result of `runFrom`, but for one key: the
script takes a task whose output key is the empty text for one that has none.  So the two results are the same iff no
value was given for the empty key (`scriptResult?_spec`).

One turn of the loop is one step of `runTasks` (`turn_ok`, `turn_error`), under an executor that gives nothing for the
empty key (`keeping`).
-/

namespace FlowScript

namespace Code

/-! ### The code -/

def resultCode : Stmt := .constRecord "results" [
  ("success", .constant (.bool true)),
  ("completedSteps", .emptyList),
  ("failedStep", .constant .null),
  ("output", .emptyObject)]

/-- Performs the task of a turn. -/
def executeCode : Stmt := .await "result" (.field (.var "step") "execute")

def completedCode : Stmt := .push (.field (.var "results") "completedSteps") [
  ("index", .read (.var "i")),
  ("name", .read (.field (.var "step") "name")),
  ("success", .constant (.bool true))]

/-- Whether there is anything to be kept of what the task has given. -/
def keepTest : Term := .both (.read (.field (.var "step") "output")) (.defined (.var "result"))

def keepCode : Stmt :=
  .assign (.item (.field (.var "results") "output") (.field (.var "step") "output")) (.read (.var "result"))

def outputCode : Stmt := .ifThen keepTest [keepCode]

/-- The text of what was thrown. -/
def errorText : Term :=
  .choose (.isError (.var "error")) (.read (.field (.var "error") "message")) (.asText (.var "error"))

def failureCode : List Stmt := [
  .assign (.field (.var "results") "success") (.constant (.bool false)),
  .assignRecord (.field (.var "results") "failedStep") [
    ("index", .read (.var "i")),
    ("name", .read (.field (.var "step") "name")),
    ("selector", .read (.field (.var "step") "selector")),
    ("hint", .read (.field (.var "step") "hint")),
    ("error", errorText)],
  .stop]

/-- The turn of one task. -/
def turnCode : List Stmt := [
  .const "step" (.item (.var "steps") (.var "i")),
  .attempt [executeCode, completedCode, outputCode] "error" failureCode]

def loopCode : Stmt := .countUp "i" (.var "startFromStep") (.field (.var "steps") "length") turnCode

theorem edits_resultCode : resultCode.edits = Program.resultObject := by
  simp [resultCode, Stmt.edits, Program.resultObject, Term.recordLines, Term.entry, Term.text, Script.literal,
    Tree.compact]

theorem edits_loopCode : loopCode.edits = Program.loop := by
  simp [loopCode, turnCode, executeCode, completedCode, outputCode, keepTest, keepCode, failureCode, errorText,
    Stmt.edits, Stmt.allEdits, Program.loop, Term.recordLines, Term.recordText, Term.entry, Term.text, Place.text,
    Script.literal, Tree.compact]

/-! ### Objects -/

namespace Value

/-- A text, if there is one. -/
def ofText? : Option String → Value
  | some s => text s
  | none => undefined

theorem truthy_ofText? (o : Option String) : (ofText? o).truthy = o.any (· != "") := by
  cases o <;> rfl

theorem isDefined_ofOption (value : Option Tree) : (ofOption value).isDefined = value.isSome := by
  cases value <;> rfl

theorem put_undefined {get : String → Value} {key : String} (h : get key = undefined) :
    put get key undefined = get := by
  funext k
  unfold put
  split
  · next heq => rw [heq, h]
  · rfl

theorem put_put (get : String → Value) (key : String) (v w : Value) : put (put get key v) key w = put get key w := by
  funext k
  unfold put
  split <;> rfl

theorem put_comm (get : String → Value) {key other : String} (h : other ≠ key) (v w : Value) :
    put (put get key v) other w = put (put get other w) key v := by
  funext k
  unfold put
  split
  · next heq => rw [if_neg (heq ▸ h)]
  · rfl

/-- Setting a key that an object literal has changes its value there; the key must be its last of that name. -/
theorem set?_ofEntries (before : List (String × Value)) {after : List (String × Value)} {key : String} {v : Value}
    (w : Value) (h : ∀ e ∈ after, e.1 ≠ key) :
    (ofEntries (before ++ (key, v) :: after)).set? key w = some (ofEntries (before ++ (key, w) :: after)) := by
  -- what comes after the key has other keys, so the key may as well be set right where it stands
  have hlast : ∀ get : String → Value, put (after.foldl (fun get e => put get e.1 e.2) (put get key v)) key w =
      after.foldl (fun get e => put get e.1 e.2) (put get key w) := by
    induction after with
    | nil => exact fun get => put_put get key v w
    | cons e after ih =>
      intro get
      have he := h e List.mem_cons_self
      rw [List.foldl_cons, List.foldl_cons, put_comm get he, put_comm get he]
      exact ih (fun e he => h e (List.mem_cons_of_mem _ he)) _
  rw [ofEntries, ofEntries, List.foldl_append, List.foldl_append, set?]
  exact congrArg (fun get => some (object get)) (hlast _)

end Value

/-- What stands under a key of a task's record: a text in quotes, or the function of the task. -/
inductive Property where
  | literal (source : String)
  | function (t : Task)

namespace Property

def edits (key : String) : Property → List Edit
  | literal source => [.line (key ++ ": " ++ source ++ ",")]
  | function t => .block (key ++ ": async () =>") :: t.body ++ [.closing "\x7d,"]

def value? : Property → Option Value
  | literal source =>
    match StringLiteral.read? source.toList with
    | some (s, []) => some (.text s)
    | _ => none
  | function t => some (.function t)

def text (s : String) : Property := literal (Script.quote s)

theorem value?_text (s : String) : (text s).value? = some (.text s) := by
  have h := StringLiteral.read?_quote s []
  rw [List.append_nil] at h
  rw [text, value?, h]

theorem value?_function (t : Task) : (function t).value? = some (.function t) := rfl

end Property

end Code

open Code

namespace Task

/-- The keys that the record of a task has. -/
def properties (t : Task) : List (String × Property) :=
  [("name", .text t.name), ("action", .text t.action.kind)] ++
    (t.selector?.map fun s => ("selector", .text s)).toList ++ [("execute", .function t)] ++
    (t.output.map fun s => ("output", .text s)).toList ++ (t.hint.map fun s => ("hint", .text s)).toList

theorem edits_eq (t : Task) (last : Bool) :
    t.edits last = [.opening "\x7b"] ++ t.properties.flatMap (fun f => f.2.edits f.1) ++
      [.closing (if last then "\x7d" else "\x7d,")] := by
  unfold edits properties
  cases t.selector? <;> cases t.output <;> cases t.hint <;>
    simp [property, property?, Property.edits, Property.text]

/-- The object that the record of a task stands for. -/
def record? (t : Task) : Option Value := do
  return .ofEntries (← t.properties.mapM fun f => do return (f.1, ← f.2.value?))

/-- That object, with `undefined` under the keys that the record lacks. -/
def record (t : Task) : Value := .ofEntries [
  ("name", .text t.name),
  ("action", .text t.action.kind),
  ("selector", .ofText? t.selector?),
  ("execute", .function t),
  ("output", .ofText? t.output),
  ("hint", .ofText? t.hint)]

section

variable (t : Task)

@[simp]
theorem get?_record_name : t.record.get? "name" = some (.text t.name) := rfl

@[simp]
theorem get?_record_selector : t.record.get? "selector" = some (.ofText? t.selector?) := rfl

@[simp]
theorem get?_record_execute : t.record.get? "execute" = some (.function t) := rfl

@[simp]
theorem get?_record_output : t.record.get? "output" = some (.ofText? t.output) := rfl

@[simp]
theorem get?_record_hint : t.record.get? "hint" = some (.ofText? t.hint) := rfl

end

theorem record?_eq (t : Task) : t.record? = some t.record := by
  unfold record? properties record Value.ofEntries
  cases t.selector? <;> cases t.output <;> cases t.hint <;>
    simp [Property.value?_text, Property.value?_function, Value.ofText?, Value.put_undefined, Value.put]

end Task

def Completed.object (c : Completed) : Value := .ofEntries [
  ("index", .number c.index), ("name", .text c.name), ("success", .data (.bool c.success))]

def Failure.object (f : Failure) : Value := .ofEntries [
  ("index", .number f.index),
  ("name", .text f.name),
  ("selector", .ofText? f.selector),
  ("hint", .ofText? f.hint),
  ("error", .text f.error)]

namespace RunResult

variable {r : RunResult}

/-- The value under `failedStep`. -/
def failedStep (r : RunResult) : Value :=
  match r.failed with
  | some f => f.object
  | none => .data .null

def outputObject (fs : Fields) : Value := .object fun key => .ofOption (Fields.get? fs key)

/-- A result as a script has it. -/
def object (r : RunResult) : Value := .ofEntries [
  ("success", .data (.bool r.success)),
  ("completedSteps", .list (r.completed.map Completed.object)),
  ("failedStep", r.failedStep),
  ("output", outputObject r.output)]

@[simp]
theorem get?_object_completedSteps : r.object.get? "completedSteps" = some (.list (r.completed.map Completed.object)) :=
  rfl

@[simp]
theorem get?_object_output : r.object.get? "output" = some (outputObject r.output) := rfl

theorem set?_object_success (b : Bool) :
    r.object.set? "success" (.data (.bool b)) = some { r with success := b }.object :=
  Value.set?_ofEntries [] _ (by simp)

theorem set?_object_completedSteps (cs : List Completed) :
    r.object.set? "completedSteps" (.list (cs.map Completed.object)) = some { r with completed := cs }.object :=
  Value.set?_ofEntries [_] _ (by simp)

theorem set?_object_failedStep (f : Failure) :
    r.object.set? "failedStep" f.object = some { r with failed := some f }.object :=
  Value.set?_ofEntries [_, _] _ (by simp)

theorem set?_object_output (fs : Fields) :
    r.object.set? "output" (outputObject fs) = some { r with output := fs }.object :=
  Value.set?_ofEntries [_, _, _] _ (by simp)

theorem set?_outputObject (fs : Fields) (key : String) (v : Tree) :
    (outputObject fs).set? key (.data v) = some (outputObject (fs.put key v)) := by
  rw [outputObject, outputObject, Value.set?]
  congr
  funext k
  rw [Value.put, Fields.get?_put]
  split <;> rfl

end RunResult

/-- What a task gives, in the eyes of a script: nothing, if its output key is the empty text. -/
def Task.kept (t : Task) (value : Option Tree) : Option Tree := if t.output = some "" then none else value

theorem Task.eq_of_kept_eq_some {t : Task} {value : Option Tree} {w : Tree} (h : t.kept value = some w) :
    value = some w := by
  unfold kept at h
  split at h
  · cases h
  · exact h

namespace Code

/-- The variables around the loop. -/
def scope (tasks : List Task) (start : Nat) (r : RunResult) : Env := [
  ("results", r.object),
  ("steps", .list (tasks.map Task.record)),
  ("startFromStep", .number start)]

def loopScope (tasks : List Task) (start i : Nat) (r : RunResult) : Env := ("i", .number i) :: scope tasks start r

/-! ### One turn -/

/-- A turn of the loop: a position, and the task there. -/
structure Turn (tasks : List Task) where
  start : Nat
  i : Nat
  task : Task
  task_eq : tasks[i]? = some task

namespace Turn

variable {σ : Type} {host : Host σ} {fuel : Nat} {tasks : List Task} {T : Turn tasks} {s s' : σ} {r : RunResult}
  {value : Option Tree} {e : Thrown} {v : Value}

def scope (T : Turn tasks) (r : RunResult) : Env := ("step", T.task.record) :: loopScope tasks T.start T.i r

/-- Within a turn there is one more variable: what the task has given, or what it has thrown. -/
def inner (T : Turn tasks) (x : String) (v : Value) (r : RunResult) : Env := (x, v) :: T.scope r

theorem read?_i {x : String} (hx : "i" ≠ x) : Place.read? (T.inner x v r) (.var "i") = some (.number T.i) := by
  simp [Place.read?, inner, scope, loopScope, List.lookup_cons, beq_false_of_ne hx]

theorem read?_step {x key : String} (hx : "step" ≠ x) :
    Place.read? (T.inner x v r) (.field (.var "step") key) = T.task.record.get? key := by
  simp [Place.read?, inner, scope, List.lookup_cons, beq_false_of_ne hx]

theorem read?_results {x : String} (hx : "results" ≠ x) :
    Place.read? (T.inner x v r) (.var "results") = some r.object := by
  simp [Place.read?, inner, scope, loopScope, Code.scope, List.lookup_cons, beq_false_of_ne hx]

theorem read?_results_field {x key : String} (hx : "results" ≠ x) :
    Place.read? (T.inner x v r) (.field (.var "results") key) = r.object.get? key := by
  rw [Place.read?, read?_results hx]
  rfl

theorem write?_results {x key : String} {w : Value} {r' : RunResult} (hx : "results" ≠ x)
    (h : r.object.set? key w = some r'.object) :
    Place.write? (T.inner x v r) (.field (.var "results") key) w = some (T.inner x v r') := by
  rw [Place.write?_field (read?_results hx) h]
  simp [Place.write?, inner, scope, loopScope, Code.scope, Env.set?, hx.symm]

theorem run_step : Stmt.run host fuel (.const "step" (.item (.var "steps") (.var "i")))
    (loopScope tasks T.start T.i r) s = some (.normal, T.scope r, s) := by
  have hitem : (Value.list (tasks.map Task.record)).item? (.number T.i) = some T.task.record := by
    simp [Value.item?, Value.nat?, Value.number, Tree.nat, T.task_eq]
  simp [Stmt.run, Place.read?, scope, loopScope, Code.scope, List.lookup_cons, hitem]

theorem run_executeCode_ok (h : host s T.task = (.ok value, s')) :
    Stmt.run host fuel executeCode (T.scope r) s = some (.normal, T.inner "result" (.ofOption value) r, s') := by
  simp [Stmt.run, executeCode, Place.read?, inner, scope, h]

theorem run_executeCode_error (h : host s T.task = (.error e, s')) :
    Stmt.run host fuel executeCode (T.scope r) s = some (.thrown e.value, T.scope r, s') := by
  simp [Stmt.run, executeCode, Place.read?, scope, h]

theorem run_completedCode : Stmt.run host fuel completedCode (T.inner "result" v r) s =
    some (.normal, T.inner "result" v { r with completed := r.completed ++ [⟨T.i, T.task.name, true⟩] }, s) := by
  have hset := r.set?_object_completedSteps (r.completed ++ [⟨T.i, T.task.name, true⟩])
  rw [List.map_append, List.map_singleton, Completed.object] at hset
  simp [Stmt.run, completedCode, Term.record?, Term.eval?, read?_i, read?_step, read?_results_field,
    Value.push?, write?_results _ hset]

theorem read?_result : Place.read? (T.inner "result" v r) (.var "result") = some v := rfl

/-- A key that is the empty text does not count as true, so nothing is kept under it. -/
theorem eval?_keepTest (T : Turn tasks) (r : RunResult) (value : Option Tree) :
    ∃ v, Term.eval? (T.inner "result" (.ofOption value) r) keepTest = some v ∧
      v.truthy = (T.task.output.isSome && (T.task.kept value).isSome) := by
  simp only [keepTest, Term.eval?, read?_step (show "step" ≠ "result" by simp), read?_result,
    Task.get?_record_output, Option.bind_eq_bind, Option.bind_some, Option.map_some, Value.truthy_ofText?,
    Value.isDefined_ofOption]
  cases hkey : T.task.output with
  | none => exact ⟨_, rfl, rfl⟩
  | some key =>
    by_cases hempty : key = ""
    · subst hempty
      exact ⟨_, rfl, by simp [Task.kept, hkey, Value.truthy_ofText?]⟩
    · exact ⟨.data (.bool value.isSome), by simp [hempty], by simp [Task.kept, hkey, hempty, Value.truthy]⟩

theorem run_keepCode {key : String} {w : Tree} (hkey : T.task.output = some key) :
    Stmt.run host fuel keepCode (T.inner "result" (.data w) r) s =
      some (.normal, T.inner "result" (.data w) { r with output := r.output.put key w }, s) := by
  have hobject : Place.read? (T.inner "result" (.data w) r) (.field (.var "results") "output") =
      some (RunResult.outputObject r.output) := by
    rw [read?_results_field (by simp), RunResult.get?_object_output]
  have hname : Place.read? (T.inner "result" (.data w) r) (.field (.var "step") "output") = some (.text key) := by
    rw [read?_step (by simp), Task.get?_record_output, hkey, Value.ofText?]
  have hwrite := Place.write?_item hobject hname (RunResult.set?_outputObject r.output key w)
  rw [write?_results (by simp) (r.set?_object_output _)] at hwrite
  simp [Stmt.run, keepCode, Term.eval?, read?_result, hwrite]

theorem leave_inner {c : Completion} {r' : RunResult} {x : String} :
    leave (T.inner x v r).length (c, T.inner x v r', s) = (c, T.inner x v r', s) := rfl

theorem leave_scope {c : Completion} {r' : RunResult} {x : String} :
    leave (T.scope r).length (c, T.inner x v r', s) = (c, T.scope r', s) := rfl

theorem run_outputCode : Stmt.run host fuel outputCode (T.inner "result" (.ofOption value) r) s =
    some (.normal, T.inner "result" (.ofOption value)
      { r with output := (r.complete T.i T.task (T.task.kept value)).output }, s) := by
  obtain ⟨v, hv, htruthy⟩ := T.eval?_keepTest r value
  simp only [outputCode, Stmt.run, hv, htruthy, Option.bind_eq_bind, Option.bind_some, RunResult.complete]
  cases hkey : T.task.output with
  | none => rfl
  | some key =>
    cases hkept : T.task.kept value with
    | none => rfl
    | some w =>
      rw [Task.eq_of_kept_eq_some hkept, Value.ofOption]
      simp [Stmt.runAll, run_keepCode hkey, leave_inner]

theorem eval?_errorText : Term.eval? (T.inner "error" e.value r) errorText = some (.text e.message) := by
  cases e <;> rfl

theorem runAll_failureCode : Stmt.runAll host fuel failureCode (T.inner "error" e.value r) s =
    some (.stopped, T.inner "error" e.value (r.fail T.i T.task e.message), s) := by
  have hsuccess := write?_results (T := T) (v := e.value) (x := "error") (by simp) (r.set?_object_success false)
  have hfailed := write?_results (T := T) (v := e.value) (x := "error") (by simp)
    ({ r with success := false }.set?_object_failedStep ⟨T.i, T.task.name, T.task.selector?, T.task.hint, e.message⟩)
  rw [Failure.object] at hfailed
  simp [Stmt.runAll, Stmt.run, failureCode, Term.eval?, hsuccess, Term.record?, read?_i, read?_step, eval?_errorText,
    hfailed, RunResult.fail]

/-- A turn whose task is completed. -/
theorem turn_ok (h : host s T.task = (.ok value, s')) :
    Stmt.runAll host fuel turnCode (loopScope tasks T.start T.i r) s =
      some (.normal, T.scope (r.complete T.i T.task (T.task.kept value)), s') := by
  have hbody : Stmt.runAll host fuel [executeCode, completedCode, outputCode] (T.scope r) s =
      some (.normal, T.inner "result" (.ofOption value) (r.complete T.i T.task (T.task.kept value)), s') := by
    rw [Stmt.runAll_of_normal (run_executeCode_ok h), Stmt.runAll_of_normal run_completedCode,
      Stmt.runAll_of_normal run_outputCode]
    rfl
  rw [turnCode, Stmt.runAll_of_normal run_step, Stmt.runAll_singleton, Stmt.run_attempt_of_normal hbody, leave_scope]

/-- A turn whose task fails leaves the loop. -/
theorem turn_error (h : host s T.task = (.error e, s')) :
    Stmt.runAll host fuel turnCode (loopScope tasks T.start T.i r) s =
      some (.stopped, T.scope (r.fail T.i T.task e.message), s') := by
  have hbody : Stmt.runAll host fuel [executeCode, completedCode, outputCode] (T.scope r) s =
      some (.thrown e.value, T.scope r, s') := Stmt.runAll_of_thrown (run_executeCode_error h)
  rw [turnCode, Stmt.runAll_of_normal run_step, Stmt.runAll_singleton,
    Stmt.run_attempt_of_thrown hbody runAll_failureCode, leave_scope]

end Turn

/-! ### The loop -/

variable {σ : Type} {host : Host σ} {tasks : List Task} {start : Nat} {s s' : σ} {t : Task} {r : RunResult}

/-- An executor whose tasks give nothing for an output key that is the empty text. -/
def keeping (exec : Executor σ) : Executor σ := fun s t => ((exec s t).1.map t.kept, (exec s t).2)

/-- One turn of a script. -/
def turn (host : Host σ) (fuel : Nat) (env : Env) (s : σ) : Option (Ending σ) :=
  (Stmt.runAll host fuel turnCode env s).map (leave env.length)

theorem below?_loopScope (tasks : List Task) (start i : Nat) (r : RunResult) :
    Stmt.below? "i" (.field (.var "steps") "length") (loopScope tasks start i r) =
      some (decide (i < tasks.length)) := by
  simp [Stmt.below?, Place.read?, loopScope, scope, List.lookup_cons, Value.get?, Value.nat?, Value.number, Tree.nat]

theorem countOn?_loopScope (tasks : List Task) (start i : Nat) (r : RunResult) :
    Stmt.countOn? "i" (loopScope tasks start i r) = some (loopScope tasks start (i + 1) r) := by
  simp [Stmt.countOn?, Place.read?, loopScope, Value.nat?, Value.number, Tree.nat, Env.set?]

theorem exists_of_keeping_ok {value : Option Tree} (h : (keeping host.executor s t).1 = .ok value) :
    ∃ v, host s t = (.ok v, (keeping host.executor s t).2) ∧ value = t.kept v := by
  unfold keeping Host.executor at *
  generalize host s t = called at *
  obtain ⟨e | v, s'⟩ := called
  · cases h
  · exact ⟨v, rfl, (Except.ok.inj h).symm⟩

theorem exists_of_keeping_error {message : String} (h : (keeping host.executor s t).1 = .error message) :
    ∃ e, host s t = (.error e, (keeping host.executor s t).2) ∧ message = e.message := by
  unfold keeping Host.executor at *
  generalize host s t = called at *
  obtain ⟨e | v, s'⟩ := called
  · exact ⟨e, rfl, (Except.error.inj h).symm⟩
  · cases h

theorem turn_of_ok {i : Nat} {value : Option Tree} (ht : tasks[i]? = some t) (h : host s t = (.ok value, s'))
    (fuel : Nat) :
    turn host fuel (loopScope tasks start i r) s =
      some (.normal, loopScope tasks start i (r.complete i t (t.kept value)), s') := by
  rw [turn, Turn.turn_ok (T := ⟨start, i, t, ht⟩) h]
  rfl

theorem turn_of_error {i : Nat} {e : Thrown} (ht : tasks[i]? = some t) (h : host s t = (.error e, s')) (fuel : Nat) :
    turn host fuel (loopScope tasks start i r) s =
      some (.stopped, loopScope tasks start i (r.fail i t e.message), s') := by
  rw [turn, Turn.turn_error (T := ⟨start, i, t, ht⟩) h]
  rfl

/-- Turn for turn, the loop does what `runTasks` does; the counter ends up anywhere. -/
theorem repeated_turn (host : Host σ) (fuel : Nat) (tasks : List Task) (start i : Nat) (s : σ) (r : RunResult)
    (turns : Nat) (hturns : tasks.length - i < turns) :
    ∃ j, repeated (Stmt.below? "i" (.field (.var "steps") "length")) (Stmt.countOn? "i") (turn host fuel) turns
      (loopScope tasks start i r) s = some (.normal,
        loopScope tasks start j (runTasks (keeping host.executor) i (tasks.drop i) r s).1,
        (runTasks (keeping host.executor) i (tasks.drop i) r s).2) := by
  induction i, s using turn_induction (keeping host.executor) tasks generalizing r turns with
  | past i s hlen =>
    obtain ⟨turns, rfl⟩ := Nat.exists_eq_add_one_of_ne_zero (Nat.ne_zero_of_lt hturns)
    refine ⟨i, ?_⟩
    rw [runTasks_of_length_le hlen, repeated, below?_loopScope]
    simp [Nat.not_lt.mpr hlen]
  | fails i s t message ht he =>
    obtain ⟨turns, rfl⟩ := Nat.exists_eq_add_one_of_ne_zero (Nat.ne_zero_of_lt hturns)
    obtain ⟨hlt, -⟩ := List.getElem?_eq_some_iff.mp ht
    obtain ⟨e, hu, rfl⟩ := exists_of_keeping_error he
    refine ⟨i, ?_⟩
    rw [runTasks_of_error ht he, repeated, below?_loopScope]
    simp [hlt, turn_of_error ht hu]
  | goes i s t value ht he ih =>
    obtain ⟨turns, rfl⟩ := Nat.exists_eq_add_one_of_ne_zero (Nat.ne_zero_of_lt hturns)
    obtain ⟨hlt, -⟩ := List.getElem?_eq_some_iff.mp ht
    obtain ⟨v, hu, rfl⟩ := exists_of_keeping_ok he
    -- the next turn starts with the result of this one, and with one turn less to spare
    obtain ⟨j, hj⟩ := ih (r.complete i t (t.kept v)) turns (by omega)
    refine ⟨j, ?_⟩
    rw [runTasks_of_ok ht he, repeated, below?_loopScope]
    simpa [hlt, turn_of_ok ht hu, countOn?_loopScope] using hj

theorem run_resultCode (fuel : Nat) : Stmt.run host fuel resultCode
    [("steps", .list (tasks.map Task.record)), ("startFromStep", .number start)] s =
      some (.normal, scope tasks start .initial, s) := rfl

theorem run_loopCode {fuel : Nat} (hfuel : tasks.length - start < fuel) :
    Stmt.run host fuel loopCode (scope tasks start r) s = some (.normal,
      scope tasks start (runTasks (keeping host.executor) start (tasks.drop start) r s).1,
      (runTasks (keeping host.executor) start (tasks.drop start) r s).2) := by
  obtain ⟨j, hj⟩ := repeated_turn host fuel tasks start start s r fuel hfuel
  have hstart : Place.read? (scope tasks start r) (.var "startFromStep") = some (.number start) := rfl
  rw [loopCode, Stmt.run, hstart]
  -- what is left is the loop with a start that is known
  change (repeated _ _ (turn host fuel) fuel (loopScope tasks start start r) s).bind
    (fun ended => some (leave (scope tasks start r).length ended)) = _
  rw [hj]
  rfl

theorem mapM_record? (tasks : List Task) : tasks.mapM Task.record? = some (tasks.map Task.record) := by
  induction tasks with
  | nil => rfl
  | cons t tasks ih => simp [Task.record?_eq, ih]

/-- The result that a script returns. -/
def scriptResult? (host : Host σ) (fuel : Nat) (tasks : List Task) (start : Nat) (s : σ) : Option (Value × σ) := do
  let steps ← tasks.mapM Task.record?
  let env := [("steps", .list steps), ("startFromStep", .number start)]
  match ← Stmt.runAll host fuel [resultCode, loopCode] env s with
  | (.normal, env, s) => return (← env.lookup "results", s)
  | _ => none

theorem scriptResult?_eq (host : Host σ) (tasks : List Task) (start : Nat) (s : σ) {fuel : Nat}
    (hfuel : tasks.length - start < fuel) :
    scriptResult? host fuel tasks start s = some ((runFrom (keeping host.executor) tasks start s).1.object,
      (runFrom (keeping host.executor) tasks start s).2) := by
  have hrun : Stmt.runAll host fuel [resultCode, loopCode]
      [("steps", .list (tasks.map Task.record)), ("startFromStep", .number start)] s =
        some (.normal, scope tasks start (runFrom (keeping host.executor) tasks start s).1,
          (runFrom (keeping host.executor) tasks start s).2) := by
    rw [Stmt.runAll_of_normal (run_resultCode fuel), Stmt.runAll_singleton, run_loopCode hfuel, runFrom]
  rw [scriptResult?, mapM_record?]
  simp only [Option.bind_eq_bind, Option.bind_some, hrun]
  rfl

end Code

/-! ### The empty key -/

namespace Fields

/-- The fields but the one whose key is the empty text. -/
def named (fs : Fields) : Fields := fs.filter fun f => f.1 != ""

theorem named_cons (k : String) (w : Tree) (fs : Fields) :
    named ((k, w) :: fs) = if k = "" then named fs else (k, w) :: named fs := by
  by_cases h : k = "" <;> simp [named, h]

theorem named_put_empty (fs : Fields) (v : Tree) : (fs.put "" v).named = fs.named := by
  induction fs with
  | nil => rfl
  | cons f fs ih =>
    obtain ⟨k, w⟩ := f
    unfold put
    split
    · rw [named_cons, if_pos rfl]
    · split
      · next heq => rw [named_cons, named_cons, if_pos rfl, if_pos heq.symm]
      · rw [named_cons, named_cons, ih]

theorem named_put (fs : Fields) {key : String} (h : key ≠ "") (v : Tree) :
    (fs.put key v).named = fs.named.put key v := by
  -- no key comes before the empty text, so what is put passes it
  have hkey : ¬ key < "" := List.not_lt_nil key.toList
  induction fs with
  | nil => simp [put, named, h]
  | cons f fs ih =>
    obtain ⟨k, w⟩ := f
    by_cases hk : k = ""
    · subst hk
      simp only [put, named_cons, if_neg hkey, if_neg h, if_true, ih]
    · by_cases hlt : key < k
      · simp only [put, named_cons, if_pos hlt, if_neg h, if_neg hk]
      · by_cases heq : key = k
        · simp only [put, named_cons, if_neg hlt, if_pos heq, if_neg h, if_neg hk]
        · simp only [put, named_cons, if_neg hlt, if_neg heq, if_neg hk, ih]

theorem get?_named_empty (fs : Fields) : get? fs.named "" = none := by
  induction fs with
  | nil => rfl
  | cons f fs ih =>
    rw [named_cons]
    split
    · exact ih
    · next h => rw [get?, if_neg h, ih]

theorem named_of_get?_eq_none {fs : Fields} (h : get? fs "" = none) : fs.named = fs := by
  induction fs with
  | nil => rfl
  | cons f fs ih =>
    obtain ⟨k, w⟩ := f
    unfold get? at h
    split at h
    · cases h
    · next hk => rw [named_cons, if_neg hk, ih h]

end Fields

/-- The result without what was given for the empty key. -/
def RunResult.named (r : RunResult) : RunResult := { r with output := r.output.named }

theorem RunResult.named_complete (r : RunResult) (position : Nat) (t : Task) (value : Option Tree) :
    (r.complete position t value).named = r.named.complete position t (t.kept value) := by
  unfold named complete Task.kept
  cases t.output with
  | none => simp
  | some key =>
    cases value with
    | none => simp
    | some v =>
      by_cases h : key = ""
      · simp [h, Fields.named_put_empty]
      · simp [h, Fields.named_put]

/-- An executor that gives nothing for the empty key leaves it out of the result, and changes nothing else. -/
theorem runTasks_keeping {σ : Type} (exec : Executor σ) (position : Nat) (ts : List Task) (r : RunResult) (s : σ) :
    runTasks (keeping exec) position ts r.named s =
      ((runTasks exec position ts r s).1.named, (runTasks exec position ts r s).2) := by
  induction ts generalizing position r s with
  | nil => rfl
  | cons t ts ih =>
    unfold runTasks keeping
    cases exec s t with
    | mk outcome s' =>
      cases outcome with
      | error message => rfl
      | ok value =>
        simp only [Except.map, ← RunResult.named_complete]
        exact ih (position + 1) (r.complete position t value) s'

theorem RunResult.object_named_eq_iff {r : RunResult} : r.named.object = r.object ↔ Fields.get? r.output "" = none := by
  constructor
  · intro h
    have houtput := congrArg (fun v => (v.get? "output").bind (·.get? "")) h
    have : Value.ofOption (r.output.named.get? "") = .ofOption (r.output.get? "") := Option.some.inj houtput
    rw [Fields.get?_named_empty] at this
    cases hv : r.output.get? "" with
    | none => rfl
    | some v =>
      rw [hv] at this
      cases this
  · intro h
    rw [named, Fields.named_of_get?_eq_none h]

/-- What a script returns is the result of a run without what was given for the empty key. -/
theorem scriptResult?_eq_named {σ : Type} (host : Host σ) (tasks : List Task) (start : Nat) (s : σ) {fuel : Nat}
    (hfuel : tasks.length - start < fuel) :
    scriptResult? host fuel tasks start s = some ((runFrom host.executor tasks start s).1.named.object,
      (runFrom host.executor tasks start s).2) := by
  have hkeeping : runFrom (keeping host.executor) tasks start s =
      ((runFrom host.executor tasks start s).1.named, (runFrom host.executor tasks start s).2) :=
    runTasks_keeping host.executor start (tasks.drop start) .initial s
  rw [scriptResult?_eq host tasks start s hfuel, hkeeping]

/-- The code at the end of a script and the records that it reads, and what comes of performing it: the result of the
run, but for the empty key.  So script and run agree iff no value was given for that key.  The loop ends after one turn
for each task at the latest. -/
theorem scriptResult?_spec {σ : Type} (host : Host σ) (tasks : List Task) (start spare : Nat) (s : σ) :
    let exec := host.executor
    let result := (runFrom exec tasks start s).1
    let last := (runFrom exec tasks start s).2
    let script := scriptResult? host (tasks.length - start + 1 + spare) tasks start s
    Program.epilogue = [.closing "];", .blank] ++ resultCode.edits ++ [.blank] ++ loopCode.edits ++
        [.blank, .line "return results;"] ∧
      (∀ (t : Task) (final : Bool), t.edits final = [.opening "\x7b"] ++
        t.properties.flatMap (fun f => f.2.edits f.1) ++ [.closing (if final then "\x7d" else "\x7d,")]) ∧
      script = some (result.named.object, last) ∧
      (script = some (result.object, last) ↔ Silent exec tasks start s (stopAt exec tasks start s) "") := by
  intro exec result last script
  have hscript : script = some (result.named.object, last) :=
    scriptResult?_eq_named host tasks start s (by omega)
  refine ⟨?_, Task.edits_eq, hscript, ?_⟩
  · rw [edits_resultCode, edits_loopCode, Program.epilogue]
  · rw [hscript, ← get?_output_runFrom_eq_none, ← RunResult.object_named_eq_iff, Option.some.injEq, Prod.mk.injEq]
    exact and_iff_left rfl

/-- A task whose output key is the empty text. -/
def emptyKeyTask : Task := ⟨0, "go", .click "#go", none, some "", none⟩

def givingOne : Host Unit := fun s _ => (.ok (some (.nat 1)), s)

theorem scriptResult?_ne_emptyKey :
    (runFrom givingOne.executor [emptyKeyTask] 0 ()).1 = ⟨true, [⟨0, "go", true⟩], none, [("", .nat 1)]⟩ ∧
      scriptResult? givingOne 2 [emptyKeyTask] 0 () =
        some (RunResult.object ⟨true, [⟨0, "go", true⟩], none, []⟩, ()) ∧
      scriptResult? givingOne 2 [emptyKeyTask] 0 () ≠
        some ((runFrom givingOne.executor [emptyKeyTask] 0 ()).1.object, ()) := by
  have hrun : (runFrom givingOne.executor [emptyKeyTask] 0 ()).1 =
      ⟨true, [⟨0, "go", true⟩], none, [("", .nat 1)]⟩ := rfl
  have hscript : scriptResult? givingOne 2 [emptyKeyTask] 0 () = _ :=
    scriptResult?_eq_named givingOne [emptyKeyTask] 0 () (Nat.lt_succ_self 1)
  rw [hrun] at hscript ⊢
  refine ⟨rfl, hscript, fun h => ?_⟩
  rw [hscript, Option.some.injEq, Prod.mk.injEq, RunResult.object_named_eq_iff] at h
  cases h.1

end FlowScript

import FlowScript.Compile
import FlowScript.Proofs.DuplicateWarnings

/-!
# Reporting on the way

What a compilation reports is said beside what becomes of it: `WhenClause.warnings` beside `Guard.ofWhen`,
`Workflow.warnings` beside `Program.ofWorkflow`, and `compileEvents` beside `compileTree`.  Here one computation does
both.  It goes through the stages, the steps and the tasks one after another, and adds each event to a log at the moment
it comes up; what is in the log stays there if the computation fails later.

`Yields m r es` says that the computation `m` results in `r` and adds `es` to the log.  With it, each stage is compared
with the function and the list that stand for it: `Reporting.yields_clause`, `Reporting.yields_program` and, for the
whole compilation, `Reporting.yields_compile`.
-/

namespace FlowScript

/-- Computations that add events to a log, and may fail. -/
abbrev Reporting (ε : Type) := ExceptT ε (StateM (List Event))

namespace Reporting

variable {α β ε : Type}

def report (e : Event) : Reporting ε Unit := modify (· ++ [e])

def reportIf (p : Prop) [Decidable p] (e : Event) : Reporting ε Unit := if p then report e else return ()

/-! ### Clauses and steps -/

/-- The word `all` joins with and, every other word with or.  A word that is neither `all` nor `any` is reported. -/
def junction : Option String → Reporting ε Junction
  | some "all" => return .and
  | some "any" | none => return .or
  | some mode => do
    report (.unknownMatch mode)
    return .or

def clause (w : WhenClause) : Reporting GuardFault Guard :=
  match w.field, w.op, w.conditions with
  | some field, some op, none => do
    let t ← Test.make field op (w.value.getD .null)
    return ⟨[t], .and⟩
  | none, none, some conditions =>
    if conditions.isEmpty then throw .noConditions
    else do
      let tests ← Test.ofConditions conditions
      let j ← junction w.matchMode
      return ⟨tests, j⟩
  | _, _, some _ => throw .mixedShapes
  | _, _, none => throw .noShape

def clause? : Option WhenClause → Reporting GuardFault (Option Guard)
  | none => return none
  | some w => do
    let g ← clause w
    return some g

def faults : Except ε α → List ε
  | .ok _ => []
  | .error e => [e]

/-- The task of the step at a position.  The clause is looked at whatever becomes of the action. -/
def task (index : Nat) (s : Step) : Reporting (List Problem) Task := do
  let guard ← (clause? s.whenClause).run
  match Action.ofStep s, guard with
  | .ok action, .ok guard => return ⟨index, s.name, action, guard, s.output, s.hint⟩
  | action, guard => throw ((faults action).map (·.problem index) ++ (faults guard).map (·.problem.atStep index))

/-- Goes through the steps from a position on; `tasks` and `problems` are those of the steps before. -/
def steps (tasks : List Task) (problems : List Problem) :
    (index : Nat) → List Step → Reporting ε (List Task × List Problem)
  | _, [] => return (tasks, problems)
  | index, s :: r => do
    match ← (task index s).run with
    | .ok t => steps (tasks ++ [t]) problems (index + 1) r
    | .error ps => steps tasks (problems ++ ps) (index + 1) r

/-- Goes through the tasks; `names` and `outputs` are those of the tasks before. -/
def duplicates (names outputs : List String) : List Task → Reporting ε Unit
  | [] => return ()
  | t :: r => do
    reportIf (t.name ∈ names) (.duplicateName t.index t.name)
    match t.output with
    | some key => do
      reportIf (key ∈ outputs) (.duplicateOutput t.index key)
      duplicates (t.name :: names) (key :: outputs) r
    | none => duplicates (t.name :: names) outputs r

/-! ### Stages -/

def program (w : Workflow) (source : String) : Reporting (List Problem) Program :=
  if w.steps.isEmpty then throw [.noSteps]
  else do
    let (tasks, problems) ← steps [] [] 0 w.steps
    if problems.isEmpty then do
      duplicates [] [] tasks
      return ⟨⟨w.name, source, w.description⟩, tasks⟩
    else throw problems

def check (document : Tree) (schema : SchemaDocument) : Reporting (List Problem) Unit :=
  match validate document schema with
  | [] => return ()
  | vs => do
    report (.rejected vs.length)
    throw (vs.map Violation.problem)

def compile (document : Tree) (source : String) (schema : SchemaDocument) : Reporting (List Problem) Compiled := do
  report (.validating source)
  check document schema
  let w ← readWorkflow document
  report (.lowering w.name)
  let p ← program w source
  report (.compiled p.header.workflow p.tasks.length)
  return ⟨p.header.workflow, p.tasks.length, p.script⟩

/-! ### Results and logs -/

/-- Whatever was logged before, the computation results in `r` and adds `es` to the log. -/
def Yields (m : Reporting ε α) (r : Except ε α) (es : List Event) : Prop :=
  ∀ log, m.run.run log = (r, log ++ es)

namespace Yields

variable {m : Reporting ε α} {f : α → Reporting ε β} {a : α} {e : ε} {r : Except ε β} {es fs : List Event}

theorem pure (a : α) : Yields (ε := ε) (pure a) (.ok a) [] := by
  intro log
  rw [List.append_nil]
  rfl

theorem throw (e : ε) : Yields (α := α) (throw e) (.error e) [] := by
  intro log
  rw [List.append_nil]
  rfl

theorem report (e : Event) : Yields (ε := ε) (report e) (.ok ()) [e] := fun _ => rfl

theorem reportIf (p : Prop) [Decidable p] (e : Event) :
    Yields (ε := ε) (reportIf p e) (.ok ()) (if p then [e] else []) := by
  unfold Reporting.reportIf
  split
  · exact report e
  · exact pure ()

/-- A result that is there already is not logged. -/
theorem lift (r : Except ε α) : Yields (liftM r) r [] := by
  intro log
  rw [List.append_nil]
  rfl

/-- A failure that is dealt with is a result like any other. -/
theorem run {δ : Type} {r : Except ε α} (h : Yields m r es) : Yields (ε := δ) (liftM m.run) (.ok r) es := by
  intro log
  change (do let x ← m.run; Pure.pure (Except.ok x) : StateM (List Event) _).run log = _
  rw [StateT.run_bind, h log]
  rfl

theorem bind (h : Yields m (.ok a) es) (hf : Yields (f a) r fs) : Yields (m >>= f) r (es ++ fs) := by
  intro log
  rw [ExceptT.run_bind, StateT.run_bind, h log]
  change (f a).run.run (log ++ es) = _
  rw [hf, List.append_assoc]

theorem bind_error (h : Yields m (.error e) es) : Yields (m >>= f) (.error e) es := by
  intro log
  rw [ExceptT.run_bind, StateT.run_bind, h log]
  rfl

/-- What comes after a computation that logs nothing. -/
theorem bind_silent (h : Yields m (.ok a) []) (hf : Yields (f a) r fs) : Yields (m >>= f) r fs := h.bind hf

/-- A computation that nothing is logged after. -/
theorem bind_pure {g : α → β} (h : Yields m (.ok a) es) : Yields (m >>= fun a => Pure.pure (g a)) (.ok (g a)) es := by
  have hbind := h.bind (f := fun a => Pure.pure (g a)) (pure (g a))
  rwa [List.append_nil] at hbind

end Yields

theorem yields_junction (mode : Option String) :
    Yields (ε := ε) (junction mode) (.ok (Junction.ofMatch mode))
      ((mode.toList.filter (· ∉ ["all", "any"])).map .unknownMatch) := by
  unfold junction
  split
  · exact .pure _
  · exact .pure _
  · exact .pure _
  · next mode hall hany =>
    have hall : mode ≠ "all" := fun h => hall (by rw [h])
    have hany : mode ≠ "any" := fun h => hany (by rw [h])
    have hor : Junction.ofMatch (some mode) = .or := by simp [Junction.ofMatch, hall]
    have hevents : ((some mode).toList.filter (· ∉ ["all", "any"])).map .unknownMatch = [Event.unknownMatch mode] := by
      simp [hall, hany]
    rw [hor, hevents]
    exact (Yields.report _).bind_pure

end Reporting

namespace WhenClause

theorem warnings_of_error {w : WhenClause} {f : GuardFault} (h : Guard.ofWhen w = .error f) : w.warnings = [] := by
  rw [warnings, h]

theorem warnings_of_ok {w : WhenClause} {g : Guard} {cs : List Condition} (h : Guard.ofWhen w = .ok g)
    (hcs : w.conditions = some cs) :
    w.warnings = (w.matchMode.toList.filter (· ∉ ["all", "any"])).map .unknownMatch := by
  rw [warnings, h, hcs]
  cases w.matchMode with
  | none => rfl
  | some mode => by_cases hall : mode = "all" <;> by_cases hany : mode = "any" <;> simp [hall, hany]

end WhenClause

namespace Reporting

theorem yields_clause (w : WhenClause) : Yields (clause w) (Guard.ofWhen w) w.warnings := by
  unfold clause
  split
  · next field op hfield hop hcs =>
    have hof : Guard.ofWhen w = (do return ⟨[← Test.make field op (w.value.getD .null)], .and⟩) := by
      simp only [Guard.ofWhen, hfield, hop, hcs]
    have hwarnings : w.warnings = [] := by
      simp [WhenClause.warnings, hcs]
    rw [hof, hwarnings]
    cases Test.make field op (w.value.getD .null) with
    | error f => exact (Yields.lift _).bind_error
    | ok t => exact (Yields.lift _).bind_pure
  · next cs hfield hop hcs =>
    split
    · next hempty =>
      have hof : Guard.ofWhen w = .error .noConditions := by
        simp only [Guard.ofWhen, hfield, hop, hcs, if_pos hempty]
      rw [hof, WhenClause.warnings_of_error hof]
      exact .throw _
    · next hne =>
      cases htests : Test.ofConditions cs with
      | error f =>
        have hof : Guard.ofWhen w = .error f := by
          simp only [Guard.ofWhen, hfield, hop, hcs, if_neg hne, htests]
          rfl
        rw [hof, WhenClause.warnings_of_error hof]
        exact (Yields.lift _).bind_error
      | ok tests =>
        have hof : Guard.ofWhen w = .ok ⟨tests, Junction.ofMatch w.matchMode⟩ := by
          simp only [Guard.ofWhen, hfield, hop, hcs, if_neg hne, htests]
          rfl
        rw [hof, WhenClause.warnings_of_ok hof hcs]
        exact (Yields.lift _).bind_silent (yields_junction w.matchMode).bind_pure
  · next cs hcs hlist =>
    have hof : Guard.ofWhen w = .error .mixedShapes := by
      unfold Guard.ofWhen
      split <;> simp_all
    rw [hof, WhenClause.warnings_of_error hof]
    exact .throw _
  · next hcs hsimple =>
    have hof : Guard.ofWhen w = .error .noShape := by
      unfold Guard.ofWhen
      split <;> simp_all
    rw [hof, WhenClause.warnings_of_error hof]
    exact .throw _

theorem yields_clause? (s : Step) : Yields (clause? s.whenClause) (Guard.ofWhen? s.whenClause) s.warnings := by
  unfold Step.warnings
  cases s.whenClause with
  | none => exact .pure none
  | some w =>
    have hclause := yields_clause w
    rw [clause?, Guard.ofWhen?]
    cases hof : Guard.ofWhen w with
    | error f =>
      rw [hof] at hclause
      exact hclause.bind_error
    | ok g =>
      rw [hof] at hclause
      exact hclause.bind_pure

theorem yields_task (index : Nat) (s : Step) : Yields (task index s) (Task.ofStep index s) s.warnings := by
  have hclause := (yields_clause? s).run (δ := List Problem)
  unfold task Task.ofStep
  rw [← List.append_nil s.warnings]
  refine hclause.bind ?_
  cases Action.ofStep s with
  | error a =>
    cases Guard.ofWhen? s.whenClause with
    | error g => exact .throw _
    | ok guard => exact .throw _
  | ok action =>
    cases Guard.ofWhen? s.whenClause with
    | error g => exact .throw _
    | ok guard => exact .pure _

end Reporting

namespace Task

/-- The tasks of those steps from a position on that have one. -/
def tasksOf (index : Nat) (steps : List Step) : List Task :=
  (steps.zipIdx index).filterMap fun e => (ofStep e.2 e.1).toOption

theorem tasksOf_cons (index : Nat) (s : Step) (steps : List Step) :
    tasksOf index (s :: steps) = (ofStep index s).toOption.toList ++ tasksOf (index + 1) steps := by
  rw [tasksOf, List.zipIdx_cons, List.filterMap_cons]
  cases ofStep index s <;> rfl

theorem ofSteps_eq_ite (index : Nat) (steps : List Step) :
    ofSteps index steps =
      if problems index steps = [] then .ok (tasksOf index steps) else .error (problems index steps) := by
  rcases ofSteps_cases index steps with ⟨hnil, tasks, htasks, -⟩ | ⟨hne, herror⟩
  · rw [if_pos hnil, htasks]
    have hsteps := ofSteps_eq_ok_iff.mp htasks
    have hmap : tasksOf index steps = (tasks.map Except.ok).filterMap (Except.toOption (ε := List Problem)) := by
      rw [← hsteps, List.filterMap_map]
      rfl
    rw [hmap, List.filterMap_map]
    exact congrArg Except.ok List.filterMap_some.symm
  · rw [if_neg hne, herror]

end Task

namespace Reporting

/-- After the steps, the tasks and the problems of all of them are gathered. -/
theorem yields_steps (tasks : List Task) (problems : List Problem) (index : Nat) (ss : List Step) :
    Yields (ε := ε) (steps tasks problems index ss)
      (.ok (tasks ++ Task.tasksOf index ss, problems ++ Task.problems index ss)) (ss.flatMap Step.warnings) := by
  induction ss generalizing tasks problems index with
  | nil =>
    rw [steps, Task.tasksOf, Task.problems, List.zipIdx_nil, List.filterMap_nil, List.flatMap_nil, List.append_nil,
      List.append_nil]
    exact .pure _
  | cons s ss ih =>
    have htask := (yields_task index s).run (δ := ε)
    rw [steps, List.flatMap_cons]
    refine htask.bind ?_
    rw [Task.problems_cons, Task.problemsAt, Task.tasksOf_cons]
    cases Task.ofStep index s with
    | ok t => simpa [Except.toOption] using ih (tasks ++ [t]) problems (index + 1)
    | error ps => simpa [Except.toOption] using ih tasks (problems ++ ps) (index + 1)

theorem yields_duplicates (names outputs : List String) (tasks : List Task) :
    Yields (ε := ε) (duplicates names outputs tasks) (.ok ()) (Task.duplicates names outputs tasks) := by
  induction tasks generalizing names outputs with
  | nil => exact .pure ()
  | cons t tasks ih =>
    rw [duplicates, Task.duplicates_cons, Task.repetitions, List.append_assoc]
    refine (Yields.reportIf _ _).bind ?_
    cases t.output with
    | none => exact ih _ _
    | some key => exact (Yields.reportIf _ _).bind (ih _ _)

theorem yields_program (w : Workflow) (source : String) :
    Yields (program w source) (Program.ofWorkflow w source) w.warnings := by
  have hsteps := yields_steps (ε := List Problem) [] [] 0 w.steps
  unfold program Program.ofWorkflow Workflow.warnings
  split
  · next hempty =>
    obtain hnil := List.isEmpty_iff.mp hempty
    rw [hnil]
    exact .throw _
  · rw [Task.ofSteps_eq_ite]
    refine hsteps.bind ?_
    rw [List.nil_append, List.nil_append]
    by_cases hproblems : Task.problems 0 w.steps = []
    · simp only [hproblems, List.isEmpty_nil, if_true]
      exact (yields_duplicates [] [] _).bind_pure
    · simp only [hproblems, List.isEmpty_eq_false_iff.mpr hproblems, if_false]
      exact .throw _

theorem yields_check (document : Tree) (schema : SchemaDocument) :
    Yields (check document schema)
      (if validate document schema = [] then .ok () else .error ((validate document schema).map Violation.problem))
      (checkEvents (validate document schema)) := by
  unfold check
  split
  · next hvs =>
    rw [hvs]
    exact .pure ()
  · next hne =>
    rw [if_neg hne, checkEvents, if_neg (by simpa using hne)]
    exact (Yields.report _).bind (.throw _)

/-- A compilation that reports on its way results in what `compileTree` says and reports what `compileEvents` lists. -/
theorem yields_compile (document : Tree) (source : String) (schema : SchemaDocument) :
    Yields (compile document source schema) (compileTree document source schema)
      (compileEvents document source schema) := by
  have hvalidating := Yields.report (ε := List Problem) (.validating source)
  have hcheck := yields_check document schema
  cases hvs : validate document schema with
  | cons v vs =>
    have hresult : compileTree document source schema = .error ((v :: vs).map Violation.problem) := by
      rw [compileTree, hvs]
    have hevents : compileEvents document source schema = [.validating source] ++ checkEvents (v :: vs) := by
      rw [compileEvents, hvs]
      rfl
    rw [hvs, if_neg (List.cons_ne_nil v vs)] at hcheck
    rw [hresult, hevents]
    exact hvalidating.bind hcheck.bind_error
  | nil =>
    rw [hvs, if_pos rfl] at hcheck
    cases hread : readWorkflow document with
    | error ps =>
      have hresult : compileTree document source schema = .error ps := by
        rw [compileTree, hvs, hread]
        rfl
      have hevents : compileEvents document source schema = [.validating source] := by
        rw [compileEvents, hvs, hread]
      rw [hresult, hevents]
      exact hvalidating.bind (hcheck.bind_silent (hread ▸ (Yields.lift _).bind_error))
    | ok w =>
      have hlowering := Yields.report (ε := List Problem) (.lowering w.name)
      have hprogram := yields_program w source
      cases hp : Program.ofWorkflow w source with
      | error ps =>
        have hresult : compileTree document source schema = .error ps := by
          simp only [compileTree, hvs, hread, bind, Except.bind, hp]
        have hevents : compileEvents document source schema =
            [.validating source] ++ ([.lowering w.name] ++ w.warnings) := by
          simp [compileEvents, hvs, hread, hp]
        rw [hp] at hprogram
        rw [hresult, hevents]
        exact hvalidating.bind (hcheck.bind_silent
          (hread ▸ (Yields.lift _).bind_silent (hlowering.bind hprogram.bind_error)))
      | ok p =>
        have hresult : compileTree document source schema =
            .ok ⟨p.header.workflow, p.tasks.length, p.script⟩ := by
          simp only [compileTree, hvs, hread, bind, Except.bind, hp]
          rfl
        have hevents : compileEvents document source schema =
            [.validating source] ++ ([.lowering w.name] ++
              (w.warnings ++ [.compiled p.header.workflow p.tasks.length])) := by
          simp [compileEvents, hvs, hread, hp]
        rw [hp] at hprogram
        rw [hresult, hevents]
        exact hvalidating.bind (hcheck.bind_silent
          (hread ▸ (Yields.lift _).bind_silent (hlowering.bind (hprogram.bind (Yields.report _).bind_pure))))

end Reporting

end FlowScript

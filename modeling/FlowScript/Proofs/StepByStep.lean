import FlowScript.Proofs.Lowering

/-!
# Steps one by one

A workflow becomes a program step by step, and no step has a say in what becomes of another.  If every step has a task,
the tasks of the program are these, in order (`Task.ofSteps_eq_ok_iff`), and carry over what the steps say.  Otherwise
what is reported are the problems of the steps, one step after another; a step has at most one problem of its action,
and after it at most one of its clause (`Task.problemsAt_eq`).  `Program.ofWorkflow_stepwise` puts this together.
-/

namespace FlowScript

/-- The problem of a step's action, if there is one. -/
def Step.actionProblem? (index : Nat) (s : Step) : Option Problem :=
  match Action.ofStep s with
  | .ok _ => none
  | .error f => some (f.problem index)

/-- The problem of a step's clause, if there is one. -/
def Step.clauseProblem? (index : Nat) (s : Step) : Option Problem :=
  match Guard.ofWhen? s.whenClause with
  | .ok _ => none
  | .error f => some (f.problem.atStep index)

namespace Task

variable {index : Nat} {s : Step} {t : Task}

/-! ### One step -/

theorem problemsAt_eq (index : Nat) (s : Step) :
    problemsAt index s = (s.actionProblem? index).toList ++ (s.clauseProblem? index).toList := by
  unfold problemsAt ofStep Step.actionProblem? Step.clauseProblem?
  cases Action.ofStep s <;> cases Guard.ofWhen? s.whenClause <;> rfl

theorem problemsAt_eq_nil : problemsAt index s = [] ↔ ∃ t, ofStep index s = .ok t := by
  unfold problemsAt
  have hne := ofStep_ne_error_nil index s
  cases h : ofStep index s with
  | ok t => simp
  | error ps =>
    have hps : ps ≠ [] := fun hnil => hne (by rw [h, hnil])
    simp [hps]

theorem code_of_actionProblem? {p : Problem} (h : p ∈ s.actionProblem? index) :
    (p.code = "L001" ∨ p.code = "L003") ∧ p.step = some index := by
  unfold Step.actionProblem? at h
  split at h
  · cases h
  · next f _ =>
    cases h
    refine ⟨?_, rfl⟩
    cases f with
    | unknownAction name => exact .inl rfl
    | missingField step action field => exact .inr rfl

theorem code_of_clauseProblem? {p : Problem} (h : p ∈ s.clauseProblem? index) :
    (p.code = "L002" ∨ p.code = "L004") ∧ p.step = some index := by
  unfold Step.clauseProblem? at h
  split at h
  · cases h
  · next f _ =>
    cases h
    refine ⟨?_, rfl⟩
    cases f with
    | noConditions => exact .inl rfl
    | mixedShapes => exact .inl rfl
    | noShape => exact .inl rfl
    | unknownOperator op field => exact .inr rfl

/-- A task has the position of its step, and what the step says besides its action and its clause. -/
theorem carried_of_ofStep (h : ofStep index s = .ok t) :
    t.index = index ∧ t.name = s.name ∧ t.output = s.output ∧ t.hint = s.hint := by
  unfold ofStep at h
  split at h
  · cases h
    exact ⟨rfl, rfl, rfl, rfl⟩
  · cases h
  · cases h
  · cases h

/-! ### All steps -/

variable {steps : List Step} {tasks : List Task}

theorem ofSteps_cons_eq_ok :
    ofSteps index (s :: steps) = .ok tasks ↔
      ∃ t ts, ofStep index s = .ok t ∧ ofSteps (index + 1) steps = .ok ts ∧ tasks = t :: ts := by
  rw [ofSteps]
  cases ofStep index s <;> cases ofSteps (index + 1) steps <;> simp [eq_comm]

/-- There are tasks iff every step has one, and they are these. -/
theorem ofSteps_eq_ok_iff :
    ofSteps index steps = .ok tasks ↔ (steps.zipIdx index).map (fun e => ofStep e.2 e.1) = tasks.map .ok := by
  induction steps generalizing index tasks with
  | nil => simp [ofSteps, eq_comm]
  | cons s steps ih =>
    rw [ofSteps_cons_eq_ok, List.zipIdx_cons, List.map_cons]
    constructor
    · rintro ⟨t, ts, ht, hts, rfl⟩
      rw [List.map_cons, ht, ih.mp hts]
    · intro h
      cases tasks with
      | nil => cases h
      | cons t ts =>
        obtain ⟨ht, hts⟩ := List.cons.inj h
        exact ⟨t, ts, ht, ih.mpr hts, rfl⟩

/-- What tasks have by their steps, they have one by one. -/
theorem map_of_ofSteps {α : Type} {f : Task → α} {g : Step × Nat → α}
    (hfg : ∀ i s t, ofStep i s = .ok t → f t = g (s, i)) (h : ofSteps index steps = .ok tasks) :
    tasks.map f = (steps.zipIdx index).map g := by
  induction steps generalizing index tasks with
  | nil =>
    cases h
    rfl
  | cons s steps ih =>
    obtain ⟨t, ts, ht, hts, rfl⟩ := ofSteps_cons_eq_ok.mp h
    rw [List.map_cons, List.zipIdx_cons, List.map_cons, hfg index s t ht, ih hts]

/-- The tasks have the positions, names, outputs and hints of the steps. -/
theorem carried_of_ofSteps (h : ofSteps 0 steps = .ok tasks) :
    tasks.map (·.index) = List.range steps.length ∧ tasks.map (·.name) = steps.map (·.name) ∧
      tasks.map (·.output) = steps.map (·.output) ∧ tasks.map (·.hint) = steps.map (·.hint) := by
  have hfst : ∀ {α : Type} (f : Step → α), steps.map f = steps.zipIdx.map fun e => f e.1 := by
    intro α f
    conv => lhs; rw [← List.zipIdx_map_fst 0 steps, List.map_map]
    rfl
  refine ⟨?_, ?_, ?_, ?_⟩
  · rw [List.range_eq_range', ← List.zipIdx_map_snd]
    exact map_of_ofSteps (fun i s t ht => (carried_of_ofStep ht).1) h
  · rw [hfst]
    exact map_of_ofSteps (fun i s t ht => (carried_of_ofStep ht).2.1) h
  · rw [hfst]
    exact map_of_ofSteps (fun i s t ht => (carried_of_ofStep ht).2.2.1) h
  · rw [hfst]
    exact map_of_ofSteps (fun i s t ht => (carried_of_ofStep ht).2.2.2) h

theorem problems_eq_nil : problems 0 steps = [] ↔ ∀ i s, steps[i]? = some s → ∃ t, ofStep i s = .ok t := by
  simp only [problems, List.flatMap_eq_nil_iff, problemsAt_eq_nil, List.mem_zipIdx_iff_getElem?, Prod.forall]
  constructor
  · intro h i s
    exact h s i
  · intro h s i
    exact h i s

end Task

namespace Program

theorem ofWorkflow_of_steps {w : Workflow} (h : w.steps ≠ []) (source : String) :
    ofWorkflow w source = (Task.ofSteps 0 w.steps).map fun tasks => ⟨⟨w.name, source, w.description⟩, tasks⟩ := by
  rw [ofWorkflow, if_neg (by simpa using h)]
  cases Task.ofSteps 0 w.steps <;> rfl

/-- A workflow with steps has a program iff every step has a task.  The tasks of the program are those of the steps, in
order, under the workflow's own name and description.  If there is no program, the problems of all steps are reported,
step after step: at most one of the step's action, then at most one of its clause, each with the step's position. -/
theorem ofWorkflow_stepwise {w : Workflow} (h : w.steps ≠ []) (source : String) :
    ((∃ p, ofWorkflow w source = .ok p) ↔ ∀ i s, w.steps[i]? = some s → ∃ t, Task.ofStep i s = .ok t) ∧
      (∀ p, ofWorkflow w source = .ok p →
        p.header = ⟨w.name, source, w.description⟩ ∧
          w.steps.zipIdx.map (fun e => Task.ofStep e.2 e.1) = p.tasks.map .ok ∧
          p.tasks.map (·.index) = List.range w.steps.length ∧
          p.tasks.map (·.name) = w.steps.map (·.name) ∧
          p.tasks.map (·.output) = w.steps.map (·.output) ∧
          p.tasks.map (·.hint) = w.steps.map (·.hint)) ∧
      ∀ ps, ofWorkflow w source = .error ps →
        ps = (w.steps.zipIdx.map fun e => Task.problemsAt e.2 e.1).flatten ∧
          ∀ i s, w.steps[i]? = some s →
            Task.problemsAt i s = (s.actionProblem? i).toList ++ (s.clauseProblem? i).toList ∧
              (∀ p ∈ s.actionProblem? i, (p.code = "L001" ∨ p.code = "L003") ∧ p.step = some i) ∧
              ∀ p ∈ s.clauseProblem? i, (p.code = "L002" ∨ p.code = "L004") ∧ p.step = some i := by
  rw [ofWorkflow_of_steps h, ← Task.problems_eq_nil]
  rcases Task.ofSteps_cases 0 w.steps with ⟨hnil, tasks, hok, -⟩ | ⟨hne, herror⟩
  · rw [hok]
    refine ⟨?_, ?_, ?_⟩
    · simp [hnil, Except.map]
    · rintro p ⟨⟩
      exact ⟨rfl, Task.ofSteps_eq_ok_iff.mp hok, Task.carried_of_ofSteps hok⟩
    · rintro ps ⟨⟩
  · rw [herror]
    refine ⟨?_, ?_, ?_⟩
    · simp [hne, Except.map]
    · rintro p ⟨⟩
    · rintro ps ⟨⟩
      refine ⟨List.flatMap_def, ?_⟩
      intro i s _
      exact ⟨Task.problemsAt_eq i s, fun p hp => Task.code_of_actionProblem? hp,
        fun p hp => Task.code_of_clauseProblem? hp⟩

/-- A sound step, one with a fault in both its action and its clause, and one whose operator is not known. -/
def mixedSteps : Workflow :=
  ⟨"mixed", none, [
    { Step.plain "go" "click" with selector := some "#go" },
    { Step.plain "look" "hover" with whenClause := some (.compound [] (some "all")) },
    { Step.plain "stop" "click" with
      selector := some "#stop", whenClause := some (.simple "input.role" "=~" (.str "admin")) }]⟩

theorem ofWorkflow_stepwise_mixedSteps :
    mixedSteps.steps ≠ [] ∧
      ∃ ps, ofWorkflow mixedSteps "-" = .error ps ∧
        ps.map (fun p => (p.code, p.step)) = [("L001", some 1), ("L002", some 1), ("L004", some 2)] ∧
        ps = (mixedSteps.steps.zipIdx.map fun e => Task.problemsAt e.2 e.1).flatten := by
  have hsteps : mixedSteps.steps ≠ [] := List.cons_ne_nil _ _
  have herror : ofWorkflow mixedSteps "-" = .error [
      (ActionFault.unknownAction "hover").problem 1,
      GuardFault.noConditions.problem.atStep 1,
      (GuardFault.unknownOperator "=~" "input.role").problem.atStep 2] := rfl
  exact ⟨hsteps, _, herror, rfl, ((ofWorkflow_stepwise hsteps "-").2.2 _ herror).1⟩

end Program

end FlowScript

import FlowScript.Proofs.StepByStep
import FlowScript.Proofs.WhenClauses

/-!
# Warnings of duplicates

Going through the tasks of a program, `Task.duplicates` keeps the names and the output keys that it has seen.  These are
at every step those of the steps before it (`Seen`), so what is warned of at a step can be read off the workflow:
`Step.repetitions` looks at the steps before it only.  `Workflow.duplicates_eq_repetitions` says that there are no other
warnings of duplicates, and none at all if the workflow has no program.
-/

namespace FlowScript

/-- An event whose message tells of a duplicate. -/
def Event.isDuplicate (e : Event) : Bool :=
  e.message = "duplicate step name" ∨
    e.message = "duplicate output key, later step overwrites the earlier result"

/-- What there is to say of a step at a position: its name is that of an earlier step, or its output key is. -/
def Step.repetitions (earlier : List Step) (index : Nat) (s : Step) : List Event :=
  (if ∃ t ∈ earlier, t.name = s.name then [.duplicateName index s.name] else []) ++
    match s.output with
    | some key => if ∃ t ∈ earlier, t.output = some key then [.duplicateOutput index key] else []
    | none => []

/-- The names and output keys of the steps so far. -/
structure Seen (steps : List Step) (names outputs : List String) : Prop where
  mem_names : ∀ name, name ∈ names ↔ ∃ s ∈ steps, s.name = name
  mem_outputs : ∀ key, key ∈ outputs ↔ ∃ s ∈ steps, s.output = some key

namespace Seen

theorem nil : Seen [] [] [] := ⟨by simp, by simp⟩

/-- One step more has one name more, and an output key more if the step has one. -/
theorem snoc {steps : List Step} {names outputs : List String} (h : Seen steps names outputs) (s : Step) :
    Seen (steps ++ [s]) (s.name :: names) (s.output.toList ++ outputs) where
  mem_names name := by
    simp only [List.mem_cons, h.mem_names, List.mem_append, List.not_mem_nil, or_false, or_and_right, exists_or,
      exists_eq_left]
    rw [or_comm, eq_comm (a := name)]
  mem_outputs key := by
    simp only [List.mem_append, Option.mem_toList, h.mem_outputs, List.mem_cons, List.not_mem_nil, or_false,
      or_and_right, exists_or, exists_eq_left]
    rw [or_comm]

end Seen

namespace Task

/-- What is said of a task after these names and output keys. -/
def repetitions (names outputs : List String) (t : Task) : List Event :=
  (if t.name ∈ names then [.duplicateName t.index t.name] else []) ++
    match t.output with
    | some key => if key ∈ outputs then [.duplicateOutput t.index key] else []
    | none => []

theorem duplicates_cons (names outputs : List String) (t : Task) (tasks : List Task) :
    duplicates names outputs (t :: tasks) =
      t.repetitions names outputs ++ duplicates (t.name :: names) (t.output.toList ++ outputs) tasks := by
  rw [duplicates, repetitions]
  cases t.output <;> simp

/-- A task is warned of as its step repeats the steps that were seen. -/
theorem repetitions_of_seen {earlier : List Step} {names outputs : List String} {index : Nat} {s : Step} {t : Task}
    (hseen : Seen earlier names outputs) (h : ofStep index s = .ok t) :
    t.repetitions names outputs = s.repetitions earlier index := by
  obtain ⟨hindex, hname, houtput, -⟩ := carried_of_ofStep h
  simp only [repetitions, Step.repetitions, hindex, hname, houtput, hseen.mem_names, hseen.mem_outputs]

/-- Along the tasks, what was seen are the steps before. -/
theorem duplicates_of_seen {earlier steps : List Step} {names outputs : List String} {tasks : List Task}
    (hseen : Seen earlier names outputs) (h : ofSteps earlier.length steps = .ok tasks) :
    duplicates names outputs tasks =
      (steps.zipIdx earlier.length).flatMap fun e => e.1.repetitions ((earlier ++ steps).take e.2) e.2 := by
  induction steps generalizing earlier names outputs tasks with
  | nil =>
    cases h
    rfl
  | cons s steps ih =>
    obtain ⟨t, ts, ht, hts, rfl⟩ := ofSteps_cons_eq_ok.mp h
    obtain ⟨-, hname, houtput, -⟩ := carried_of_ofStep ht
    have hnow : (earlier ++ s :: steps).take earlier.length = earlier := List.take_left
    have hlength : earlier.length + 1 = (earlier ++ [s]).length := by simp
    have happend : earlier ++ s :: steps = (earlier ++ [s]) ++ steps := by simp
    rw [duplicates_cons, repetitions_of_seen hseen ht, hname, houtput, List.zipIdx_cons, List.flatMap_cons, hnow]
    rw [hlength] at hts ⊢
    rw [happend, ih (hseen.snoc s) hts]

end Task

theorem Step.isDuplicate_of_mem_repetitions {earlier : List Step} {index : Nat} {s : Step} {e : Event}
    (h : e ∈ s.repetitions earlier index) : e.isDuplicate = true := by
  have hname : ∀ name, (Event.duplicateName index name).isDuplicate = true := by simp [Event.isDuplicate, Event.message]
  have houtput : ∀ key, (Event.duplicateOutput index key).isDuplicate = true := by
    simp [Event.isDuplicate, Event.message]
  unfold repetitions at h
  rcases List.mem_append.mp h with h | h
  · split at h
    · obtain rfl := List.mem_singleton.mp h
      exact hname _
    · cases h
  · split at h
    · split at h
      · obtain rfl := List.mem_singleton.mp h
        exact houtput _
      · cases h
    · cases h

/-- What is said of a step's clause is not about duplicates. -/
theorem Step.not_isDuplicate_of_mem_warnings {s : Step} {e : Event} (h : e ∈ s.warnings) : ¬ e.isDuplicate = true := by
  unfold warnings at h
  split at h
  · next w _ =>
    rcases w.warnings_cases with hw | ⟨mode, hw⟩
    · rw [hw] at h
      cases h
    · rw [hw] at h
      obtain rfl := List.mem_singleton.mp h
      simp [Event.isDuplicate, Event.message]
  · cases h

namespace Workflow

theorem filter_clause_warnings (w : Workflow) : (w.steps.flatMap Step.warnings).filter Event.isDuplicate = [] := by
  rw [List.filter_eq_nil_iff]
  intro e he
  obtain ⟨s, -, hs⟩ := List.mem_flatMap.mp he
  exact Step.not_isDuplicate_of_mem_warnings hs

theorem filter_duplicates {w : Workflow} {tasks : List Task} (h : Task.ofSteps 0 w.steps = .ok tasks) :
    (Task.duplicates [] [] tasks).filter Event.isDuplicate =
      w.steps.zipIdx.flatMap fun e => e.1.repetitions (w.steps.take e.2) e.2 := by
  have htasks := Task.duplicates_of_seen Seen.nil h
  rw [List.nil_append, List.length_nil] at htasks
  rw [htasks, List.filter_eq_self]
  intro e he
  obtain ⟨s, -, hs⟩ := List.mem_flatMap.mp he
  exact Step.isDuplicate_of_mem_repetitions hs

/-- If a workflow has a program, its warnings of duplicates are those of its steps one after another, where a step is
warned of what an earlier step has too: first the name, then the output key.  If it has none, there are no such
warnings. -/
theorem duplicates_eq_repetitions (w : Workflow) (source : String) :
    w.warnings.filter Event.isDuplicate =
      if (Program.ofWorkflow w source).isOk then
        w.steps.zipIdx.flatMap fun e => e.1.repetitions (w.steps.take e.2) e.2
      else [] := by
  rw [warnings, List.filter_append, filter_clause_warnings, List.nil_append]
  by_cases hsteps : w.steps = []
  · rw [Program.ofWorkflow, hsteps]
    rfl
  · rw [Program.ofWorkflow_of_steps hsteps]
    cases h : Task.ofSteps 0 w.steps with
    | error ps => rfl
    | ok tasks => exact filter_duplicates h

end Workflow

end FlowScript

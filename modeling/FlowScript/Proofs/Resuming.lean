import FlowScript.Proofs.StepLoop

/-!
# Resuming after a failure

`resumed` runs the tasks from a position on and, as long as a task fails, runs those after it.  Each run takes up the
positions where the one before it left off: it fails inside the list or gets to its end (`runFrom_cases`), and what it
has tried are the positions from its start through its stop (`positions_runFrom`).  So the chain comes to an end, and
every position has had exactly one turn (`resumed_spec`).
-/

namespace FlowScript

variable {σ : Type} {exec : Executor σ} {tasks : List Task} {start next : Nat} {s : σ}

/-- The positions that a run has tried: those it completed, and the one that failed. -/
def RunResult.positions (r : RunResult) : List Nat := r.completed.map (·.index) ++ r.failed.toList.map (·.index)

/-! ### One run -/

/-- A run gets to the end, or it fails at a position of the list that is not before its start. -/
theorem runFrom_cases (exec : Executor σ) (tasks : List Task) (start : Nat) (s : σ) :
    let stop := stopAt exec tasks start s
    let result := (runFrom exec tasks start s).1
    (stop = tasks.length ∧ result.success = true ∧ result.failed = none) ∨
      (start ≤ stop ∧ stop < tasks.length ∧ result.success = false ∧ ∃ f, result.failed = some f ∧ f.index = stop) := by
  dsimp only
  rcases failed_runTasks exec tasks start s .initial with ⟨hstop, hsuccess, hfailed⟩ | ⟨t, m, ht, -, hsuccess, hfailed⟩
  · exact .inl ⟨hstop, hsuccess, hfailed⟩
  · right
    obtain ⟨hlt, -⟩ := List.getElem?_eq_some_iff.mp ht
    rcases Nat.le_total start tasks.length with hstart | hstart
    · exact ⟨(stopAt_bounds exec tasks start s).2 hstart, hlt, hsuccess, _, hfailed, rfl⟩
    · rw [stopAt_of_length_le hstart] at hlt
      omega

/-- A run that failed is taken up right after its stop. -/
theorem resumeIndex?_runFrom (exec : Executor σ) (tasks : List Task) (start : Nat) (s : σ) :
    (runFrom exec tasks start s).1.resumeIndex? =
      if stopAt exec tasks start s < tasks.length then some (stopAt exec tasks start s + 1) else none := by
  rcases runFrom_cases exec tasks start s with ⟨hstop, -, hfailed⟩ | ⟨-, hlt, -, f, hfailed, hindex⟩
  · rw [RunResult.resumeIndex?, hfailed, if_neg (by omega)]
    rfl
  · rw [RunResult.resumeIndex?, hfailed, if_pos hlt, ← hindex]
    rfl

theorem resumeIndex?_bounds (h : (runFrom exec tasks start s).1.resumeIndex? = some next) :
    start < next ∧ next ≤ tasks.length := by
  rw [resumeIndex?_runFrom] at h
  rcases runFrom_cases exec tasks start s with ⟨hstop, -⟩ | ⟨hle, hlt, -⟩
  · rw [if_neg (by omega)] at h
    cases h
  · rw [if_pos hlt] at h
    cases h
    omega

/-- A run has tried the positions from its start through its stop. -/
theorem positions_runFrom (exec : Executor σ) (tasks : List Task) (start : Nat) (s : σ) :
    (runFrom exec tasks start s).1.positions =
      List.range' start (min (stopAt exec tasks start s + 1) tasks.length - start) := by
  rw [RunResult.positions, indices_completed_runFrom]
  rcases runFrom_cases exec tasks start s with ⟨hstop, -, hfailed⟩ | ⟨hle, hlt, -, f, hfailed, hindex⟩
  · rw [hfailed, hstop, Nat.min_eq_right (Nat.le_succ _)]
    simp
  · have hlast : start + (stopAt exec tasks start s - start) = stopAt exec tasks start s := by omega
    rw [hfailed, Nat.min_eq_left hlt, Nat.succ_sub hle, List.range'_1_concat, hlast, ← hindex]
    rfl

/-- Noting the calls changes nothing, and the calls are the tasks from the start through the stop. -/
theorem runFrom_logged (exec : Executor σ) (tasks : List Task) (start : Nat) (s : σ) (log : List Task) :
    runFrom (logged exec) tasks start (s, log) =
      ((runFrom exec tasks start s).1, (runFrom exec tasks start s).2,
        log ++ (tasks.take (stopAt exec tasks start s + 1)).drop start) := by
  have hstate := state_runTasks (logged exec) tasks start (s, log) .initial
  rw [stateAt_logged, stopAt_logged, ← state_runTasks exec tasks start s .initial] at hstate
  exact Prod.ext (runTasks_logged exec start (tasks.drop start) .initial s log) hstate

/-! ### The chain of runs -/

/-- Runs the tasks from a position on, and as long as a run fails, goes on where it is to be resumed. -/
def resumed {σ : Type} (exec : Executor σ) (tasks : List Task) (start : Nat) (s : σ) : List RunResult × σ :=
  let run := runFrom exec tasks start s
  match _h : run.1.resumeIndex? with
  | none => ([run.1], run.2)
  | some next =>
    let later := resumed exec tasks next run.2
    (run.1 :: later.1, later.2)
termination_by tasks.length - start
decreasing_by
  have := resumeIndex?_bounds _h
  omega

theorem resumed_of_stopAt_eq (h : stopAt exec tasks start s = tasks.length) :
    resumed exec tasks start s = ([(runFrom exec tasks start s).1], (runFrom exec tasks start s).2) := by
  have hnone : (runFrom exec tasks start s).1.resumeIndex? = none := by
    rw [resumeIndex?_runFrom, if_neg (by omega)]
  rw [resumed]
  split
  · rfl
  · next heq =>
    rw [hnone] at heq
    cases heq

theorem resumed_of_stopAt_lt (h : stopAt exec tasks start s < tasks.length) :
    resumed exec tasks start s =
      ((runFrom exec tasks start s).1 ::
          (resumed exec tasks (stopAt exec tasks start s + 1) (runFrom exec tasks start s).2).1,
        (resumed exec tasks (stopAt exec tasks start s + 1) (runFrom exec tasks start s).2).2) := by
  have hsome : (runFrom exec tasks start s).1.resumeIndex? = some (stopAt exec tasks start s + 1) := by
    rw [resumeIndex?_runFrom, if_pos h]
  rw [resumed]
  split
  · next heq =>
    rw [hsome] at heq
    cases heq
  · next heq =>
    rw [hsome] at heq
    cases heq
    rfl

/-- Induction along a chain: a run gets to the end, or the chain goes on after its stop. -/
theorem resume_induction (exec : Executor σ) (tasks : List Task) {motive : Nat → σ → Prop}
    (done : ∀ start s, stopAt exec tasks start s = tasks.length → motive start s)
    (again : ∀ start s, start ≤ stopAt exec tasks start s → stopAt exec tasks start s < tasks.length →
      motive (stopAt exec tasks start s + 1) (runFrom exec tasks start s).2 → motive start s)
    (start : Nat) (s : σ) : motive start s := by
  induction hn : tasks.length - start using Nat.strongRecOn generalizing start s with
  | ind n ih =>
    rcases runFrom_cases exec tasks start s with ⟨hstop, -⟩ | ⟨hle, hlt, -⟩
    · exact done start s hstop
    · exact again start s hle hlt (ih _ (by omega) _ _ rfl)

/-- The runs of a chain fail one after the other, each at a later position, until one does not. -/
theorem endings_resumed (exec : Executor σ) (tasks : List Task) (start : Nat) (s : σ) :
    ∃ failures ≤ tasks.length - start,
      (resumed exec tasks start s).1.map (fun r => (r.success, r.failed.isSome)) =
        List.replicate failures (false, true) ++ [(true, false)] := by
  induction start, s using resume_induction exec tasks with
  | done start s h =>
    refine ⟨0, Nat.zero_le _, ?_⟩
    rcases runFrom_cases exec tasks start s with ⟨-, hsuccess, hfailed⟩ | ⟨-, hlt, -⟩
    · rw [resumed_of_stopAt_eq h]
      simp [hsuccess, hfailed]
    · omega
  | again start s hle hlt ih =>
    obtain ⟨failures, hfew, hmap⟩ := ih
    refine ⟨failures + 1, by omega, ?_⟩
    rcases runFrom_cases exec tasks start s with ⟨hstop, -⟩ | ⟨-, -, hsuccess, f, hfailed, -⟩
    · omega
    · rw [resumed_of_stopAt_lt hlt, List.map_cons, hmap, hsuccess, hfailed, List.replicate_succ]
      rfl

/-- A chain has tried every position from its start on, each once. -/
theorem positions_resumed (exec : Executor σ) (tasks : List Task) (start : Nat) (s : σ) :
    (resumed exec tasks start s).1.flatMap RunResult.positions = List.range' start (tasks.length - start) := by
  induction start, s using resume_induction exec tasks with
  | done start s h =>
    rw [resumed_of_stopAt_eq h, List.flatMap_singleton, positions_runFrom, h, Nat.min_eq_right (Nat.le_succ _)]
  | again start s hle hlt ih =>
    have hfirst : start + (stopAt exec tasks start s + 1 - start) = stopAt exec tasks start s + 1 := by omega
    have htotal : stopAt exec tasks start s + 1 - start + (tasks.length - (stopAt exec tasks start s + 1)) =
        tasks.length - start := by omega
    rw [resumed_of_stopAt_lt hlt, List.flatMap_cons, ih, positions_runFrom, Nat.min_eq_left hlt, ← htotal,
      ← List.range'_append_1, hfirst]

/-- Over a whole chain the executor is called for every task from the start on, once and in order. -/
theorem resumed_logged (exec : Executor σ) (tasks : List Task) (start : Nat) (s : σ) (log : List Task) :
    resumed (logged exec) tasks start (s, log) =
      ((resumed exec tasks start s).1, (resumed exec tasks start s).2, log ++ tasks.drop start) := by
  induction start, s using resume_induction exec tasks generalizing log with
  | done start s h =>
    rw [resumed_of_stopAt_eq h, resumed_of_stopAt_eq ((stopAt_logged exec tasks start s log).trans h),
      runFrom_logged, h, List.take_of_length_le (Nat.le_succ _)]
  | again start s hle hlt ih =>
    have hstop := stopAt_logged exec tasks start s log
    have hcalls : (tasks.take (stopAt exec tasks start s + 1)).drop start ++
        tasks.drop (stopAt exec tasks start s + 1) = tasks.drop start := by
      rw [← List.drop_append_of_le_length (by rw [List.length_take]; omega), List.take_append_drop]
    rw [resumed_of_stopAt_lt hlt, resumed_of_stopAt_lt (hstop ▸ hlt), hstop, runFrom_logged]
    simp only [ih, List.append_assoc, hcalls]

/-- Resuming neither repeats nor skips a task.  At most as many runs fail as there are tasks, and then one succeeds;
over all of them the executor is called for each task once and in order, and each position is completed by one run or
is where one run failed.  No run is resumed beyond the end of the list. -/
theorem resumed_spec (exec : Executor σ) (tasks : List Task) (s : σ) :
    let runs := (resumed exec tasks 0 s).1
    runs.length ≤ tasks.length + 1 ∧
      (∃ failures ≤ tasks.length, runs.map (fun r => (r.success, r.failed.isSome)) =
        List.replicate failures (false, true) ++ [(true, false)]) ∧
      resumed (logged exec) tasks 0 (s, []) = (runs, (resumed exec tasks 0 s).2, tasks) ∧
      runs.flatMap RunResult.positions = List.range tasks.length ∧
      ∀ start s, (runFrom exec tasks start s).1.resumeIndex? = none ∨
        ∃ next ≤ tasks.length, (runFrom exec tasks start s).1.resumeIndex? = some next := by
  dsimp only
  obtain ⟨failures, hfew, hendings⟩ := endings_resumed exec tasks 0 s
  refine ⟨?_, ⟨failures, hfew, hendings⟩, resumed_logged exec tasks 0 s [], ?_, ?_⟩
  · have hlength := congrArg List.length hendings
    simp only [List.length_map, List.length_append, List.length_replicate, List.length_singleton] at hlength
    omega
  · rw [positions_resumed, Nat.sub_zero, List.range_eq_range']
  · intro start s
    cases hnext : (runFrom exec tasks start s).1.resumeIndex? with
    | none => exact .inl rfl
    | some next => exact .inr ⟨next, (resumeIndex?_bounds hnext).2, rfl⟩

end FlowScript

import FlowScript.Proofs.Fields
import FlowScript.Run.Loop

/-!
# What a run does

Let the tasks from a position on be performed one after the other, whatever comes of them: `stateAt` is the state in
which a position has its turn, `outcomeAt?` what comes of it, and `stopAt` the first position whose task fails.  A run
is this up to `stopAt`.  Its calls, its completed tasks, its failure and its output are read off the positions from
the start to there.

A run that starts at a position is over, or fails there, or goes on at the next position with the next state
(`turn_induction`).
-/

namespace FlowScript

section

variable {σ : Type} (exec : Executor σ) (tasks : List Task) (start : Nat) (s : σ)

/-- The state in which position `i` has its turn, after all tasks from `start` up to it. -/
def stateAt (i : Nat) : σ := ((tasks.take i).drop start).foldl (fun s t => (exec s t).2) s

/-- What comes of the task at position `i` in its turn. -/
def outcomeAt? (i : Nat) : Option Outcome := tasks[i]?.map fun t => (exec (stateAt exec tasks start s i) t).1

def failsAt (i : Nat) : Bool :=
  match outcomeAt? exec tasks start s i with
  | some (.error _) => true
  | _ => false

/-- The first position from `start` on whose task fails in its turn, and the number of tasks if there is none. -/
def stopAt : Nat :=
  ((List.range' start (tasks.length - start)).find? (failsAt exec tasks start s)).getD tasks.length

/-- The task at position `i` gives a value for a key. -/
def Gives (i : Nat) (key : String) (value : Tree) : Prop :=
  ∃ t, tasks[i]? = some t ∧ t.output = some key ∧ outcomeAt? exec tasks start s i = some (.ok (some value))

/-- The tasks at the positions from `start` up to `stop`, each with its position. -/
def visited (stop : Nat) : List (Task × Nat) := (tasks.zipIdx.take stop).drop start

/-- An executor that also notes the tasks it is called for. -/
def logged : Executor (σ × List Task) := fun (s, log) t => ((exec s t).1, (exec s t).2, log ++ [t])

end

variable {σ : Type} {exec : Executor σ} {tasks : List Task} {start stop i : Nat} {s : σ} {t : Task} {r : RunResult}

/-! ### One position -/

theorem stateAt_start : stateAt exec tasks start s start = s := by
  rw [stateAt, List.drop_eq_nil_of_le (List.length_take_le start tasks), List.foldl_nil]

private theorem drop_take_of_lt {α : Type} {l : List α} {a : α} {m n : Nat} (ha : l[m]? = some a) (h : m < n) :
    (l.take n).drop m = a :: (l.take n).drop (m + 1) := by
  obtain ⟨hm, rfl⟩ := List.getElem?_eq_some_iff.mp ha
  have hlen : m < (l.take n).length := by
    rw [List.length_take]
    omega
  rw [List.drop_eq_getElem_cons hlen, List.getElem_take]

/-- The positions after the first one have their turns in the states of a run that starts after it. -/
theorem stateAt_of_lt (ht : tasks[start]? = some t) (h : start < i) :
    stateAt exec tasks start s i = stateAt exec tasks (start + 1) (exec s t).2 i := by
  rw [stateAt, drop_take_of_lt ht h, List.foldl_cons]
  rfl

theorem outcomeAt?_start (ht : tasks[start]? = some t) : outcomeAt? exec tasks start s start = some (exec s t).1 := by
  rw [outcomeAt?, ht, stateAt_start]
  rfl

theorem outcomeAt?_of_lt (ht : tasks[start]? = some t) (h : start < i) :
    outcomeAt? exec tasks start s i = outcomeAt? exec tasks (start + 1) (exec s t).2 i := by
  rw [outcomeAt?, outcomeAt?, stateAt_of_lt ht h]

theorem gives_of_lt (ht : tasks[start]? = some t) (h : start < i) {key : String} {v : Tree} :
    Gives exec tasks start s i key v ↔ Gives exec tasks (start + 1) (exec s t).2 i key v := by
  unfold Gives
  rw [outcomeAt?_of_lt ht h]

theorem gives_start (ht : tasks[start]? = some t) {key : String} {v : Tree} :
    Gives exec tasks start s start key v ↔ t.output = some key ∧ (exec s t).1 = .ok (some v) := by
  unfold Gives
  rw [outcomeAt?_start ht, ht]
  simp

theorem visited_of_le (h : stop ≤ start) : visited tasks start stop = [] := by
  apply List.drop_eq_nil_of_le
  rw [List.length_take]
  omega

theorem visited_of_lt (ht : tasks[start]? = some t) (h : start < stop) :
    visited tasks start stop = (t, start) :: visited tasks (start + 1) stop := by
  apply drop_take_of_lt _ h
  rw [List.getElem?_zipIdx, ht]
  simp

/-! ### Where a run stops -/

theorem stopAt_of_length_le (h : tasks.length ≤ start) : stopAt exec tasks start s = tasks.length := by
  rw [stopAt, Nat.sub_eq_zero_of_le h]
  rfl

private theorem range'_of_getElem? (ht : tasks[start]? = some t) :
    List.range' start (tasks.length - start) = start :: List.range' (start + 1) (tasks.length - (start + 1)) := by
  obtain ⟨hlt, -⟩ := List.getElem?_eq_some_iff.mp ht
  rw [show tasks.length - start = tasks.length - (start + 1) + 1 by omega, List.range'_succ]

theorem stopAt_of_error (ht : tasks[start]? = some t) {message : String} (he : (exec s t).1 = .error message) :
    stopAt exec tasks start s = start := by
  have hfails : failsAt exec tasks start s start = true := by
    rw [failsAt, outcomeAt?_start ht, he]
  rw [stopAt, range'_of_getElem? ht, List.find?_cons_of_pos hfails]
  rfl

theorem stopAt_of_ok (ht : tasks[start]? = some t) {value : Option Tree} (he : (exec s t).1 = .ok value) :
    stopAt exec tasks start s = stopAt exec tasks (start + 1) (exec s t).2 := by
  have hgoes : ¬ failsAt exec tasks start s start = true := by
    rw [failsAt, outcomeAt?_start ht, he]
    simp
  -- the two runs agree on every position after the first one
  have hlater : ∀ i ∈ List.range' (start + 1) (tasks.length - (start + 1)),
      failsAt exec tasks start s i = failsAt exec tasks (start + 1) (exec s t).2 i := by
    intro i hi
    have : start < i := by
      rw [List.mem_range'_1] at hi
      omega
    rw [failsAt, failsAt, outcomeAt?_of_lt ht this]
  rw [stopAt, stopAt, range'_of_getElem? ht, List.find?_cons_of_neg hgoes, ← List.head?_filter,
    List.filter_congr hlater, List.head?_filter]

/-- Induction along a run: it is over, or the task at its position fails, or it goes on at the next one. -/
theorem turn_induction (exec : Executor σ) (tasks : List Task) {motive : Nat → σ → Prop}
    (past : ∀ start s, tasks.length ≤ start → motive start s)
    (fails : ∀ start s t message, tasks[start]? = some t → (exec s t).1 = .error message → motive start s)
    (goes : ∀ start s t value, tasks[start]? = some t → (exec s t).1 = .ok value →
      motive (start + 1) (exec s t).2 → motive start s) (start : Nat) (s : σ) : motive start s := by
  induction hn : tasks.length - start generalizing start s with
  | zero => exact past start s (by omega)
  | succ n ih =>
    have ht : tasks[start]? = some (tasks.get ⟨start, by omega⟩) := List.getElem?_eq_getElem (by omega)
    cases he : (exec s (tasks.get ⟨start, by omega⟩)).1 with
    | error message => exact fails start s _ message ht he
    | ok value => exact goes start s _ value ht he (ih (start + 1) _ (by omega))

/-- A run stops at the end at the latest, and not before its start. -/
theorem stopAt_bounds (exec : Executor σ) (tasks : List Task) (start : Nat) (s : σ) :
    stopAt exec tasks start s ≤ tasks.length ∧ (start ≤ tasks.length → start ≤ stopAt exec tasks start s) := by
  induction start, s using turn_induction exec tasks with
  | past start s h =>
    rw [stopAt_of_length_le h]
    exact ⟨Nat.le_refl _, id⟩
  | fails start s t message ht he =>
    obtain ⟨hlt, -⟩ := List.getElem?_eq_some_iff.mp ht
    rw [stopAt_of_error ht he]
    exact ⟨Nat.le_of_lt hlt, fun _ => Nat.le_refl _⟩
  | goes start s t value ht he ih =>
    obtain ⟨hlt, -⟩ := List.getElem?_eq_some_iff.mp ht
    rw [stopAt_of_ok ht he]
    exact ⟨ih.1, fun _ => Nat.le_of_succ_le (ih.2 hlt)⟩

theorem lt_stopAt_of_ok (ht : tasks[start]? = some t) {value : Option Tree} (he : (exec s t).1 = .ok value) :
    start < stopAt exec tasks start s := by
  obtain ⟨hlt, -⟩ := List.getElem?_eq_some_iff.mp ht
  rw [stopAt_of_ok ht he]
  exact (stopAt_bounds exec tasks (start + 1) _).2 hlt

/-! ### One step of the loop -/

theorem runTasks_of_length_le (h : tasks.length ≤ start) :
    runTasks exec start (tasks.drop start) r s = (r, s) := by
  rw [List.drop_eq_nil_of_le h, runTasks]

private theorem drop_of_getElem? (ht : tasks[start]? = some t) : tasks.drop start = t :: tasks.drop (start + 1) := by
  obtain ⟨hlt, rfl⟩ := List.getElem?_eq_some_iff.mp ht
  exact List.drop_eq_getElem_cons hlt

theorem runTasks_of_error (ht : tasks[start]? = some t) {message : String} (he : (exec s t).1 = .error message) :
    runTasks exec start (tasks.drop start) r s = (r.fail start t message, (exec s t).2) := by
  rw [drop_of_getElem? ht, runTasks]
  split
  · next heq => rw [heq] at he; cases he
  · next heq => rw [heq] at he ⊢; cases he; rfl

theorem runTasks_of_ok (ht : tasks[start]? = some t) {value : Option Tree} (he : (exec s t).1 = .ok value) :
    runTasks exec start (tasks.drop start) r s =
      runTasks exec (start + 1) (tasks.drop (start + 1)) (r.complete start t value) (exec s t).2 := by
  rw [drop_of_getElem? ht, runTasks]
  split
  · next heq => rw [heq] at he ⊢; cases he; rfl
  · next heq => rw [heq] at he; cases he

/-! ### What a run leaves -/

/-- The state after a run is that after its stop. -/
theorem state_runTasks (exec : Executor σ) (tasks : List Task) (start : Nat) (s : σ) (r : RunResult) :
    (runTasks exec start (tasks.drop start) r s).2 =
      stateAt exec tasks start s (stopAt exec tasks start s + 1) := by
  induction start, s using turn_induction exec tasks generalizing r with
  | past start s h =>
    rw [runTasks_of_length_le h, stopAt_of_length_le h, stateAt, List.take_of_length_le (Nat.le_succ _),
      List.drop_eq_nil_of_le h, List.foldl_nil]
  | fails start s t message ht he =>
    rw [runTasks_of_error ht he, stopAt_of_error ht he, stateAt_of_lt ht (Nat.lt_succ_self _), stateAt_start]
  | goes start s t value ht he ih =>
    have hlt := lt_stopAt_of_ok ht he
    rw [runTasks_of_ok ht he, ih, stateAt_of_lt ht (by omega), stopAt_of_ok ht he]

theorem completed_runTasks (exec : Executor σ) (tasks : List Task) (start : Nat) (s : σ) (r : RunResult) :
    (runTasks exec start (tasks.drop start) r s).1.completed =
      r.completed ++ (visited tasks start (stopAt exec tasks start s)).map fun p => ⟨p.2, p.1.name, true⟩ := by
  induction start, s using turn_induction exec tasks generalizing r with
  | past start s h =>
    rw [runTasks_of_length_le h, stopAt_of_length_le h, visited_of_le h, List.map_nil, List.append_nil]
  | fails start s t message ht he =>
    rw [runTasks_of_error ht he, stopAt_of_error ht he, visited_of_le (Nat.le_refl _), List.map_nil, List.append_nil]
    rfl
  | goes start s t value ht he ih =>
    rw [runTasks_of_ok ht he, ih, visited_of_lt ht (lt_stopAt_of_ok ht he), ← stopAt_of_ok ht he]
    simp [RunResult.complete]

theorem positions_visited (h : stop ≤ tasks.length) :
    (visited tasks start stop).map Prod.snd = List.range' start (stop - start) := by
  induction hn : stop - start generalizing start with
  | zero =>
    rw [visited_of_le (by omega)]
    rfl
  | succ n ih =>
    have ht : tasks[start]? = some (tasks.get ⟨start, by omega⟩) := List.getElem?_eq_getElem (by omega)
    rw [visited_of_lt ht (by omega), List.map_cons, ih (by omega), List.range'_succ]

/-- The positions that a run completes are those from its start up to its stop. -/
theorem indices_completed_runFrom (exec : Executor σ) (tasks : List Task) (start : Nat) (s : σ) :
    (runFrom exec tasks start s).1.completed.map (·.index) =
      List.range' start (stopAt exec tasks start s - start) := by
  rw [← positions_visited (stopAt_bounds exec tasks start s).1, runFrom, completed_runTasks]
  simp [RunResult.initial]

/-- A run gets through all its tasks, or the task at its stop has failed. -/
theorem failed_runTasks (exec : Executor σ) (tasks : List Task) (start : Nat) (s : σ) (r : RunResult) :
    let stop := stopAt exec tasks start s
    let out := (runTasks exec start (tasks.drop start) r s).1
    (stop = tasks.length ∧ out.success = r.success ∧ out.failed = r.failed) ∨
      ∃ t message, tasks[stop]? = some t ∧ outcomeAt? exec tasks start s stop = some (.error message) ∧
        out.success = false ∧ out.failed = some ⟨stop, t.name, t.selector?, t.hint, message⟩ := by
  induction start, s using turn_induction exec tasks generalizing r with
  | past start s h =>
    left
    rw [runTasks_of_length_le h, stopAt_of_length_le h]
    exact ⟨rfl, rfl, rfl⟩
  | fails start s t message ht he =>
    right
    rw [runTasks_of_error ht he, stopAt_of_error ht he]
    exact ⟨t, message, ht, by rw [outcomeAt?_start ht, he], rfl, rfl⟩
  | goes start s t value ht he ih =>
    dsimp only
    rw [runTasks_of_ok ht he, outcomeAt?_of_lt ht (lt_stopAt_of_ok ht he), stopAt_of_ok ht he]
    exact ih (r.complete start t value)

/-- No position before `stop` gives a value for the key. -/
def Silent (exec : Executor σ) (tasks : List Task) (start : Nat) (s : σ) (stop : Nat) (key : String) : Prop :=
  ∀ i v, start ≤ i → i < stop → ¬ Gives exec tasks start s i key v

/-- The value is given for the key at some position before `stop`, and no value is given for it after that. -/
def LastValue (exec : Executor σ) (tasks : List Task) (start : Nat) (s : σ) (stop : Nat) (key : String) (v : Tree) :
    Prop :=
  ∃ i, start ≤ i ∧ i < stop ∧ Gives exec tasks start s i key v ∧
    ∀ j w, i < j → j < stop → ¬ Gives exec tasks start s j key w

theorem silent_of_lt (ht : tasks[start]? = some t) (h : start < stop) {key : String} :
    Silent exec tasks start s stop key ↔
      Silent exec tasks (start + 1) (exec s t).2 stop key ∧ ∀ v, ¬ Gives exec tasks start s start key v := by
  constructor
  · intro hs
    refine ⟨?_, fun v => hs start v (Nat.le_refl _) h⟩
    intro i v hi hstop hv
    exact hs i v (Nat.le_of_succ_le hi) hstop ((gives_of_lt ht hi).mpr hv)
  · rintro ⟨hs, hfirst⟩ i v hi hstop hv
    rcases Nat.eq_or_lt_of_le hi with rfl | hi
    · exact hfirst v hv
    · exact hs i v hi hstop ((gives_of_lt ht hi).mp hv)

theorem lastValue_of_lt (ht : tasks[start]? = some t) (h : start < stop) {key : String} {v : Tree} :
    LastValue exec tasks start s stop key v ↔
      LastValue exec tasks (start + 1) (exec s t).2 stop key v ∨
        (Silent exec tasks (start + 1) (exec s t).2 stop key ∧ Gives exec tasks start s start key v) := by
  constructor
  · rintro ⟨i, hi, hstop, hv, hlast⟩
    rcases Nat.eq_or_lt_of_le hi with rfl | hi
    · right
      refine ⟨?_, hv⟩
      intro j w hj hjstop hw
      exact hlast j w hj hjstop ((gives_of_lt ht hj).mpr hw)
    · left
      refine ⟨i, hi, hstop, (gives_of_lt ht hi).mp hv, ?_⟩
      intro j w hj hjstop hw
      exact hlast j w hj hjstop ((gives_of_lt ht (by omega)).mpr hw)
  · rintro (⟨i, hi, hstop, hv, hlast⟩ | ⟨hs, hv⟩)
    · refine ⟨i, Nat.le_of_succ_le hi, hstop, (gives_of_lt ht hi).mpr hv, ?_⟩
      intro j w hj hjstop hw
      exact hlast j w hj hjstop ((gives_of_lt ht (by omega)).mp hw)
    · refine ⟨start, Nat.le_refl _, h, hv, ?_⟩
      intro j w hj hjstop hw
      exact hs j w hj hjstop ((gives_of_lt ht hj).mp hw)

private theorem get?_complete {key : String} {v : Tree} {value : Option Tree} :
    Fields.get? (r.complete start t value).output key = some v ↔
      (t.output = some key ∧ value = some v) ∨
        ((∀ w, ¬ (t.output = some key ∧ value = some w)) ∧ Fields.get? r.output key = some v) := by
  unfold RunResult.complete
  cases ht : t.output with
  | none => simp
  | some k =>
    cases value with
    | none => simp
    | some w =>
      by_cases hk : key = k
      · subst hk
        simp [Fields.get?_put]
      · simp [Fields.get?_put, hk, Ne.symm hk]

/-- Where a run has no turn, nothing is given. -/
private theorem lastValue_or_silent_of_le (h : stop ≤ start) {key : String} {p : Prop} {v : Tree} :
    LastValue exec tasks start s stop key v ∨ (Silent exec tasks start s stop key ∧ p) ↔ p := by
  constructor
  · rintro (⟨i, hi, hstop, -⟩ | ⟨-, hp⟩)
    · omega
    · exact hp
  · intro hp
    exact .inr ⟨fun i w hi hstop => absurd hi (by omega), hp⟩

/-- A key has the last value that was given for it; without one it keeps what it had. -/
theorem get?_output_runTasks (exec : Executor σ) (tasks : List Task) (start : Nat) (s : σ) (r : RunResult)
    (key : String) (v : Tree) :
    Fields.get? (runTasks exec start (tasks.drop start) r s).1.output key = some v ↔
      LastValue exec tasks start s (stopAt exec tasks start s) key v ∨
        (Silent exec tasks start s (stopAt exec tasks start s) key ∧ Fields.get? r.output key = some v) := by
  induction start, s using turn_induction exec tasks generalizing r with
  | past start s h => rw [runTasks_of_length_le h, stopAt_of_length_le h, lastValue_or_silent_of_le h]
  | fails start s t message ht he =>
    rw [runTasks_of_error ht he, stopAt_of_error ht he, lastValue_or_silent_of_le (Nat.le_refl _)]
    rfl
  | goes start s t value ht he ih =>
    have hlt := lt_stopAt_of_ok ht he
    rw [runTasks_of_ok ht he, ih, lastValue_of_lt ht hlt, silent_of_lt ht hlt, get?_complete, ← stopAt_of_ok ht he]
    simp only [gives_start ht, he, Except.ok.injEq]
    rw [and_or_left, or_assoc, and_assoc]

/-- The output of a run has the last value that was given for a key. -/
theorem get?_output_runFrom {key : String} {v : Tree} :
    Fields.get? (runFrom exec tasks start s).1.output key = some v ↔
      LastValue exec tasks start s (stopAt exec tasks start s) key v := by
  rw [runFrom, get?_output_runTasks]
  simp [RunResult.initial, Fields.get?]

/-- Where values are given for a key, one of them is the last. -/
theorem silent_iff_forall_not_lastValue {key : String} :
    Silent exec tasks start s stop key ↔ ∀ v, ¬ LastValue exec tasks start s stop key v := by
  constructor
  · rintro hs v ⟨i, hi, hstop, hv, -⟩
    exact hs i v hi hstop hv
  · intro hnone i v hi hstop hv
    induction hn : stop - i using Nat.strongRecOn generalizing i v with
    | ind n ih =>
      -- a value that is not the last has another one after it, closer to the stop
      refine hnone v ⟨i, hi, hstop, hv, fun j w hij hj hw => ?_⟩
      exact ih (stop - j) (by omega) j w (by omega) hj hw rfl

theorem get?_output_runFrom_eq_none {key : String} :
    Fields.get? (runFrom exec tasks start s).1.output key = none ↔
      Silent exec tasks start s (stopAt exec tasks start s) key := by
  simp only [silent_iff_forall_not_lastValue, Option.eq_none_iff_forall_ne_some, ne_eq, get?_output_runFrom]

theorem ascending_output_runTasks (exec : Executor σ) (tasks : List Task) (start : Nat) (s : σ) (r : RunResult)
    (h : r.output.Ascending) : (runTasks exec start (tasks.drop start) r s).1.output.Ascending := by
  induction start, s using turn_induction exec tasks generalizing r with
  | past start s hlen =>
    rw [runTasks_of_length_le hlen]
    exact h
  | fails start s t message ht he =>
    rw [runTasks_of_error ht he]
    exact h
  | goes start s t value ht he ih =>
    rw [runTasks_of_ok ht he]
    apply ih
    unfold RunResult.complete
    dsimp only
    split
    · exact h.put _ _
    · exact h

/-! ### Noting the calls -/

/-- Noting calls does not change the result. -/
theorem runTasks_logged (exec : Executor σ) (position : Nat) (ts : List Task) (r : RunResult) (s : σ)
    (log : List Task) :
    (runTasks (logged exec) position ts r (s, log)).1 = (runTasks exec position ts r s).1 := by
  induction ts generalizing position r s log with
  | nil => rfl
  | cons t ts ih =>
    unfold runTasks
    cases he : exec s t with
    | mk outcome s' =>
      cases outcome with
      | error message => simp [logged, he]
      | ok value => simpa [logged, he] using ih (position + 1) (r.complete position t value) s' (log ++ [t])

theorem stateAt_logged (exec : Executor σ) (tasks : List Task) (start i : Nat) (s : σ) (log : List Task) :
    stateAt (logged exec) tasks start (s, log) i =
      (stateAt exec tasks start s i, log ++ (tasks.take i).drop start) := by
  unfold stateAt
  induction (tasks.take i).drop start generalizing s log with
  | nil => simp
  | cons t ts ih =>
    rw [List.foldl_cons, List.foldl_cons, logged, ih, List.append_assoc, List.singleton_append]

theorem stopAt_logged (exec : Executor σ) (tasks : List Task) (start : Nat) (s : σ) (log : List Task) :
    stopAt (logged exec) tasks start (s, log) = stopAt exec tasks start s := by
  have : failsAt (logged exec) tasks start (s, log) = failsAt exec tasks start s := by
    funext i
    simp [failsAt, outcomeAt?, stateAt_logged, logged]
  rw [stopAt, stopAt, this]

/-- The loop as a whole.  The tasks from the start to the stop are performed, each once and in order; those before the
stop are completed, and the task at the stop is the one that failed, if the stop is not the end.  The output has the
last value that was given for each key, and nothing else. -/
theorem runFrom_spec (exec : Executor σ) (tasks : List Task) (start : Nat) (s : σ) :
    let stop := stopAt exec tasks start s
    let result := (runFrom exec tasks start s).1
    let last := stateAt exec tasks start s (stop + 1)
    (runFrom exec tasks start s).2 = last ∧
      runFrom (logged exec) tasks start (s, []) = (result, last, (tasks.take (stop + 1)).drop start) ∧
      result.completed = (visited tasks start stop).map (fun p => ⟨p.2, p.1.name, true⟩) ∧
      ((stop = tasks.length ∧ result.success = true ∧ result.failed = none) ∨
        ∃ t message, tasks[stop]? = some t ∧ outcomeAt? exec tasks start s stop = some (.error message) ∧
          result.success = false ∧ result.failed = some ⟨stop, t.name, t.selector?, t.hint, message⟩) ∧
      result.output.Ascending ∧
      ∀ key v, (key, v) ∈ result.output ↔ LastValue exec tasks start s stop key v := by
  dsimp only
  have hasc : (runFrom exec tasks start s).1.output.Ascending :=
    ascending_output_runTasks exec tasks start s .initial .nil
  refine ⟨state_runTasks exec tasks start s .initial, ?_, ?_, failed_runTasks exec tasks start s .initial, hasc, ?_⟩
  · -- the log is part of the state of an executor, so it is known where the loop leaves that
    have hstate := state_runTasks (logged exec) tasks start (s, []) .initial
    rw [stateAt_logged, stopAt_logged, List.nil_append] at hstate
    exact Prod.ext (runTasks_logged exec start (tasks.drop start) .initial s []) hstate
  · exact (completed_runTasks exec tasks start s .initial).trans (List.nil_append _)
  · intro key v
    rw [hasc.mem_iff, runFrom, get?_output_runTasks]
    simp [RunResult.initial, Fields.get?]

end FlowScript

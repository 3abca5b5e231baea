import FlowScript.Proofs.Lowering
import FlowScript.Proofs.StepLoop

/-!
# Output keys

A value that a task gives for its output key is lost if a later task gives a value for the same key.  Before a program
runs, its workflow is warned of every key that occurs twice.  The two belong together: there is no such warning iff no
run, with whatever executor and from wherever it starts, loses a value (`no_duplicateOutput_iff`).  Both say that the
tasks have distinct keys (`Task.DistinctOutputs`).
-/

namespace FlowScript

namespace Task

/-- No two tasks have the same output key. -/
def DistinctOutputs (tasks : List Task) : Prop := tasks.Pairwise fun t u => ∀ key ∈ t.output, key ∉ u.output

theorem distinctOutputs_cons {t : Task} {tasks : List Task} :
    DistinctOutputs (t :: tasks) ↔ (∀ u ∈ tasks, ∀ key ∈ t.output, key ∉ u.output) ∧ DistinctOutputs tasks :=
  List.pairwise_cons

/-! ### Warnings -/

/-- A key is warned of at a task if it came before, and its own key is one that came before for the tasks after it. -/
theorem duplicateOutput_mem_cons {names outputs : List String} {t : Task} {tasks : List Task} {position : Nat}
    {key : String} :
    Event.duplicateOutput position key ∈ duplicates names outputs (t :: tasks) ↔
      (t.index = position ∧ t.output = some key ∧ key ∈ outputs) ∨
        Event.duplicateOutput position key ∈ duplicates (t.name :: names) (t.output.toList ++ outputs) tasks := by
  rw [duplicates]
  cases t.output with
  | none => simp
  | some k =>
    by_cases hk : k = key
    · subst hk
      simp [eq_comm, and_comm]
    · have hk' : key ≠ k := fun h => hk h.symm
      simp [hk, hk']

/-- Nothing is said of output keys iff the tasks have distinct ones, and none that came before. -/
theorem duplicateOutput_not_mem {names outputs : List String} {tasks : List Task} :
    (∀ position key, Event.duplicateOutput position key ∉ duplicates names outputs tasks) ↔
      DistinctOutputs tasks ∧ ∀ t ∈ tasks, ∀ key ∈ t.output, key ∉ outputs := by
  induction tasks generalizing names outputs with
  | nil => simp [duplicates, DistinctOutputs]
  | cons t tasks ih =>
    have hsplit : (∀ position key, Event.duplicateOutput position key ∉ duplicates names outputs (t :: tasks)) ↔
        (∀ key ∈ t.output, key ∉ outputs) ∧ ∀ position key, Event.duplicateOutput position key ∉
          duplicates (t.name :: names) (t.output.toList ++ outputs) tasks := by
      simp only [duplicateOutput_mem_cons, not_or]
      constructor
      · intro h
        exact ⟨fun key hkey hseen => (h t.index key).1 ⟨rfl, hkey, hseen⟩, fun position key => (h position key).2⟩
      · rintro ⟨hhead, htail⟩ position key
        exact ⟨fun hseen => hhead key hseen.2.1 hseen.2.2, htail position key⟩
    rw [hsplit, ih, distinctOutputs_cons]
    constructor
    · rintro ⟨hhead, hdistinct, hfresh⟩
      refine ⟨⟨fun u hu key hkey hkey' => ?_, hdistinct⟩, ?_⟩
      · exact hfresh u hu key hkey' (List.mem_append_left _ (Option.mem_toList.mpr hkey))
      · intro u hu key hkey hseen
        rcases List.mem_cons.mp hu with rfl | hu
        · exact hhead key hkey hseen
        · exact hfresh u hu key hkey (List.mem_append_right _ hseen)
    · rintro ⟨⟨hothers, hdistinct⟩, hfresh⟩
      refine ⟨hfresh t List.mem_cons_self, hdistinct, ?_⟩
      intro u hu key hkey hseen
      rcases List.mem_append.mp hseen with hseen | hseen
      · exact hothers u hu key (Option.mem_toList.mp hseen) hkey
      · exact hfresh u (List.mem_cons_of_mem t hu) key hkey hseen

end Task

/-- What else a workflow is warned of has nothing to do with output keys. -/
theorem Workflow.duplicateOutput_mem_warnings {w : Workflow} {tasks : List Task} (h : Task.ofSteps 0 w.steps = .ok tasks)
    {position : Nat} {key : String} :
    Event.duplicateOutput position key ∈ w.warnings ↔
      Event.duplicateOutput position key ∈ Task.duplicates [] [] tasks := by
  have hsteps : Event.duplicateOutput position key ∉ w.steps.flatMap Step.warnings := by
    intro hmem
    obtain ⟨s, -, hs⟩ := List.mem_flatMap.mp hmem
    unfold Step.warnings WhenClause.warnings at hs
    split at hs
    · split at hs
      · split at hs <;> simp at hs
      · cases hs
    · cases hs
  rw [Workflow.warnings, h, List.mem_append]
  exact ⟨fun hmem => hmem.resolve_left hsteps, .inr⟩

theorem Program.ofSteps_of_ofWorkflow {w : Workflow} {source : String} {p : Program}
    (h : Program.ofWorkflow w source = .ok p) : Task.ofSteps 0 w.steps = .ok p.tasks := by
  unfold Program.ofWorkflow at h
  split at h
  · cases h
  · split at h
    · next tasks htasks =>
      cases h
      exact htasks
    · cases h

/-! ### Runs -/

/-- In every run, a value that a completed task has given for its key is there in the end. -/
def KeepsOutputs (tasks : List Task) : Prop :=
  ∀ (σ : Type) (exec : Executor σ) (start : Nat) (s : σ) (c : Completed) (key : String) (v : Tree),
    c ∈ (runFrom exec tasks start s).1.completed → Gives exec tasks start s c.index key v →
      Fields.get? (runFrom exec tasks start s).1.output key = some v

theorem Task.DistinctOutputs.keepsOutputs {tasks : List Task} (h : DistinctOutputs tasks) : KeepsOutputs tasks := by
  intro σ exec start s c key v hc hgives
  have hindex : c.index ∈ List.range' start (stopAt exec tasks start s - start) := by
    rw [← indices_completed_runFrom]
    exact List.mem_map_of_mem hc
  rw [List.mem_range'_1] at hindex
  rw [get?_output_runFrom]
  refine ⟨c.index, hindex.1, by omega, hgives, ?_⟩
  -- a later task with a value for the key would have the same key
  intro j w hlt hj hlater
  obtain ⟨t, ht, hkey, -⟩ := hgives
  obtain ⟨u, hu, hkey', -⟩ := hlater
  obtain ⟨hi, rfl⟩ := List.getElem?_eq_some_iff.mp ht
  obtain ⟨hj, rfl⟩ := List.getElem?_eq_some_iff.mp hu
  exact List.pairwise_iff_getElem.mp h c.index j hi hj hlt key hkey hkey'

/-- An executor under which every task gives the number of the tasks before it. -/
def counting : Executor Nat := fun n _ => (.ok (some (.nat n)), n + 1)

theorem stateAt_counting (tasks : List Task) (i : Nat) : stateAt counting tasks 0 0 i = (tasks.take i).length := by
  have hcount : ∀ (ts : List Task) (n : Nat), ts.foldl (fun s t => (counting s t).2) n = n + ts.length := by
    intro ts
    induction ts with
    | nil => exact fun n => rfl
    | cons t ts ih =>
      intro n
      rw [List.foldl_cons, ih, List.length_cons]
      simp only [counting]
      omega
  rw [stateAt, List.drop_zero, hcount, Nat.zero_add]

theorem stopAt_counting (tasks : List Task) (start n : Nat) : stopAt counting tasks start n = tasks.length := by
  induction start, n using turn_induction counting tasks with
  | past start n h => exact stopAt_of_length_le h
  | fails start n t message ht he => cases he
  | goes start n t value ht he ih => rw [stopAt_of_ok ht he, ih]

/-- If no run loses a value, the run that counts its tasks loses none, so no key stands twice. -/
theorem KeepsOutputs.distinctOutputs {tasks : List Task} (h : KeepsOutputs tasks) : Task.DistinctOutputs tasks := by
  have hkept : ∀ i (hi : i < tasks.length) key, key ∈ tasks[i].output →
      Fields.get? (runFrom counting tasks 0 0).1.output key = some (.nat i) := by
    intro i hi key hkey
    have hgives : Gives counting tasks 0 0 i key (.nat i) := by
      refine ⟨tasks[i], List.getElem?_eq_getElem hi, hkey, ?_⟩
      rw [outcomeAt?, List.getElem?_eq_getElem hi, stateAt_counting, List.length_take, Nat.min_eq_left (by omega)]
      rfl
    have hindex : i ∈ (runFrom counting tasks 0 0).1.completed.map (·.index) := by
      rw [indices_completed_runFrom, stopAt_counting, List.mem_range'_1]
      omega
    obtain ⟨c, hc, rfl⟩ := List.mem_map.mp hindex
    exact h Nat counting 0 0 c key (.nat c.index) hc hgives
  refine List.pairwise_iff_getElem.mpr ?_
  intro i j hi hj hlt key hkey hkey'
  have hsame := (hkept i hi key hkey).symm.trans (hkept j hj key hkey')
  simp only [Tree.nat, Option.some.injEq, Tree.num.injEq, Number.int.injEq] at hsame
  omega

/-- A workflow is not warned of its output keys iff no run of its program can lose a value. -/
theorem no_duplicateOutput_iff {w : Workflow} {source : String} {p : Program}
    (h : Program.ofWorkflow w source = .ok p) :
    (∀ position key, Event.duplicateOutput position key ∉ w.warnings) ↔ KeepsOutputs p.tasks := by
  have hsteps := Program.ofSteps_of_ofWorkflow h
  have hwarnings : (∀ position key, Event.duplicateOutput position key ∉ w.warnings) ↔
      Task.DistinctOutputs p.tasks := by
    simp only [Workflow.duplicateOutput_mem_warnings hsteps, Task.duplicateOutput_not_mem]
    simp
  rw [hwarnings]
  exact ⟨Task.DistinctOutputs.keepsOutputs, KeepsOutputs.distinctOutputs⟩

/-- Two steps that read a title, the second after a click on the way. -/
def twoTitles : Workflow :=
  ⟨"titles", none, [
    { Step.plain "first" "playwright_code" with code := some "return page.title();", output := some "title" },
    { Step.plain "go" "click" with selector := some "#go" },
    { Step.plain "second" "playwright_code" with code := some "return page.title();", output := some "title" }]⟩

def twoTitlesTasks : List Task := [
  ⟨0, "first", .rawCode "return page.title();", none, some "title", none⟩,
  ⟨1, "go", .click "#go", none, none, none⟩,
  ⟨2, "second", .rawCode "return page.title();", none, some "title", none⟩]

theorem no_duplicateOutput_iff_twoTitles :
    Program.ofWorkflow twoTitles "titles.yaml" = .ok ⟨⟨"titles", "titles.yaml", none⟩, twoTitlesTasks⟩ ∧
      ¬ KeepsOutputs twoTitlesTasks := by
  have hp : Program.ofWorkflow twoTitles "titles.yaml" = .ok ⟨⟨"titles", "titles.yaml", none⟩, twoTitlesTasks⟩ := rfl
  refine ⟨hp, fun hkeeps => ?_⟩
  have hwarned : Event.duplicateOutput 2 "title" ∈ twoTitles.warnings := by decide
  exact (no_duplicateOutput_iff hp).mpr hkeeps 2 "title" hwarned

end FlowScript

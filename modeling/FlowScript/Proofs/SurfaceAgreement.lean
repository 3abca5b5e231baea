import FlowScript.Proofs.Lowering
import FlowScript.Surface
import Mathlib.Data.List.Forall2

/-!
# The surfaces agree

A host can have a text validated or compiled.  `Surface.Answers` lists what the two surfaces say to one text, by how far
the text gets; with any schema, they never say anything else (`Surface.answers`).  From this list follows how their
answers belong together (`Surface.Agree`, `Surface.agree_validate_compile`): both reject the same texts with the same
problems, and a text that is valid is compiled or fails at a later stage.
-/

namespace FlowScript

/-! ### The problems of workflows -/

/-- A problem that keeps a workflow from becoming a program. -/
def Problem.InWorkflow (p : Problem) : Prop := p.phase = .lower ∧ p.code ∈ ["L001", "L002", "L003", "L004", "L005"]

theorem ActionFault.inWorkflow (f : ActionFault) (index : Nat) : (f.problem index).InWorkflow := by
  refine ⟨rfl, ?_⟩
  change f.code ∈ _
  cases f <;> simp [code]

theorem GuardFault.inWorkflow (f : GuardFault) (index : Nat) : (f.problem.atStep index).InWorkflow := by
  refine ⟨rfl, ?_⟩
  change f.code ∈ _
  cases f <;> simp [code]

namespace Task

theorem inWorkflow_of_mem_problemsAt {index : Nat} {s : Step} {p : Problem} (h : p ∈ problemsAt index s) :
    p.InWorkflow := by
  unfold problemsAt ofStep at h
  split at h
  · cases h
  · next heq =>
    split at heq
    · cases heq
    · cases heq
      obtain rfl := List.mem_singleton.mp h
      exact ActionFault.inWorkflow _ _
    · cases heq
      obtain rfl := List.mem_singleton.mp h
      exact GuardFault.inWorkflow _ _
    · cases heq
      rcases List.mem_pair.mp h with rfl | rfl
      · exact ActionFault.inWorkflow _ _
      · exact GuardFault.inWorkflow _ _

end Task

theorem Program.inWorkflow_of_ofWorkflow {w : Workflow} {source : String} {ps : List Problem}
    (h : ofWorkflow w source = .error ps) : ps ≠ [] ∧ ∀ p ∈ ps, p.InWorkflow := by
  unfold ofWorkflow at h
  split at h
  · cases h
    refine ⟨by simp, ?_⟩
    intro p hp
    obtain rfl := List.mem_singleton.mp hp
    exact ⟨rfl, by decide⟩
  · rcases Task.ofSteps_cases 0 w.steps with ⟨-, tasks, hok, -⟩ | ⟨hne, herror⟩
    · rw [hok] at h
      cases h
    · rw [herror] at h
      cases h
      refine ⟨hne, ?_⟩
      intro p hp
      obtain ⟨s, -, hs⟩ := List.mem_flatMap.mp hp
      exact Task.inWorkflow_of_mem_problemsAt hs

namespace Surface

/-! ### What the surfaces answer -/

/-- What the two surfaces say to one text. -/
inductive Answers : Validation → Compilation → Prop where
  | malformed (detail : Option String) :
      Answers ⟨false, [.ofProblem (.malformedText detail)]⟩ (.errors [.ofProblem (.malformedText detail)])
  | rejected (vs : List Violation) : vs ≠ [] →
      Answers ⟨false, vs.map .ofViolation⟩ (.errors ((vs.map Violation.problem).map .ofProblem))
  | misread (e : DecodeError) : Answers ⟨true, []⟩ (.errors [.ofProblem (.wrongShape e)])
  | refused (ps : List Problem) : ps ≠ [] → (∀ p ∈ ps, p.InWorkflow) →
      Answers ⟨true, []⟩ (.errors (ps.map .ofProblem))
  | compiled (program : Compiled) : Answers ⟨true, []⟩ (.success program)

theorem answers (text : String) (source : Option String) (schema : SchemaDocument) (complaint : Complaint) :
    Answers (validate text schema complaint) (compile text source schema complaint) := by
  unfold validate compile validateText compileText readDocument
  cases Tree.ofYaml? text with
  | none => exact .malformed (complaint text)
  | some document =>
    simp only [bind, Except.bind, pure, Except.pure, compileTree]
    cases FlowScript.validate document schema with
    | cons v vs => exact .rejected (v :: vs) (List.cons_ne_nil v vs)
    | nil =>
      unfold readWorkflow
      cases Workflow.decode document with
      | error e => exact .misread e
      | ok w =>
        cases hp : Program.ofWorkflow w (source.getD inlineSource) with
        | error ps =>
          obtain ⟨hne, hps⟩ := Program.inWorkflow_of_ofWorkflow hp
          simpa [hp] using Answers.refused ps hne hps
        | ok p => simpa [hp] using Answers.compiled ⟨p.header.workflow, p.tasks.length, p.script⟩

/-! ### How the answers belong together -/

/-- At least one notice, and all of one phase. -/
def OnePhase (ns : List Notice) : Prop := ns ≠ [] ∧ ∃ phase, ∀ n ∈ ns, n.problem.phase = phase

/-- A violation as the two surfaces tell it: only validation names the keyword. -/
def SameViolation (a b : Notice) : Prop := a.problem = b.problem ∧ a.keyword.isSome = true ∧ b.keyword = none

/-- How the answers of the two surfaces to one text belong together. -/
structure Agree (v : Validation) (c : Compilation) : Prop where
  /-- A text that is malformed has this one problem on both surfaces. -/
  malformed (n : Notice) (hn : n.problem.code = "P001") : v.valid = false ∧ n ∈ v.errors ↔ c = .errors [n]
  /-- Both find violations, or none of them does. -/
  rejected : (v.valid = false ∧ ∀ n ∈ v.errors, n.problem.code = "S001") ↔
    ∃ ns, c = .errors ns ∧ ∀ n ∈ ns, n.problem.phase = .validate
  /-- The violations are the same, one by one. -/
  sameViolations (ns : List Notice) (hc : c = .errors ns) (hns : ∀ n ∈ ns, n.problem.phase = .validate) :
    List.Forall₂ SameViolation v.errors ns
  /-- A valid text is compiled, or fails after the schema was asked. -/
  accepted : (v.valid = true ∧ v.errors = []) ↔
    (∃ program, c = .success program) ∨
      ∃ ns, c = .errors ns ∧ ∀ n ∈ ns, n.problem.code = "P002" ∨ n.problem.phase = .lower
  valid_iff : v.valid = true ↔ v.errors = []
  onePhase_validation (hv : v.valid = false) : OnePhase v.errors
  onePhase_compilation (ns : List Notice) (hc : c = .errors ns) : OnePhase ns

private theorem agree_malformed (detail : Option String) :
    Agree ⟨false, [.ofProblem (.malformedText detail)]⟩ (.errors [.ofProblem (.malformedText detail)]) := by
  have hphase : OnePhase [.ofProblem (.malformedText detail)] := ⟨List.cons_ne_nil _ _, .parse, by simp; rfl⟩
  have hmem := List.mem_singleton_self (Notice.ofProblem (.malformedText detail))
  have hcode : (Notice.ofProblem (.malformedText detail)).problem.code = "P001" := rfl
  have hparse : (Notice.ofProblem (.malformedText detail)).problem.phase = .parse := rfl
  refine ⟨?_, ⟨?_, ?_⟩, ?_, ⟨?_, ?_⟩, by simp, fun _ => hphase, ?_⟩
  · intro n _
    simp [eq_comm]
  · rintro ⟨-, h⟩
    exact absurd (h _ hmem) (by simp [hcode])
  · rintro ⟨ns, ⟨⟩, h⟩
    exact absurd (h _ hmem) (by simp [hparse])
  · rintro ns ⟨⟩ h
    exact absurd (h _ hmem) (by simp [hparse])
  · rintro ⟨⟨⟩, -⟩
  · rintro (⟨p, ⟨⟩⟩ | ⟨ns, ⟨⟩, h⟩)
    exact absurd (h _ hmem) (by simp [hcode, hparse])
  · rintro ns ⟨⟩
    exact hphase

private theorem agree_rejected {vs : List Violation} (hne : vs ≠ []) :
    Agree ⟨false, vs.map .ofViolation⟩ (.errors ((vs.map Violation.problem).map .ofProblem)) := by
  have hv : ∀ n ∈ vs.map Notice.ofViolation, n.problem.code = "S001" ∧ n.problem.phase = .validate := by
    intro n hn
    obtain ⟨w, -, rfl⟩ := List.mem_map.mp hn
    exact ⟨rfl, rfl⟩
  have hc : ∀ n ∈ (vs.map Violation.problem).map Notice.ofProblem,
      n.problem.code = "S001" ∧ n.problem.phase = .validate := by
    simp only [List.map_map]
    intro n hn
    obtain ⟨w, -, rfl⟩ := List.mem_map.mp hn
    exact ⟨rfl, rfl⟩
  refine ⟨?_, ⟨?_, ?_⟩, ?_, ⟨?_, ?_⟩, by simp [hne], ?_, ?_⟩
  · intro n hn
    constructor
    · rintro ⟨-, hmem⟩
      have hcode := (hv n hmem).1
      rw [hn] at hcode
      exact absurd hcode (by decide)
    · intro h
      have hcode := (hc n (by rw [Compilation.errors.inj h]; exact List.mem_singleton_self n)).1
      rw [hn] at hcode
      exact absurd hcode (by decide)
  · intro _
    exact ⟨_, rfl, fun n hn => (hc n hn).2⟩
  · intro _
    exact ⟨rfl, fun n hn => (hv n hn).1⟩
  · rintro ns ⟨⟩ -
    rw [List.map_map, List.forall₂_map_left_iff, List.forall₂_map_right_iff, List.forall₂_same]
    intro w _
    exact ⟨rfl, rfl, rfl⟩
  · rintro ⟨⟨⟩, -⟩
  · rintro (⟨p, ⟨⟩⟩ | ⟨ns, ⟨⟩, h⟩)
    obtain ⟨n, hn⟩ := List.exists_mem_of_ne_nil ((vs.map Violation.problem).map Notice.ofProblem) (by simpa using hne)
    obtain ⟨hcode, hphase⟩ := hc n hn
    have hn' := h n hn
    rw [hcode, hphase] at hn'
    exact absurd hn' (by decide)
  · intro _
    exact ⟨by simpa using hne, .validate, fun n hn => (hv n hn).2⟩
  · rintro ns ⟨⟩
    exact ⟨by simpa using hne, .validate, fun n hn => (hc n hn).2⟩

/-- A problem of an accepted document: it is not read as a workflow, or the workflow has no program. -/
def IsLate (p : Problem) : Prop := p.code = "P002" ∧ p.phase = .parse ∨ p.InWorkflow

private theorem IsLate.code_ne {p : Problem} (h : IsLate p) : p.code ≠ "P001" := by
  rcases h with ⟨hcode, -⟩ | ⟨-, hcode⟩
  · simp [hcode]
  · rintro heq
    rw [heq] at hcode
    exact absurd hcode (by decide)

private theorem IsLate.phase_ne {p : Problem} (h : IsLate p) : p.phase ≠ .validate := by
  rcases h with ⟨-, hphase⟩ | ⟨hphase, -⟩
  · simp [hphase]
  · simp [hphase]

private theorem agree_late {ns : List Notice} (hone : OnePhase ns) (hlate : ∀ n ∈ ns, IsLate n.problem) :
    Agree ⟨true, []⟩ (.errors ns) := by
  obtain ⟨m, hm⟩ := List.exists_mem_of_ne_nil ns hone.1
  refine ⟨?_, ⟨?_, ?_⟩, ?_, ⟨?_, ?_⟩, by simp, ?_, ?_⟩
  · intro n hn
    constructor
    · rintro ⟨⟨⟩, -⟩
    · rintro ⟨⟩
      exact absurd hn (hlate n (List.mem_singleton_self n)).code_ne
  · rintro ⟨⟨⟩, -⟩
  · rintro ⟨_, ⟨⟩, h⟩
    exact absurd (h m hm) (hlate m hm).phase_ne
  · rintro _ ⟨⟩ h
    exact absurd (h m hm) (hlate m hm).phase_ne
  · intro _
    refine .inr ⟨ns, rfl, ?_⟩
    intro n hn
    rcases hlate n hn with ⟨hcode, -⟩ | ⟨hphase, -⟩
    · exact .inl hcode
    · exact .inr hphase
  · intro _
    exact ⟨rfl, rfl⟩
  · rintro ⟨⟩
  · rintro _ ⟨⟩
    exact hone

private theorem agree_compiled (program : Compiled) : Agree ⟨true, []⟩ (.success program) where
  malformed _ _ := by simp
  rejected := by simp
  sameViolations _ hc := by cases hc
  accepted := by simp
  valid_iff := by simp
  onePhase_validation hv := by cases hv
  onePhase_compilation _ hc := by cases hc

theorem Answers.agree {v : Validation} {c : Compilation} (h : Answers v c) : Agree v c := by
  cases h with
  | malformed detail => exact agree_malformed detail
  | rejected vs hne => exact agree_rejected hne
  | misread e =>
    refine agree_late ⟨List.cons_ne_nil _ _, .parse, ?_⟩ ?_
    · simp only [List.forall_mem_singleton]
      rfl
    · simp only [List.forall_mem_singleton]
      exact .inl ⟨rfl, rfl⟩
  | refused ps hne hps =>
    have hps' : ∀ n ∈ ps.map Notice.ofProblem, n.problem.InWorkflow := by
      intro n hn
      obtain ⟨p, hp, rfl⟩ := List.mem_map.mp hn
      exact hps p hp
    exact agree_late ⟨by simpa using hne, .lower, fun n hn => (hps' n hn).1⟩ fun n hn => .inr (hps' n hn)
  | compiled program => exact agree_compiled program

/-- With one schema, the two surfaces agree on every text, whatever its source is called and whatever is said about a
text that is malformed. -/
theorem agree_validate_compile (text : String) (source : Option String) (schema : SchemaDocument)
    (complaint : Complaint) : Agree (validate text schema complaint) (compile text source schema complaint) :=
  (answers text source schema complaint).agree

end Surface

end FlowScript

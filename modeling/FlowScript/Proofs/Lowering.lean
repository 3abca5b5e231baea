import FlowScript.Program.OfWorkflow
import FlowScript.Proofs.Decoding

/-!
# Steps and their problems

`Task.problems` lists the problems of the steps one by one.  A list of steps has tasks iff this list is empty, and
otherwise it is what is reported (`Task.ofSteps_cases`).  A clause of known operators has a guard if it has one of the
two shapes (`Guard.exists_ofWhen`), and is reported with a code of its own if it has not (`Guard.ofWhen_error`).
`Step.HasAction` says which action a step has, field by field.
-/

namespace FlowScript

theorem Comparison.ofSymbol?_symbol (c : Comparison) : ofSymbol? c.symbol = some c := by
  cases c <;> decide

namespace Test

theorem make_symbol (field : String) (c : Comparison) (value : Tree) :
    make field c.symbol value = .ok ⟨field, c, value⟩ := by
  rw [make, Comparison.ofSymbol?_symbol]

theorem exists_ofConditions {cs : List Condition} (h : ∀ c ∈ cs, ∃ k : Comparison, c.op = k.symbol) :
    ∃ ts, ofConditions cs = .ok ts := by
  induction cs with
  | nil => exact ⟨[], rfl⟩
  | cons c cs ih =>
    obtain ⟨k, hk⟩ := h c List.mem_cons_self
    obtain ⟨ts, hts⟩ := ih fun d hd => h d (List.mem_cons_of_mem c hd)
    refine ⟨⟨c.field, k, c.value⟩ :: ts, ?_⟩
    rw [ofConditions, ofCondition, hk, make_symbol, hts]
    rfl

end Test

/-- A clause has exactly one of its two shapes. -/
def WhenClause.OneShape (w : WhenClause) : Prop :=
  (w.field.isSome ∧ w.op.isSome ∧ w.conditions.isNone) ∨ (w.field.isNone ∧ w.op.isNone ∧ w.conditions.isSome)

namespace Guard

/-- A clause of one shape has a guard, if it has conditions and knows its operators. -/
theorem exists_ofWhen {w : WhenClause} (h : w.OneShape) (hop : ∀ op ∈ w.op, ∃ k : Comparison, op = k.symbol)
    (hcs : ∀ cs ∈ w.conditions, cs ≠ [] ∧ ∀ c ∈ cs, ∃ k : Comparison, c.op = k.symbol) :
    ∃ g, ofWhen w = .ok g := by
  obtain ⟨field, op, value, conditions, mode⟩ := w
  rcases h with ⟨hf, ho, hc⟩ | ⟨hf, ho, hc⟩
  · obtain ⟨field, rfl⟩ := Option.isSome_iff_exists.mp hf
    obtain ⟨op, rfl⟩ := Option.isSome_iff_exists.mp ho
    obtain rfl := Option.isNone_iff_eq_none.mp hc
    obtain ⟨k, rfl⟩ := hop op rfl
    exact ⟨⟨[⟨field, k, value.getD .null⟩], .and⟩, by simp only [ofWhen, Test.make_symbol]; rfl⟩
  · obtain rfl := Option.isNone_iff_eq_none.mp hf
    obtain rfl := Option.isNone_iff_eq_none.mp ho
    obtain ⟨cs, rfl⟩ := Option.isSome_iff_exists.mp hc
    obtain ⟨hne, hknown⟩ := hcs cs rfl
    obtain ⟨ts, hts⟩ := Test.exists_ofConditions hknown
    refine ⟨⟨ts, Junction.ofMatch mode⟩, ?_⟩
    simp only [ofWhen, List.isEmpty_iff, hne, if_false, hts]
    rfl

/-- A clause of both shapes, or of none, is not accepted, whatever its operators are. -/
theorem ofWhen_error {w : WhenClause} (h : ¬ w.OneShape) : ∃ f, ofWhen w = .error f ∧ f.code = "L002" := by
  obtain ⟨field, op, value, conditions, mode⟩ := w
  cases field <;> cases op <;> cases conditions <;> simp [WhenClause.OneShape] at h
  case none.none.none => exact ⟨.noShape, rfl, rfl⟩
  case none.some.none => exact ⟨.noShape, rfl, rfl⟩
  case some.none.none => exact ⟨.noShape, rfl, rfl⟩
  case none.some.some => exact ⟨.mixedShapes, rfl, rfl⟩
  case some.none.some => exact ⟨.mixedShapes, rfl, rfl⟩
  case some.some.some => exact ⟨.mixedShapes, rfl, rfl⟩

end Guard

/-- The action of a step: its name, and the fields that it needs. -/
inductive Step.HasAction (s : Step) : Action → Prop where
  | navigate {url : String} : s.action = "navigate" → s.url = some url → HasAction s (.navigate (Expr.ofText url))
  | fill {selector : String} {value : Tree} : s.action = "fill" → s.selector = some selector →
    s.value = some value → HasAction s (.fill selector (Action.fillValue value))
  | click {selector : String} : s.action = "click" → s.selector = some selector → HasAction s (.click selector)
  | press {selector key : String} : s.action = "press" → s.selector = some selector → s.key = some key →
    HasAction s (.press selector key)
  | wait {selector : String} : s.action = "wait" → s.selector = some selector →
    HasAction s (.wait selector (s.timeout.getD Action.defaultWait))
  | rawCode {code : String} : s.action = "playwright_code" → s.code = some code → HasAction s (.rawCode code)

namespace Action

theorem need_eq_ok_iff {α : Type} {s : Step} {field : String} {value : Option α} {a : α} :
    need s field value = .ok a ↔ value = some a := by
  cases value <;> simp [need]

theorem hasAction_of_ofStep {s : Step} {a : Action} (h : ofStep s = .ok a) : s.HasAction a := by
  unfold ofStep at h
  split at h <;>
    simp only [bind_eq_ok_iff, need_eq_ok_iff, pure, Except.pure, Except.ok.injEq, reduceCtorEq] at h
  · next hs =>
    obtain ⟨url, hurl, rfl⟩ := h
    exact .navigate hs hurl
  · next hs =>
    obtain ⟨selector, hselector, value, hvalue, rfl⟩ := h
    exact .fill hs hselector hvalue
  · next hs =>
    obtain ⟨selector, hselector, rfl⟩ := h
    exact .click hs hselector
  · next hs =>
    obtain ⟨selector, hselector, key, hkey, rfl⟩ := h
    exact .press hs hselector hkey
  · next hs =>
    obtain ⟨selector, hselector, rfl⟩ := h
    exact .wait hs hselector
  · next hs =>
    obtain ⟨code, hcode, rfl⟩ := h
    exact .rawCode hs hcode

end Action

namespace Task

/-- The problems of the step at a position. -/
def problemsAt (index : Nat) (s : Step) : List Problem :=
  match ofStep index s with
  | .ok _ => []
  | .error ps => ps

/-- The problems of the steps from a position on. -/
def problems (index : Nat) (steps : List Step) : List Problem :=
  (steps.zipIdx index).flatMap fun p => problemsAt p.2 p.1

theorem problems_cons (index : Nat) (s : Step) (steps : List Step) :
    problems index (s :: steps) = problemsAt index s ++ problems (index + 1) steps := by
  simp [problems]

/-- A step without clause has the task of its action, with the step's own name, output and hint. -/
theorem exists_hasAction_of_ofStep {index : Nat} {s : Step} {t : Task} (hwhen : s.whenClause = none)
    (h : ofStep index s = .ok t) : ∃ a, s.HasAction a ∧ t = ⟨index, s.name, a, none, s.output, s.hint⟩ := by
  rw [ofStep, hwhen, Guard.ofWhen?] at h
  split at h
  · next a g ha hg =>
    cases h
    cases hg
    exact ⟨a, Action.hasAction_of_ofStep ha, rfl⟩
  · cases h
  · cases h
  · cases h

theorem ofStep_ne_error_nil (index : Nat) (s : Step) : ofStep index s ≠ .error [] := by
  unfold ofStep
  split <;> simp

/-- Either every step has its task, or all problems of all steps are reported. -/
theorem ofSteps_cases (index : Nat) (steps : List Step) :
    (problems index steps = [] ∧ ∃ tasks, ofSteps index steps = .ok tasks ∧ tasks.length = steps.length) ∨
      (problems index steps ≠ [] ∧ ofSteps index steps = .error (problems index steps)) := by
  induction steps generalizing index with
  | nil => exact .inl ⟨rfl, [], rfl, rfl⟩
  | cons s steps ih =>
    rw [problems_cons, ofSteps, problemsAt]
    have hne := ofStep_ne_error_nil index s
    cases hs : ofStep index s with
    | ok t =>
      rcases ih (index + 1) with ⟨hnil, tasks, hok, hlen⟩ | ⟨hps, herr⟩
      · left
        exact ⟨hnil, t :: tasks, by rw [hok], by simp [hlen]⟩
      · right
        exact ⟨hps, by rw [herr]; rfl⟩
    | error ps =>
      -- a step without task does not keep the later steps from being looked at
      right
      have hps : ps ≠ [] := fun h => hne (by rw [hs, h])
      rcases ih (index + 1) with ⟨hnil, tasks, hok, -⟩ | ⟨-, herr⟩
      · refine ⟨by simp [hps], ?_⟩
        simp only [hok, hnil, List.append_nil]
      · exact ⟨by simp [hps], by rw [herr]⟩

end Task

end FlowScript

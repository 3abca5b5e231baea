import FlowScript.Proofs.Decoding
import FlowScript.Proofs.Lowering
import FlowScript.Proofs.WorkflowGrammar

/-!
# What becomes of an accepted document

The schema, the reading of definitions and the making of tasks agree on every document that the schema accepts: it is
refused as a definition only for a timeout that is written as a double, and as a program only for clauses that do not
have exactly one shape.  The conditions are said on the document itself (`Tree.HasRealTimeout`, `Tree.misshapen`).
-/

namespace FlowScript

namespace Tree

/-- A step whose timeout is written as a double. -/
def HasRealTimeout (step : Tree) : Prop := ∃ x, step.field? "timeout" = some (.num (.real x))

/-- A clause with a field and an operator but no conditions, or with conditions only. -/
def hasOneShape (clause : Tree) : Bool :=
  let has := fun key => (clause.field? key).isSome
  (has "field" && has "op" && !has "conditions") || (!has "field" && !has "op" && has "conditions")

/-- A step that has no clause, or one of exactly one shape. -/
def isWellShaped (step : Tree) : Bool :=
  match step.field? "when" with
  | some clause => clause.hasOneShape
  | none => true

/-- The positions of the steps whose clause does not have exactly one shape. -/
def misshapen (steps : List Tree) (start : Nat) : List Nat :=
  ((steps.zipIdx start).filter fun p => !p.1.isWellShaped).map (·.2)

theorem misshapen_cons (step : Tree) (steps : List Tree) (start : Nat) :
    misshapen (step :: steps) start =
      (if step.isWellShaped then [] else [start]) ++ misshapen steps (start + 1) := by
  cases h : step.isWellShaped <;> simp [misshapen, h]

end Tree

namespace Grammar

open Fields FlowScript.Tree

/-! ### Values of the grammar can be read -/

private theorem exists_text {v : Tree} (h : v.IsText) : ∃ s, Decode.text v = .ok s := by
  obtain ⟨s, rfl⟩ := h
  exact ⟨s, rfl⟩

private theorem exists_nonEmptyText {v : Tree} (h : v.IsNonEmptyText) : ∃ s, Decode.text v = .ok s := by
  obtain ⟨s, rfl, -⟩ := h
  exact ⟨s, rfl⟩

private theorem exists_operator {v : Tree} (h : v.IsOperator) : ∃ s, Decode.text v = .ok s := by
  obtain ⟨c, rfl⟩ := h
  exact ⟨c.symbol, rfl⟩

/-- A list is read if each of its items is. -/
private theorem exists_items {α : Type} {decode : Decoder α} {ts : List Tree}
    (h : ∀ t ∈ ts, ∃ a, decode t = .ok a) : ∃ as, Decode.items decode ts = .ok as := by
  induction ts with
  | nil => exact ⟨[], rfl⟩
  | cons t ts ih =>
    obtain ⟨a, ha⟩ := h t List.mem_cons_self
    obtain ⟨as, has⟩ := ih fun u hu => h u (List.mem_cons_of_mem t hu)
    exact ⟨a :: as, by rw [Decode.items, ha, has]; rfl⟩

/-- What is read from a list with at least one item is a list of the same kind. -/
theorem exists_of_list {α : Type} {decode : Decoder α} {p : Tree → Prop} {v : Tree} {as : List α}
    (hv : v.IsFilledList p) (h : Decode.list decode v = .ok as) :
    as ≠ [] ∧ ∀ a ∈ as, ∃ t, p t ∧ decode t = .ok a := by
  obtain ⟨ts, rfl, hne, hts⟩ := hv
  constructor
  · rintro rfl
    exact hne (List.map_eq_nil_iff.mp (Decode.items_eq_ok.mp h))
  · intro a ha
    obtain ⟨t, ht, hdecode⟩ := Decode.exists_mem_of_items h ha
    exact ⟨t, hts t ht, hdecode⟩

theorem ConditionFields.exists_decode {fs : Fields} (h : ConditionFields fs) :
    ∃ c, Condition.decode (.obj fs) = .ok c := by
  obtain ⟨v, hv, hf⟩ := h.field
  obtain ⟨w, hw, ho⟩ := h.op
  obtain ⟨field, hfield⟩ := exists_nonEmptyText hf
  obtain ⟨op, hop⟩ := exists_operator ho
  exact ⟨⟨field, op, (get? fs "value").getD .null⟩,
    Condition.decode_obj.mpr ⟨⟨v, hv, hfield⟩, ⟨w, hw, hop⟩, rfl⟩⟩

/-- The operator of a condition that is read is known. -/
theorem ConditionFields.op_known {fs : Fields} (h : ConditionFields fs) {c : Condition}
    (hc : Condition.decode (.obj fs) = .ok c) : ∃ k : Comparison, c.op = k.symbol := by
  obtain ⟨v, hv, hop⟩ := (Condition.decode_obj.mp hc).op
  obtain ⟨w, hw, k, rfl⟩ := h.op
  rw [hv, Option.some.injEq] at hw
  subst hw
  exact ⟨k, (Except.ok.inj hop).symm⟩

theorem WhenFields.exists_decode {fs : Fields} (h : WhenFields fs) : ∃ w, WhenClause.decode (.obj fs) = .ok w := by
  obtain ⟨field, hfield⟩ := h.field.exists_reads Decode.text fun _ => exists_nonEmptyText
  obtain ⟨op, hop⟩ := h.op.exists_reads Decode.text fun _ => exists_operator
  have hany : May fs "value" fun _ => True := fun _ _ => trivial
  obtain ⟨value, hvalue⟩ := hany.exists_reads Decode.tree fun v _ => ⟨v, rfl⟩
  obtain ⟨mode, hmode⟩ := h.matchMode.exists_reads Decode.text fun v hv => by
    rcases hv with rfl | rfl
    · exact ⟨"all", rfl⟩
    · exact ⟨"any", rfl⟩
  obtain ⟨conditions, hconditions⟩ := h.conditions.exists_reads (Decode.list Condition.decode) fun v hv => by
    obtain ⟨ts, rfl, -, hts⟩ := hv
    refine exists_items fun t ht => ?_
    obtain ⟨gs, rfl, hgs⟩ := hts t ht
    exact hgs.exists_decode
  exact ⟨⟨field, op, value, conditions, mode⟩,
    WhenClause.decode_obj.mpr ⟨hfield, hop, hvalue, hconditions, hmode⟩⟩

/-- A clause has one shape iff its object has: null never stands for a missing field. -/
theorem WhenFields.oneShape_iff {fs : Fields} (h : WhenFields fs) {w : WhenClause}
    (hw : WhenClause.decode (.obj fs) = .ok w) : w.OneShape ↔ (Tree.obj fs).hasOneShape = true := by
  have hread := WhenClause.decode_obj.mp hw
  have hf := hread.field.isSome_eq (h.field.ne_null (by simp [IsNonEmptyText]))
  have ho := hread.op.isSome_eq (h.op.ne_null (by simp [IsOperator]))
  have hc := hread.conditions.isSome_eq (h.conditions.ne_null (by simp [IsFilledList]))
  simp only [WhenClause.OneShape, hasOneShape, field?, ← hf, ← ho, ← hc]
  cases w.field <;> cases w.op <;> cases w.conditions <;> simp

/-- The conditions of a clause that is read are some, and their operators are known. -/
theorem WhenFields.conditions_known {fs : Fields} (h : WhenFields fs) {w : WhenClause}
    (hw : WhenClause.decode (.obj fs) = .ok w) {cs : List Condition} (hcs : w.conditions = some cs) :
    cs ≠ [] ∧ ∀ c ∈ cs, ∃ k : Comparison, c.op = k.symbol := by
  have hread := (WhenClause.decode_obj.mp hw).conditions
  rw [hcs] at hread
  obtain ⟨v, hv, hlist⟩ := hread.exists_of_eq_some
  obtain ⟨hne, hcs⟩ := exists_of_list (h.conditions v hv) hlist
  refine ⟨hne, fun c hc => ?_⟩
  obtain ⟨t, ⟨gs, rfl, hgs⟩, hdecode⟩ := hcs c hc
  exact hgs.op_known hdecode

/-- A clause that is read has a guard iff it has one shape, and there is one way to fail. -/
theorem WhenFields.ofWhen {fs : Fields} (h : WhenFields fs) {w : WhenClause}
    (hw : WhenClause.decode (.obj fs) = .ok w) :
    ((Tree.obj fs).hasOneShape = true ∧ ∃ g, Guard.ofWhen w = .ok g) ∨
      ((Tree.obj fs).hasOneShape = false ∧ ∃ f, Guard.ofWhen w = .error f ∧ f.code = "L002") := by
  cases hs : (Tree.obj fs).hasOneShape with
  | true =>
    left
    refine ⟨rfl, Guard.exists_ofWhen ((h.oneShape_iff hw).mpr hs) ?_ ?_⟩
    · intro op hop
      have hread := (WhenClause.decode_obj.mp hw).op
      rw [hop] at hread
      obtain ⟨v, hv, htext⟩ := hread.exists_of_eq_some
      obtain ⟨k, rfl⟩ := h.op v hv
      exact ⟨k, (Except.ok.inj htext).symm⟩
    · intro cs hcs
      exact h.conditions_known hw hcs
  | false =>
    right
    refine ⟨rfl, Guard.ofWhen_error ?_⟩
    rw [h.oneShape_iff hw, hs]
    simp

/-! ### Steps -/

theorem StepFields.exists_decode {fs : Fields} (h : StepFields fs) (hreal : ¬ (Tree.obj fs).HasRealTimeout) :
    ∃ s, Step.decode (.obj fs) = .ok s := by
  obtain ⟨v, hv, hname⟩ := h.name
  obtain ⟨name, hname⟩ := exists_text hname
  obtain ⟨a, -, haction, -⟩ := h.action
  have htext : ∀ key ∈ ["url", "selector", "key", "code", "output", "hint"], ∃ o, Reads fs key Decode.text o :=
    fun key hkey => (h.texts key hkey).exists_reads Decode.text fun _ => exists_text
  obtain ⟨url, hurl⟩ := htext "url" (by simp)
  obtain ⟨selector, hselector⟩ := htext "selector" (by simp)
  obtain ⟨key, hkey⟩ := htext "key" (by simp)
  obtain ⟨code, hcode⟩ := htext "code" (by simp)
  obtain ⟨output, houtput⟩ := htext "output" (by simp)
  obtain ⟨hint, hhint⟩ := htext "hint" (by simp)
  obtain ⟨value, hvalue⟩ := h.value.exists_reads Decode.tree fun v _ => ⟨v, rfl⟩
  obtain ⟨clause, hclause⟩ := h.whenClause.exists_reads WhenClause.decode fun v hv => by
    obtain ⟨gs, rfl, hgs⟩ := hv
    exact hgs.exists_decode
  -- a timeout counts something, so only its being written as a double can keep it from being read
  have hcount : May fs "timeout" fun v => ∃ a, Decode.count v = .ok a := by
    intro v hv
    have hc := h.timeout v hv
    obtain ⟨x, rfl, -⟩ := id hc
    cases x with
    | real y => exact absurd ⟨y, hv⟩ hreal
    | int n => exact ⟨n.toNat, by simp [Decode.count, Decode.nat, isCount_int hc]⟩
  obtain ⟨timeout, htimeout⟩ := hcount.exists_reads Decode.count fun _ hv => hv
  exact ⟨⟨name, a.1, url, selector, value, key, timeout, code, clause, output, hint⟩,
    Step.decode_obj.mpr ⟨⟨v, hv, hname⟩, ⟨.str a.1, haction, rfl⟩, hurl, hselector, hvalue, hkey, htimeout, hcode,
      hclause, houtput, hhint⟩⟩

/-- A timeout that is written as a double is not read. -/
theorem decode_ne_ok_of_hasRealTimeout {fs : Fields} (h : (Tree.obj fs).HasRealTimeout) (s : Step) :
    Step.decode (.obj fs) ≠ .ok s := by
  intro hs
  obtain ⟨x, hx⟩ := h
  obtain ⟨n, hn, -⟩ := (Step.decode_obj.mp hs).timeout.of_get?_eq_some hx (by simp)
  simp [Decode.count, Decode.nat] at hn

/-- Whether a step has the field that an action may need. -/
def given (s : Step) : String → Bool
  | "url" => s.url.isSome
  | "selector" => s.selector.isSome
  | "value" => s.value.isSome
  | "key" => s.key.isSome
  | "code" => s.code.isSome
  | _ => false

theorem needs_known : ∀ a ∈ needs, ∀ key ∈ a.2, key ∈ ["url", "selector", "value", "key", "code"] := by
  decide

/-- A step has its action if it has the fields that stand beside the action's name. -/
private theorem exists_ofStep {s : Step} {a : String × List String} (ha : a ∈ needs) (hs : s.action = a.1)
    (hkeys : ∀ key ∈ a.2, given s key = true) : ∃ action, Action.ofStep s = .ok action := by
  obtain ⟨name, action, url, selector, value, key, timeout, code, clause, output, hint⟩ := s
  simp only at hs
  subst hs
  simp only [needs, List.mem_cons, List.not_mem_nil, or_false] at ha
  rcases ha with rfl | rfl | rfl | rfl | rfl | rfl <;>
    simp only [List.forall_mem_cons, List.not_mem_nil, false_implies, implies_true, and_true, given,
      Option.isSome_iff_exists] at hkeys
  · obtain ⟨url, rfl⟩ := hkeys
    exact ⟨.navigate (Expr.ofText url), rfl⟩
  · obtain ⟨⟨selector, rfl⟩, value, rfl⟩ := hkeys
    exact ⟨.fill selector (Action.fillValue value), rfl⟩
  · obtain ⟨selector, rfl⟩ := hkeys
    exact ⟨.click selector, rfl⟩
  · obtain ⟨⟨selector, rfl⟩, key, rfl⟩ := hkeys
    exact ⟨.press selector key, rfl⟩
  · obtain ⟨selector, rfl⟩ := hkeys
    exact ⟨.wait selector (timeout.getD Action.defaultWait), rfl⟩
  · obtain ⟨code, rfl⟩ := hkeys
    exact ⟨.rawCode code, rfl⟩

/-- A step that is read has a known action and the fields that stand beside its name. -/
theorem StepFields.action_given {fs : Fields} (h : StepFields fs) {s : Step} (hs : Step.decode (.obj fs) = .ok s) :
    ∃ a ∈ needs, s.action = a.1 ∧ ∀ key ∈ a.2, given s key = true := by
  have hread := Step.decode_obj.mp hs
  have htext : ∀ key ∈ ["url", "selector", "key", "code", "output", "hint"], get? fs key ≠ some .null :=
    fun key hkey => (h.texts key hkey).ne_null (by simp [IsText])
  have hgiven : ∀ key ∈ ["url", "selector", "value", "key", "code"], given s key = (get? fs key).isSome := by
    simp only [List.forall_mem_cons, List.not_mem_nil, false_implies, implies_true, and_true]
    exact ⟨hread.url.isSome_eq (htext _ (by simp)), hread.selector.isSome_eq (htext _ (by simp)),
      hread.value.isSome_eq (h.value.ne_null (by simp [IsScalar])), hread.key.isSome_eq (htext _ (by simp)),
      hread.code.isSome_eq (htext _ (by simp))⟩
  obtain ⟨v, hv, haction⟩ := hread.action
  obtain ⟨a, ha, hget, hneeds⟩ := h.action
  rw [hget, Option.some.injEq] at hv
  subst hv
  refine ⟨a, ha, (Except.ok.inj haction).symm, ?_⟩
  intro key hkey
  rw [hgiven key (needs_known a ha key hkey)]
  exact hneeds key hkey

/-- A step that is read has its action: the fields that the schema asks for are the ones that the action needs. -/
theorem StepFields.exists_action {fs : Fields} (h : StepFields fs) {s : Step}
    (hs : Step.decode (.obj fs) = .ok s) : ∃ a, Action.ofStep s = .ok a := by
  obtain ⟨a, ha, hname, hkeys⟩ := h.action_given hs
  exact exists_ofStep ha hname hkeys

/-- A step that is read has at most one problem, and it has one iff its clause does not have one shape. -/
theorem StepFields.problemsAt {fs : Fields} (h : StepFields fs) {s : Step} (hs : Step.decode (.obj fs) = .ok s)
    (index : Nat) :
    (Task.problemsAt index s).map (fun p => (p.code, p.step)) =
      if (Tree.obj fs).isWellShaped then [] else [("L002", some index)] := by
  obtain ⟨action, haction⟩ := h.exists_action hs
  have hclause := (Step.decode_obj.mp hs).whenClause
  cases hv : get? fs "when" with
  | none =>
    rw [Task.problemsAt, Task.ofStep, haction, hclause.of_get?_eq_none hv]
    simp [Guard.ofWhen?, isWellShaped, field?, hv]
  | some v =>
    obtain ⟨gs, rfl, hgs⟩ := h.whenClause v hv
    obtain ⟨w, hw, heq⟩ := hclause.of_get?_eq_some hv (by simp)
    rw [Task.problemsAt, Task.ofStep, haction, heq]
    rcases hgs.ofWhen hw with ⟨hshape, g, hg⟩ | ⟨hshape, f, hf, hcode⟩
    · simp [Guard.ofWhen?, hg, Except.map, isWellShaped, field?, hv, hshape]
    · simp [Guard.ofWhen?, hf, Except.map, isWellShaped, field?, hv, hshape, GuardFault.problem, Problem.unplaced,
        Problem.atStep, hcode]

/-! ### Documents -/

/-- The problems of all steps: one for each step whose clause does not have one shape. -/
private theorem problems_of_decode {vs : List Tree} {steps : List Step} (hvs : ∀ v ∈ vs, IsObject StepFields v)
    (hsteps : vs.map Step.decode = steps.map .ok) (index : Nat) :
    (Task.problems index steps).map (fun p => (p.code, p.step)) =
      (misshapen vs index).map fun i => ("L002", some i) := by
  induction vs generalizing steps index with
  | nil =>
    obtain rfl : steps = [] := List.map_eq_nil_iff.mp hsteps.symm
    rfl
  | cons v vs ih =>
    cases steps with
    | nil => cases hsteps
    | cons s steps =>
      obtain ⟨hs, hrest⟩ := List.cons.inj hsteps
      obtain ⟨fs, rfl, hfs⟩ := hvs v List.mem_cons_self
      rw [Task.problems_cons, misshapen_cons, List.map_append, List.map_append, hfs.problemsAt hs,
        ih (fun u hu => hvs u (List.mem_cons_of_mem _ hu)) hrest]
      cases (Tree.obj fs).isWellShaped with
      | true => rfl
      | false => rfl

/-- A definition is not read if one of its steps is not. -/
private theorem decode_error {fs : Fields} {vs : List Tree} (hsteps : get? fs "steps" = some (.arr vs))
    (hvs : ∀ v ∈ vs, IsObject StepFields v) (hreal : ∃ v ∈ vs, v.HasRealTimeout) :
    ∃ e, Workflow.decode (.obj fs) = .error e := by
  cases hw : Workflow.decode (.obj fs) with
  | error e => exact ⟨e, rfl⟩
  | ok w =>
    obtain ⟨v, hv, hlist⟩ := (Workflow.decode_obj.mp hw).steps
    rw [hsteps, Option.some.injEq] at hv
    subst hv
    obtain ⟨u, hu, hur⟩ := hreal
    have hmem : Step.decode u ∈ w.steps.map .ok := by
      rw [← Decode.items_eq_ok.mp hlist]
      exact List.mem_map_of_mem hu
    obtain ⟨s, -, hs⟩ := List.mem_map.mp hmem
    obtain ⟨gs, rfl, -⟩ := hvs u hu
    exact absurd hs.symm (decode_ne_ok_of_hasRealTimeout hur s)

/-- A definition is read if no timeout is written as a double. -/
private theorem exists_workflow {fs : Fields} {name : String} {vs : List Tree} (h : WorkflowFields fs)
    (hname : get? fs "name" = some (.str name)) (hsteps : get? fs "steps" = some (.arr vs))
    (hvs : ∀ v ∈ vs, IsObject StepFields v) (hreal : ¬ ∃ v ∈ vs, v.HasRealTimeout) :
    ∃ w, Workflow.decode (.obj fs) = .ok w ∧ w.name = name ∧ vs.map Step.decode = w.steps.map .ok := by
  obtain ⟨description, hd⟩ := h.description.exists_reads Decode.text fun _ => exists_text
  obtain ⟨steps, hs⟩ : ∃ steps, Decode.items Step.decode vs = .ok steps := by
    refine exists_items fun v hv => ?_
    obtain ⟨gs, rfl, hgs⟩ := hvs v hv
    exact hgs.exists_decode fun hr => hreal ⟨_, hv, hr⟩
  exact ⟨⟨name, description, steps⟩,
    Workflow.decode_obj.mpr ⟨⟨_, hname, rfl⟩, hd, ⟨_, hsteps, hs⟩⟩, rfl, Decode.items_eq_ok.mp hs⟩

end Grammar

section Pipeline

variable {t : Tree} {w : Workflow}

private theorem compileTree_of_decode_error (hv : validate t = []) {e : DecodeError}
    (he : Workflow.decode t = .error e) (source : String) :
    compileTree t source = .error [.wrongShape e] := by
  rw [compileTree, hv, readWorkflow, he]
  rfl

/-- After reading, the problems of the steps decide what becomes of a document. -/
private theorem compileTree_of_decode (hv : validate t = []) (hw : Workflow.decode t = .ok w)
    (hne : w.steps ≠ []) (source : String) :
    (Task.problems 0 w.steps = [] ∧ ∃ text, compileTree t source = .ok ⟨w.name, w.steps.length, text⟩) ∨
      (Task.problems 0 w.steps ≠ [] ∧ compileTree t source = .error (Task.problems 0 w.steps)) := by
  have hread : readWorkflow t = .ok w := by rw [readWorkflow, hw]
  have hempty : w.steps.isEmpty = false := by simpa using hne
  rw [compileTree, hv]
  simp only [hread]
  rcases Task.ofSteps_cases 0 w.steps with ⟨hnil, tasks, hok, hlen⟩ | ⟨hps, herr⟩
  · left
    have hp : Program.ofWorkflow w source = .ok ⟨⟨w.name, source, w.description⟩, tasks⟩ := by
      simp [Program.ofWorkflow, hempty, hok]
    exact ⟨hnil, _, by rw [← hlen]; simp only [bind, Except.bind, hp]; rfl⟩
  · right
    have hp : Program.ofWorkflow w source = .error (Task.problems 0 w.steps) := by
      simp [Program.ofWorkflow, hempty, herr]
    exact ⟨hps, by simp only [bind, Except.bind, hp]⟩

end Pipeline

/-- What can become of an accepted document with the given name and steps: a timeout keeps it from being read, or the
clauses of some steps keep it from being a program, or it is compiled. -/
inductive CompileOutcome (name : String) (steps : List Tree) : Except (List Problem) Compiled → Prop where
  | unread (p : Problem) : (∃ v ∈ steps, v.HasRealTimeout) → p.code = "P002" → CompileOutcome name steps (.error [p])
  | refused (ps : List Problem) : (¬ ∃ v ∈ steps, v.HasRealTimeout) → Tree.misshapen steps 0 ≠ [] →
      ps.map (fun p => (p.code, p.step)) = (Tree.misshapen steps 0).map (fun i => ("L002", some i)) →
      CompileOutcome name steps (.error ps)
  | compiled (text : String) : (¬ ∃ v ∈ steps, v.HasRealTimeout) → Tree.misshapen steps 0 = [] →
      CompileOutcome name steps (.ok ⟨name, steps.length, text⟩)

namespace CompileOutcome

open Fields Grammar

/-- The problems of an accepted document have one of two codes. -/
theorem code_mem {name : String} {steps : List Tree} {ps : List Problem} (h : CompileOutcome name steps (.error ps)) :
    ∀ p ∈ ps, p.code ∈ ["P002", "L002"] := by
  intro p hp
  cases h with
  | unread q hreal hcode =>
    obtain rfl := List.mem_singleton.mp hp
    simp [hcode]
  | refused ps hreal hne hps =>
    have hmem : (p.code, p.step) ∈ (Tree.misshapen steps 0).map fun i => ("L002", some i) := by
      rw [← hps]
      exact List.mem_map_of_mem hp
    obtain ⟨i, -, hi⟩ := List.mem_map.mp hmem
    simp [(Prod.mk.inj hi).1.symm]

theorem of_fields {fs : Fields} {name : String} {vs : List Tree} (hv : validate (.obj fs) = [])
    (h : WorkflowFields fs) (hname : get? fs "name" = some (.str name)) (hsteps : get? fs "steps" = some (.arr vs))
    (hne : vs ≠ []) (hvs : ∀ v ∈ vs, Tree.IsObject StepFields v) (source : String) :
    CompileOutcome name vs (compileTree (.obj fs) source) := by
  by_cases hreal : ∃ v ∈ vs, v.HasRealTimeout
  · obtain ⟨e, he⟩ := decode_error hsteps hvs hreal
    rw [compileTree_of_decode_error hv he]
    exact .unread _ hreal rfl
  · obtain ⟨w, hw, rfl, hmap⟩ := exists_workflow h hname hsteps hvs hreal
    have hproblems := problems_of_decode hvs hmap 0
    have hlen : vs.length = w.steps.length := by simpa using congrArg List.length hmap
    have hsome : w.steps ≠ [] := by
      intro hnil
      rw [hnil] at hlen
      exact hne (List.length_eq_zero_iff.mp hlen)
    -- there are problems iff there are misshapen clauses
    have hiff : Task.problems 0 w.steps = [] ↔ Tree.misshapen vs 0 = [] := by
      rw [← List.map_eq_nil_iff, hproblems, List.map_eq_nil_iff]
    rcases compileTree_of_decode hv hw hsome source with ⟨hnil, text, hok⟩ | ⟨hps, herr⟩
    · rw [hok, ← hlen]
      exact .compiled text hreal (hiff.mp hnil)
    · rw [herr]
      exact .refused _ hreal (fun hnil => hps (hiff.mpr hnil)) hproblems

/-- An accepted document has a name and steps, and its timeouts are whole however they are written. -/
theorem of_accepted {t : Tree} (hv : validate t = []) (source : String) :
    ∃ name steps, t.field? "name" = some (.str name) ∧ t.field? "steps" = some (.arr steps) ∧
      (∀ v ∈ steps, ∀ x, v.field? "timeout" = some (.num (.real x)) → x.isWhole = true) ∧
      CompileOutcome name steps (compileTree t source) := by
  obtain ⟨fs, rfl, hfs⟩ := violations_eq_nil_iff.mp (SchemaDocument.check_eq_nil.mp hv)
  obtain ⟨n, hname, name, rfl, -⟩ := hfs.name
  obtain ⟨l, hsteps, steps, rfl, hne, hall⟩ := hfs.steps
  refine ⟨name, steps, hname, hsteps, ?_, of_fields hv hfs hname hsteps hne hall source⟩
  intro v hmem x hx
  obtain ⟨gs, rfl, hgs⟩ := hall v hmem
  exact (Tree.isCount_num.mp (hgs.timeout _ hx)).1

end CompileOutcome

/-- What becomes of an accepted document is decided by its timeouts and by the shapes of its clauses; unknown actions,
missing fields, unknown operators and missing steps are never reported of any document. -/
theorem compileTree_outcome (t : Tree) (source : String) :
    (validate t = [] → ∃ name steps, t.field? "name" = some (.str name) ∧ t.field? "steps" = some (.arr steps) ∧
      (∀ v ∈ steps, ∀ x, v.field? "timeout" = some (.num (.real x)) → x.isWhole = true) ∧
      CompileOutcome name steps (compileTree t source)) ∧
    ∀ ps, compileTree t source = .error ps → ∀ p ∈ ps, p.code ∉ ["L001", "L003", "L004", "L005"] := by
  refine ⟨fun hv => CompileOutcome.of_accepted hv source, ?_⟩
  intro ps hps p hp
  cases hv : validate t with
  | nil =>
    obtain ⟨name, steps, -, -, -, houtcome⟩ := CompileOutcome.of_accepted hv source
    rw [hps] at houtcome
    have hcode := houtcome.code_mem p hp
    simp only [List.mem_cons, List.not_mem_nil, or_false] at hcode
    rcases hcode with h | h <;> simp [h]
  | cons v vs =>
    simp only [compileTree, hv, Except.error.injEq] at hps
    subst hps
    obtain ⟨u, -, rfl⟩ := List.mem_map.mp hp
    simp [Violation.problem]

/-- A document in which the clause of the second step has a field but no operator. -/
def halfShaped : Tree := .obj [
  ("name", .str "login"),
  ("steps", .arr [
    .obj [("action", .str "click"), ("name", .str "open"), ("selector", .str "#open")],
    .obj [("action", .str "wait"), ("name", .str "settle"), ("selector", .str "#done"),
      ("when", .obj [("field", .str "input.slow")])]])]

theorem compileTree_outcome_halfShaped :
    validate halfShaped = [] ∧ ∃ name steps, halfShaped.field? "name" = some (.str name) ∧
      halfShaped.field? "steps" = some (.arr steps) ∧
      (∀ v ∈ steps, ∀ x, v.field? "timeout" = some (.num (.real x)) → x.isWhole = true) ∧
      CompileOutcome name steps (compileTree halfShaped inlineSource) := by
  have hv : validate halfShaped = [] := SchemaDocument.check_eq_nil.mpr (by decide +kernel)
  exact ⟨hv, (compileTree_outcome halfShaped inlineSource).1 hv⟩

end FlowScript

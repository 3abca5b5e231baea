import FlowScript.Compile
import FlowScript.Proofs.Acceptance

/-!
# The grammar of workflow documents

What a document must look like, said without schemas: `DescribesWorkflow` and the predicates below it list the fields
of a workflow, of a step, of a clause and of a condition.  `validate_eq_nil_iff` shows that the schema of workflows
accepts exactly these documents.
-/

namespace FlowScript

namespace Tree

def IsText (t : Tree) : Prop := ∃ s, t = .str s

def IsNonEmptyText (t : Tree) : Prop := ∃ s, t = .str s ∧ s ≠ ""

def IsScalar (t : Tree) : Prop := (∃ s, t = .str s) ∨ (∃ x, t = .num x) ∨ ∃ b, t = .bool b

/-- A number whose value is a natural number, however it is written. -/
def IsCount (t : Tree) : Prop := ∃ x, t = .num x ∧ ∃ n : Nat, x.same (.int n) = true

private theorem unitsPerOne_pos : (0 : Int) < Double.unitsPerOne := by
  decide +kernel

private theorem isWhole_iff_dvd {x : Number} : x.isWhole = true ↔ (Double.unitsPerOne : Int) ∣ x.units := by
  cases x with
  | int n =>
    constructor
    · intro _
      exact Int.dvd_mul_left n _
    · intro _
      rfl
  | real y =>
    change (y.units % Double.unitsPerOne == 0) = true ↔ (Double.unitsPerOne : Int) ∣ y.signedUnits
    rw [beq_iff_eq, ← Nat.dvd_iff_mod_eq_zero, ← Int.natCast_dvd_natCast]
    unfold Double.signedUnits
    split
    · exact Int.dvd_neg.symm
    · exact Iff.rfl

/-- A number counts something iff it is whole and not negative. -/
theorem isCount_num {x : Number} : (num x).IsCount ↔ x.isWhole = true ∧ (Number.int 0).atMost x = true := by
  have hunits : ∀ n : Int, (Number.int n).units = n * Double.unitsPerOne := fun _ => rfl
  simp only [IsCount, num.injEq, exists_eq_left', isWhole_iff_dvd, Number.same, Number.atMost, beq_iff_eq,
    decide_eq_true_eq, hunits, Int.zero_mul]
  constructor
  · rintro ⟨n, hn⟩
    rw [hn]
    exact ⟨Int.dvd_mul_left _ _, Int.mul_nonneg (Int.natCast_nonneg n) (Int.le_of_lt unitsPerOne_pos)⟩
  · rintro ⟨⟨k, hk⟩, h0⟩
    have hk0 : 0 ≤ k := by
      rw [hk] at h0
      exact Int.nonneg_of_mul_nonneg_right h0 unitsPerOne_pos
    exact ⟨k.toNat, by rw [hk, Int.toNat_of_nonneg hk0, Int.mul_comm]⟩

theorem isCount_int {n : Int} (h : (num (.int n)).IsCount) : 0 ≤ n := by
  have h0 := (isCount_num.mp h).2
  simp only [Number.atMost, Number.units, Int.zero_mul, decide_eq_true_eq] at h0
  exact Int.nonneg_of_mul_nonneg_left h0 unitsPerOne_pos

def IsOperator (t : Tree) : Prop := ∃ c : Comparison, t = .str c.symbol

def IsObject (p : Fields → Prop) (t : Tree) : Prop := ∃ fs, t = .obj fs ∧ p fs

/-- A list with at least one item. -/
def IsFilledList (p : Tree → Prop) (t : Tree) : Prop := ∃ ts, t = .arr ts ∧ ts ≠ [] ∧ ∀ v ∈ ts, p v

end Tree

namespace Grammar

open Fields FlowScript.Tree

structure ConditionFields (fs : Fields) : Prop where
  field : Has fs "field" IsNonEmptyText
  op : Has fs "op" IsOperator
  value : (get? fs "value").isSome = true

structure WhenFields (fs : Fields) : Prop where
  field : May fs "field" IsNonEmptyText
  op : May fs "op" IsOperator
  conditions : May fs "conditions" (IsFilledList (IsObject ConditionFields))
  matchMode : May fs "match" fun v => v = .str "all" ∨ v = .str "any"

/-- The actions, each with the fields it needs. -/
def needs : List (String × List String) := [
  ("navigate", ["url"]),
  ("fill", ["selector", "value"]),
  ("click", ["selector"]),
  ("press", ["selector", "key"]),
  ("wait", ["selector"]),
  ("playwright_code", ["code"])]

structure StepFields (fs : Fields) : Prop where
  name : Has fs "name" IsText
  /-- The action is known, and the fields it needs are there. -/
  action : ∃ a ∈ needs, get? fs "action" = some (.str a.1) ∧ ∀ key ∈ a.2, (get? fs key).isSome = true
  texts : ∀ key ∈ ["url", "selector", "key", "code", "output", "hint"], May fs key IsText
  value : May fs "value" IsScalar
  timeout : May fs "timeout" IsCount
  whenClause : May fs "when" (IsObject WhenFields)

structure WorkflowFields (fs : Fields) : Prop where
  name : Has fs "name" IsNonEmptyText
  description : May fs "description" IsText
  steps : Has fs "steps" (IsFilledList (IsObject StepFields))

/-- A document that a workflow can be read from. -/
def DescribesWorkflow (t : Tree) : Prop := IsObject WorkflowFields t

section Accepted

variable {fuel : Nat} {path : String} {t : Tree}

open SchemaDocument

private theorem checkAt_text {d : SchemaDocument} : d.checkAt (fuel + 2) path text t = [] ↔ IsText t := by
  simp only [text, checkAt_rules_eq_nil, List.forall_mem_singleton, checkRule_kind_eq_nil, Kind.holds_string]
  rfl

private theorem checkAt_nonEmptyText {d : SchemaDocument} :
    d.checkAt (fuel + 2) path nonEmptyText t = [] ↔ IsNonEmptyText t := by
  simp only [nonEmptyText, checkAt_rules_eq_nil, List.forall_mem_cons, checkRule_kind_eq_nil, Kind.holds_string]
  constructor
  · rintro ⟨⟨s, rfl⟩, hs, -⟩
    rw [checkRule_minLength_eq_nil] at hs
    refine ⟨s, rfl, ?_⟩
    rintro rfl
    simp at hs
  · rintro ⟨s, rfl, hs⟩
    refine ⟨⟨s, rfl⟩, ?_, by simp⟩
    rw [checkRule_minLength_eq_nil]
    have : s.length ≠ 0 := by simpa using hs
    omega

private theorem checkAt_oneOf {d : SchemaDocument} {words : List String} :
    d.checkAt (fuel + 2) path (oneOf words) t = [] ↔ ∃ w ∈ words, t = .str w := by
  simp only [oneOf, checkAt_rules_eq_nil, List.forall_mem_singleton, checkRule_oneOf_eq_nil]

private theorem checkAt_operator :
    Workflow.schema.checkAt (fuel + 3) path (.ref operatorRef) t = [] ↔ IsOperator t := by
  rw [checkAt_ref _ _ _ _ (oneOf operators) _ rfl, checkAt_oneOf]
  constructor
  · rintro ⟨w, hw, rfl⟩
    simp only [operators, List.mem_cons, List.not_mem_nil, or_false] at hw
    rcases hw with rfl | rfl | rfl | rfl | rfl | rfl
    · exact ⟨.equals, rfl⟩
    · exact ⟨.notEquals, rfl⟩
    · exact ⟨.gt, rfl⟩
    · exact ⟨.lt, rfl⟩
    · exact ⟨.gte, rfl⟩
    · exact ⟨.lte, rfl⟩
  · rintro ⟨c, rfl⟩
    exact ⟨c.symbol, by cases c <;> decide, rfl⟩

private theorem checkAt_scalar {d : SchemaDocument} :
    d.checkAt (fuel + 2) path (.rules [.kinds [.string, .number, .boolean]]) t = [] ↔ IsScalar t := by
  simp only [checkAt_rules_eq_nil, List.forall_mem_singleton, checkRule_kinds_eq_nil]
  cases t <;> simp [IsScalar, Kind.holdsInList, Kind.holds]

private theorem checkAt_count {d : SchemaDocument} :
    d.checkAt (fuel + 2) path (.rules [.kind .integer, .minimum (.int 0)]) t = [] ↔ IsCount t := by
  simp only [checkAt_rules_eq_nil, List.forall_mem_cons, checkRule_kind_eq_nil, Kind.holds_integer]
  constructor
  · rintro ⟨⟨x, rfl, hw⟩, hm, -⟩
    rw [checkRule_minimum_eq_nil] at hm
    exact isCount_num.mpr ⟨hw, hm⟩
  · intro h
    obtain ⟨x, rfl, -⟩ := id h
    obtain ⟨hw, hm⟩ := isCount_num.mp h
    exact ⟨⟨x, rfl, hw⟩, checkRule_minimum_eq_nil.mpr hm, by simp⟩

/-- A list with at least one item, if the items are checked by a schema that accepts what `p` says. -/
private theorem checkAt_filledList {d : SchemaDocument} {s : Schema} {p : Tree → Prop}
    (hs : ∀ path t, d.checkAt fuel path s t = [] ↔ p t) :
    d.checkAt (fuel + 2) path (.rules [.kind .array, .minItems 1, .items s]) t = [] ↔ IsFilledList p t := by
  simp only [checkAt_rules_eq_nil, List.forall_mem_cons, checkRule_kind_eq_nil, Kind.holds_array]
  constructor
  · rintro ⟨⟨ts, rfl⟩, hm, hi, -⟩
    rw [checkRule_minItems_eq_nil] at hm
    rw [checkRule_items_eq_nil] at hi
    refine ⟨ts, rfl, List.ne_nil_of_length_pos hm, ?_⟩
    intro v hv
    obtain ⟨i, hi'⟩ := List.mem_iff_getElem?.mp hv
    exact (hs _ v).mp (hi i v hi')
  · rintro ⟨ts, rfl, hne, hp⟩
    refine ⟨⟨ts, rfl⟩, ?_, ?_, by simp⟩
    · rw [checkRule_minItems_eq_nil]
      exact List.length_pos_iff.mpr hne
    · rw [checkRule_items_eq_nil]
      intro i v hv
      exact (hs _ v).mpr (hp v (List.mem_of_getElem? hv))

/-- An object, if the remaining rules accept the fields that `p` describes. -/
private theorem checkAt_object {d : SchemaDocument} {rs : List Rule} {p : Fields → Prop}
    (hp : ∀ fs, (∀ r ∈ rs, d.checkRule (fuel + 1) path r (.obj fs) = []) ↔ p fs) :
    d.checkAt (fuel + 2) path (.rules (.kind .object :: rs)) t = [] ↔ IsObject p t := by
  simp only [checkAt_rules_eq_nil, List.forall_mem_cons, checkRule_kind_eq_nil, Kind.holds_object]
  constructor
  · rintro ⟨⟨fs, rfl⟩, hr⟩
    exact ⟨fs, rfl, (hp fs).mp hr⟩
  · rintro ⟨fs, rfl, h⟩
    exact ⟨⟨fs, rfl⟩, (hp fs).mpr h⟩

private theorem checkAt_condition :
    Workflow.schema.checkAt (fuel + 6) path (.ref conditionRef) t = [] ↔ IsObject ConditionFields t := by
  rw [checkAt_ref _ _ _ _ condition _ rfl]
  refine checkAt_object fun fs => ?_
  simp only [List.forall_mem_cons, checkRule_required_eq_nil, checkRule_properties_eq_nil, checkAt_nonEmptyText,
    checkAt_operator]
  constructor
  · rintro ⟨⟨hf, ho, hv, -⟩, ⟨pf, po, -⟩, -⟩
    exact ⟨has_iff.mpr ⟨hf, pf⟩, has_iff.mpr ⟨ho, po⟩, hv⟩
  · rintro ⟨hf, ho, hv⟩
    obtain ⟨hf, pf⟩ := has_iff.mp hf
    obtain ⟨ho, po⟩ := has_iff.mp ho
    exact ⟨⟨hf, ho, hv, by simp⟩, ⟨pf, po, fun _ _ => by simp [anything, checkAt_rules], by simp⟩, by simp⟩

private theorem checkAt_when :
    Workflow.schema.checkAt (fuel + 11) path (.ref whenRef) t = [] ↔ IsObject WhenFields t := by
  rw [checkAt_ref _ _ _ _ whenClause _ rfl]
  refine checkAt_object fun fs => ?_
  simp only [List.forall_mem_cons, List.not_mem_nil, false_implies, implies_true, and_true,
    checkRule_properties_eq_nil, checkAt_nonEmptyText, checkAt_operator, checkAt_oneOf,
    checkAt_filledList fun _ _ => checkAt_condition]
  constructor
  · rintro ⟨hf, ho, -, hc, hm⟩
    refine ⟨hf, ho, hc, ?_⟩
    intro v hv
    simpa using hm v hv
  · rintro ⟨hf, ho, hc, hm⟩
    refine ⟨hf, ho, fun _ _ => by simp [anything, checkAt_rules], hc, ?_⟩
    intro v hv
    simpa using hm v hv

/-- The condition on a step to have a certain action. -/
theorem checkAt_hasAction {d : SchemaDocument} {action : String} {fs : Fields} :
    d.checkAt (fuel + 4) path
        (.rules [.properties [("action", .rules [.const (.str action)])], .required ["action"]]) (.obj fs) = [] ↔
      get? fs "action" = some (.str action) := by
  simp only [List.forall_mem_cons, List.not_mem_nil, false_implies, implies_true, and_true, checkAt_rules_eq_nil,
    checkRule_properties_eq_nil, checkRule_required_eq_nil, checkRule_const_str_eq_nil]
  constructor
  · rintro ⟨hp, hr⟩
    obtain ⟨v, hv⟩ := Option.isSome_iff_exists.mp hr
    rw [hv, hp v hv]
  · intro h
    refine ⟨?_, by simp [h]⟩
    intro v hv
    rw [h] at hv
    exact (Option.some.inj hv).symm

/-- A step with a certain action has certain fields; a step with another action need not have them. -/
private theorem checkAt_actionNeeds {d : SchemaDocument} {action : String} {keys : List String} {fs : Fields} :
    d.checkAt (fuel + 6) path (actionNeeds action keys) (.obj fs) = [] ↔
      (get? fs "action" = some (.str action) → ∀ key ∈ keys, (get? fs key).isSome = true) := by
  rw [actionNeeds, checkAt_rules_eq_nil, List.forall_mem_singleton, checkRule_ifThen_eq_nil, checkAt_hasAction,
    checkAt_rules_eq_nil, List.forall_mem_singleton, checkRule_required_eq_nil]

/-- The conditional rules of a step, taken together, speak of the one action that the step has. -/
private theorem known_action_iff {fs : Fields} :
    (∃ a ∈ needs, get? fs "action" = some (.str a.1) ∧ ∀ key ∈ a.2, (get? fs key).isSome = true) ↔
      Has fs "action" (fun v => ∃ w ∈ actions, v = .str w) ∧
        ∀ a ∈ needs, get? fs "action" = some (.str a.1) → ∀ key ∈ a.2, (get? fs key).isSome = true := by
  constructor
  · rintro ⟨a, ha, hget, hkeys⟩
    refine ⟨⟨.str a.1, hget, a.1, ?_, rfl⟩, ?_⟩
    · have : needs.map Prod.fst = actions := rfl
      rw [← this]
      exact List.mem_map_of_mem ha
    · intro b hb hget'
      have hab : a.1 = b.1 := by simpa [hget] using hget'
      -- an action stands in the table once
      have huniq : ∀ x ∈ needs, ∀ y ∈ needs, x.1 = y.1 → x = y := by decide
      rw [← huniq a ha b hb hab]
      exact hkeys
  · rintro ⟨⟨v, hget, w, hw, rfl⟩, hall⟩
    have : w ∈ needs.map Prod.fst := hw
    obtain ⟨a, ha, rfl⟩ := List.mem_map.mp this
    exact ⟨a, ha, hget, hall a ha hget⟩

private theorem checkAt_step :
    Workflow.schema.checkAt (fuel + 14) path (.ref stepRef) t = [] ↔ IsObject StepFields t := by
  rw [checkAt_ref _ _ _ _ step _ rfl]
  refine checkAt_object fun fs => ?_
  simp only [List.forall_mem_cons, List.not_mem_nil, false_implies, implies_true, and_true,
    checkRule_required_eq_nil, checkRule_properties_eq_nil, checkRule_allOf_eq_nil,
    checkAt_text, checkAt_oneOf, checkAt_scalar, checkAt_count, checkAt_when, checkAt_actionNeeds]
  constructor
  · rintro ⟨⟨hn, ha⟩, ⟨pn, pa, purl, pselector, pvalue, pkey, ptimeout, pcode, pwhen, poutput, phint⟩, hneeds⟩
    refine ⟨has_iff.mpr ⟨hn, pn⟩, known_action_iff.mpr ⟨has_iff.mpr ⟨ha, pa⟩, ?_⟩, ?_, pvalue, ptimeout, pwhen⟩
    · -- the conditional rules are those of the table, one by one
      simpa only [needs, List.forall_mem_cons, List.not_mem_nil, false_implies, implies_true, and_true] using hneeds
    · simp only [List.forall_mem_cons, List.not_mem_nil, false_implies, implies_true, and_true]
      exact ⟨purl, pselector, pkey, pcode, poutput, phint⟩
  · rintro ⟨hname, haction, htexts, pvalue, ptimeout, pwhen⟩
    obtain ⟨hn, pn⟩ := has_iff.mp hname
    obtain ⟨hknown, hneeds⟩ := known_action_iff.mp haction
    obtain ⟨ha, pa⟩ := has_iff.mp hknown
    simp only [needs, List.forall_mem_cons, List.not_mem_nil, false_implies, implies_true, and_true] at htexts hneeds
    obtain ⟨purl, pselector, pkey, pcode, poutput, phint⟩ := htexts
    exact ⟨⟨hn, ha⟩, ⟨pn, pa, purl, pselector, pvalue, pkey, ptimeout, pcode, pwhen, poutput, phint⟩, hneeds⟩

private theorem checkAt_workflow :
    Workflow.schema.checkAt (fuel + 18) path workflow t = [] ↔ DescribesWorkflow t := by
  refine checkAt_object fun fs => ?_
  simp only [List.forall_mem_cons, List.not_mem_nil, false_implies, implies_true, and_true,
    checkRule_required_eq_nil, checkRule_properties_eq_nil, checkAt_text, checkAt_nonEmptyText,
    checkAt_filledList fun _ _ => checkAt_step]
  constructor
  · rintro ⟨⟨hn, hs⟩, pn, pd, ps⟩
    exact ⟨has_iff.mpr ⟨hn, pn⟩, pd, has_iff.mpr ⟨hs, ps⟩⟩
  · rintro ⟨hname, pd, hsteps⟩
    obtain ⟨hn, pn⟩ := has_iff.mp hname
    obtain ⟨hs, ps⟩ := has_iff.mp hsteps
    exact ⟨⟨hn, hs⟩, pn, pd, ps⟩

end Accepted

/-- The budget never cuts the check of a workflow short, so nothing is overlooked. -/
theorem violations_eq_nil_iff {t : Tree} : Workflow.schema.violations t = [] ↔ DescribesWorkflow t := by
  -- checks nest 18 deep on the way to the operator of a condition of a step's clause
  obtain ⟨fuel, hfuel⟩ := Workflow.schema.exists_budget_eq t (show 18 ≤ Workflow.schema.size by decide)
  rw [SchemaDocument.violations, hfuel]
  exact checkAt_workflow

end Grammar

/-- The schema of workflows accepts exactly the documents that describe a workflow. -/
theorem validate_eq_nil_iff (t : Tree) : validate t = [] ↔ Grammar.DescribesWorkflow t := by
  rw [validate, SchemaDocument.check_eq_nil, Grammar.violations_eq_nil_iff]

end FlowScript

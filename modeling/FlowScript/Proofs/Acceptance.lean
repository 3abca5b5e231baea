import FlowScript.Proofs.Fields
import FlowScript.Schema.Check

/-!
# Acceptance by a schema

A tree is accepted when a check of it finds nothing.  For the rules that look at parts of a tree there is a lemma that
says what they find, and for each rule one that says when it finds nothing, without mention of paths and messages;
`check_eq_nil` takes the report back to the check itself, and `exists_budget_eq` says that a check is never stopped
early by its budget.
-/

namespace FlowScript

theorem demand_eq_nil {ok : Bool} {v : Violation} : demand ok v = [] ↔ ok = true := by
  cases ok <;> simp [demand]

theorem mem_demand {ok : Bool} {v w : Violation} : v ∈ demand ok w ↔ ok = false ∧ v = w := by
  cases ok <;> simp [demand]

namespace Violation

theorem mem_dropRepeats {v : Violation} {vs : List Violation} : v ∈ dropRepeats vs ↔ v ∈ vs := by
  fun_induction dropRepeats vs with
  | case1 a r ih =>
    rw [ih]
    simp
  | case2 a b r hne ih => rw [List.mem_cons, ih, List.mem_cons (a := v) (b := a)]
  | case3 l => rfl

theorem mem_report {v : Violation} {vs : List Violation} : v ∈ report vs ↔ v ∈ vs := by
  rw [report, mem_dropRepeats, List.mem_mergeSort]

/-- Sorting and merging never empties a report. -/
theorem report_eq_nil {vs : List Violation} : report vs = [] ↔ vs = [] := by
  simp only [List.eq_nil_iff_forall_not_mem, mem_report]

end Violation

/-- Only a text equals a text, also where numbers count by their value. -/
theorem Tree.same_str {s : String} {t : Tree} : (Tree.str s).same t = true ↔ t = .str s := by
  cases t with
  | str x => simp only [Tree.same, beq_iff_eq, Tree.str.injEq]; exact eq_comm
  | _ => simp [Tree.same]

theorem Tree.meets_str {s : String} {t : Tree} : (Tree.str s).meets t = true ↔ t = .str s := by
  unfold Tree.meets
  exact Tree.same_str

namespace Kind

attribute [local simp] holds

theorem holds_string {t : Tree} : string.holds t = true ↔ ∃ s, t = .str s := by
  cases t <;> simp

theorem holds_object {t : Tree} : object.holds t = true ↔ ∃ fs, t = .obj fs := by
  cases t <;> simp

theorem holds_array {t : Tree} : array.holds t = true ↔ ∃ ts, t = .arr ts := by
  cases t <;> simp

theorem holds_integer {t : Tree} : integer.holds t = true ↔ ∃ n, t = .num n ∧ n.isWhole = true := by
  cases t <;> simp

end Kind

namespace SchemaDocument

variable {d : SchemaDocument} {fuel : Nat} {path : String} {t : Tree} {v : Violation}

theorem check_eq_nil : d.check t = [] ↔ d.violations t = [] :=
  Violation.report_eq_nil

/-- A check of any tree may nest at least as many checks as the schema has parts. -/
theorem exists_budget_eq (d : SchemaDocument) (t : Tree) {n : Nat} (h : n ≤ d.size) :
    ∃ fuel, d.budget t = fuel + n := by
  refine ⟨d.budget t - n, ?_⟩
  have : d.size + 1 ≤ (d.size + 1) * (t.depth + 1) := Nat.le_mul_of_pos_right _ (Nat.succ_pos _)
  unfold budget
  omega

/-! ### What a rule finds -/

theorem mem_checkAt_rules {rs : List Rule} :
    v ∈ d.checkAt (fuel + 1) path (.rules rs) t ↔ ∃ r ∈ rs, v ∈ d.checkRule fuel path r t := by
  rw [checkAt_rules, List.mem_flatMap]

theorem mem_checkRule_kind {k : Kind} :
    v ∈ d.checkRule (fuel + 1) path (.kind k) t ↔ k.holds t = false ∧ v = .wrongKind path t k :=
  mem_demand

theorem mem_checkRule_required {names : List String} {fs : Fields} :
    v ∈ d.checkRule (fuel + 1) path (.required names) (.obj fs) ↔
      ∃ name ∈ names, Fields.get? fs name = none ∧ v = .missing path name := by
  change v ∈ names.flatMap (fun n => demand (Fields.get? fs n).isSome (.missing path n)) ↔ _
  simp only [List.mem_flatMap, mem_demand, Option.isSome_eq_false_iff, Option.isNone_iff_eq_none]

theorem mem_checkRule_properties {ps : List (String × Schema)} {fs : Fields} :
    v ∈ d.checkRule (fuel + 1) path (.properties ps) (.obj fs) ↔
      ∃ p ∈ ps, ∃ u, Fields.get? fs p.1 = some u ∧ v ∈ d.checkAt fuel (Violation.pathTo path p.1) p.2 u := by
  refine List.mem_flatMap.trans ?_
  constructor
  · rintro ⟨⟨name, s⟩, hp, hv⟩
    cases hget : Fields.get? fs name with
    | none =>
      simp only [hget] at hv
      cases hv
    | some u =>
      simp only [hget] at hv
      exact ⟨(name, s), hp, u, hget, hv⟩
  · rintro ⟨⟨name, s⟩, hp, u, hget, hv⟩
    refine ⟨(name, s), hp, ?_⟩
    simp only [hget]
    exact hv

theorem mem_checkRule_items {s : Schema} {ts : List Tree} :
    v ∈ d.checkRule (fuel + 1) path (.items s) (.arr ts) ↔
      ∃ (i : Nat) (u : Tree), ts[i]? = some u ∧ v ∈ d.checkAt fuel (path ++ "/" ++ toString i) s u := by
  refine List.mem_flatMap.trans ?_
  constructor
  · rintro ⟨⟨u, i⟩, hmem, hv⟩
    exact ⟨i, u, by simpa [List.mem_zipIdx_iff_getElem?] using hmem, hv⟩
  · rintro ⟨i, u, hu, hv⟩
    exact ⟨(u, i), by simp [List.mem_zipIdx_iff_getElem?, hu], hv⟩

theorem mem_checkRule_allOf {ss : List Schema} :
    v ∈ d.checkRule (fuel + 1) path (.allOf ss) t ↔ ∃ s ∈ ss, v ∈ d.checkAt fuel path s t :=
  List.mem_flatMap

theorem mem_checkRule_ifThen {test result : Schema} :
    v ∈ d.checkRule (fuel + 1) path (.ifThen test result) t ↔
      d.checkAt fuel path test t = [] ∧ v ∈ d.checkAt fuel path result t := by
  simp only [checkRule, List.isEmpty_iff]
  split <;> simp_all

/-! ### When a rule accepts -/

theorem checkAt_rules_eq_nil {rs : List Rule} :
    d.checkAt (fuel + 1) path (.rules rs) t = [] ↔ ∀ r ∈ rs, d.checkRule fuel path r t = [] := by
  rw [checkAt_rules, List.flatMap_eq_nil_iff]

theorem checkRule_kind_eq_nil {k : Kind} :
    d.checkRule (fuel + 1) path (.kind k) t = [] ↔ k.holds t = true :=
  demand_eq_nil

theorem checkRule_kinds_eq_nil {ks : List Kind} :
    d.checkRule (fuel + 1) path (.kinds ks) t = [] ↔ ∃ k ∈ ks, k.holdsInList t = true :=
  demand_eq_nil.trans List.any_eq_true

theorem checkRule_required_eq_nil {names : List String} {fs : Fields} :
    d.checkRule (fuel + 1) path (.required names) (.obj fs) = [] ↔
      ∀ name ∈ names, (Fields.get? fs name).isSome = true := by
  refine List.flatMap_eq_nil_iff.trans ?_
  simp only [demand_eq_nil]

theorem checkRule_properties_eq_nil {ps : List (String × Schema)} {fs : Fields} :
    d.checkRule (fuel + 1) path (.properties ps) (.obj fs) = [] ↔
      ∀ p ∈ ps, Fields.May fs p.1 fun v => d.checkAt fuel (Violation.pathTo path p.1) p.2 v = [] := by
  simp only [List.eq_nil_iff_forall_not_mem, mem_checkRule_properties]
  constructor
  · intro h p hp u hu v hv
    exact h v ⟨p, hp, u, hu, hv⟩
  · rintro h v ⟨p, hp, u, hu, hv⟩
    exact h p hp u hu v hv

theorem checkRule_items_eq_nil {s : Schema} {ts : List Tree} :
    d.checkRule (fuel + 1) path (.items s) (.arr ts) = [] ↔
      ∀ (i : Nat) v, ts[i]? = some v → d.checkAt fuel (path ++ "/" ++ toString i) s v = [] := by
  simp only [List.eq_nil_iff_forall_not_mem, mem_checkRule_items]
  constructor
  · intro h i u hu v hv
    exact h v ⟨i, u, hu, hv⟩
  · rintro h v ⟨i, u, hu, hv⟩
    exact h i u hu v hv

theorem checkRule_minItems_eq_nil {limit : Nat} {ts : List Tree} :
    d.checkRule (fuel + 1) path (.minItems limit) (.arr ts) = [] ↔ limit ≤ ts.length :=
  demand_eq_nil.trans decide_eq_true_iff

theorem checkRule_minLength_eq_nil {limit : Nat} {s : String} :
    d.checkRule (fuel + 1) path (.minLength limit) (.str s) = [] ↔ limit ≤ s.length :=
  demand_eq_nil.trans decide_eq_true_iff

theorem checkRule_minimum_eq_nil {limit n : Number} :
    d.checkRule (fuel + 1) path (.minimum limit) (.num n) = [] ↔ limit.atMost n = true :=
  demand_eq_nil

/-- A choice between texts accepts those texts. -/
theorem checkRule_oneOf_eq_nil {words : List String} :
    d.checkRule (fuel + 1) path (.oneOf (words.map .str)) t = [] ↔ ∃ w ∈ words, t = .str w := by
  refine demand_eq_nil.trans ?_
  simp only [List.any_map, List.any_eq_true, Function.comp_apply, Tree.same_str]

theorem checkRule_const_str_eq_nil {s : String} :
    d.checkRule (fuel + 1) path (.const (.str s)) t = [] ↔ t = .str s :=
  demand_eq_nil.trans Tree.meets_str

theorem checkRule_allOf_eq_nil {ss : List Schema} :
    d.checkRule (fuel + 1) path (.allOf ss) t = [] ↔ ∀ s ∈ ss, d.checkAt fuel path s t = [] :=
  List.flatMap_eq_nil_iff

theorem checkRule_ifThen_eq_nil {test result : Schema} :
    d.checkRule (fuel + 1) path (.ifThen test result) t = [] ↔
      (d.checkAt fuel path test t = [] → d.checkAt fuel path result t = []) := by
  simp only [checkRule, List.isEmpty_iff]
  split <;> simp_all

end SchemaDocument

end FlowScript

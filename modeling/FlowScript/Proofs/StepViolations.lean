import FlowScript.Proofs.CanonicalReport
import FlowScript.Proofs.WorkflowGrammar

/-!
# Violations in steps

Where the schema of workflows finds a violation, and what it finds in a step.  A violation is found outside the list of
steps, or in the check of one step (`mem_checkAt_workflow_cases`), so the step that its path names is the one it is in
(`validate_located`).  At the path of a step that is an object, the violations are the fields that the step lacks
(`mem_checkAt_step_iff`), each of them once (`missing_fields_perm`).
-/

namespace FlowScript

open Violation SchemaDocument

variable {fuel : Nat} {doc : Tree} {v : Violation}

/-! ### Where violations are -/

/-- The path of a violation does not lead into an item of the list of steps. -/
def Violation.OutsideSteps (v : Violation) : Prop :=
  ∃ tokens, v.path = Pointer.write tokens ∧ ∀ token rest, tokens ≠ "steps" :: token :: rest

/-- A violation under a key that is not `steps` is outside the list of steps. -/
private theorem outsideSteps_of_found {key : String} {t : Tree} (h : v.Found [key] t) (hkey : key ≠ "steps") :
    v.OutsideSteps := by
  obtain ⟨rest, u, hpath, -, -⟩ := h
  refine ⟨key :: rest, hpath, ?_⟩
  intro token rest' heq
  exact hkey (List.cons.inj heq).1

/-- The list of steps: a violation is about the list as a whole, or comes from the check of one step. -/
private theorem mem_checkAt_steps_cases {t : Tree}
    (h : v ∈ Workflow.schema.checkAt (fuel + 2) (Pointer.write ["steps"])
      (.rules [.kind .array, .minItems 1, .items (.ref Grammar.stepRef)]) t) :
    v.path = Pointer.write ["steps"] ∨ ∃ (ts : List Tree) (i : Nat) (u : Tree), t = .arr ts ∧ ts[i]? = some u ∧
      v ∈ Workflow.schema.checkAt fuel (Pointer.write ["steps", toString i]) (.ref Grammar.stepRef) u := by
  obtain ⟨r, hr, hv⟩ := mem_checkAt_rules.mp h
  simp only [List.mem_cons, List.not_mem_nil, or_false] at hr
  rcases hr with rfl | rfl | rfl
  · left
    rw [(mem_checkRule_kind.mp hv).2]
    rfl
  · cases t with
    | arr ts =>
      left
      rw [(mem_demand.mp hv).2]
      rfl
    | _ => cases hv
  · cases t with
    | arr ts =>
      obtain ⟨i, u, hu, hv⟩ := mem_checkRule_items.mp hv
      rw [Pointer.pathTo_toString] at hv
      exact .inr ⟨ts, i, u, rfl, hu, hv⟩
    | _ => cases hv

/-- A violation is outside the list of steps, or comes from the check of one step. -/
theorem mem_checkAt_workflow_cases (h : v ∈ Workflow.schema.checkAt (fuel + 4) "" Grammar.workflow doc) :
    v.OutsideSteps ∨
      ∃ (ts : List Tree) (i : Nat) (u : Tree), doc.field? "steps" = some (.arr ts) ∧ ts[i]? = some u ∧
        v ∈ Workflow.schema.checkAt fuel (Pointer.write ["steps", toString i]) (.ref Grammar.stepRef) u := by
  obtain ⟨r, hr, hv⟩ := mem_checkAt_rules.mp h
  simp only [List.mem_cons, List.not_mem_nil, or_false] at hr
  rcases hr with rfl | rfl | rfl
  · refine .inl ⟨[], ?_, by simp⟩
    rw [(mem_checkRule_kind.mp hv).2]
    rfl
  · cases doc with
    | obj fs =>
      obtain ⟨name, -, -, rfl⟩ := mem_checkRule_required.mp hv
      exact .inl ⟨[], rfl, by simp⟩
    | _ => cases hv
  · cases doc with
    | obj fs =>
      obtain ⟨p, hp, t, hget, hv⟩ := mem_checkRule_properties.mp hv
      simp only [List.mem_cons, List.not_mem_nil, or_false] at hp
      rcases hp with rfl | rfl | rfl
      · have hfound : v.Found ["name"] t := found_of_mem_checkAt hv
        exact .inl (outsideSteps_of_found hfound (by decide))
      · have hfound : v.Found ["description"] t := found_of_mem_checkAt hv
        exact .inl (outsideSteps_of_found hfound (by decide))
      · rcases mem_checkAt_steps_cases hv with hpath | ⟨ts, i, u, rfl, hu, hv⟩
        · exact .inl ⟨["steps"], hpath, by simp⟩
        · exact .inr ⟨ts, i, u, hget, hu, hv⟩
    | _ => cases hv

/-- What the check of one step finds is found in the document. -/
theorem mem_checkAt_workflow_of_step {ts : List Tree} {i : Nat} {u : Tree}
    (hsteps : doc.field? "steps" = some (.arr ts)) (hu : ts[i]? = some u)
    (h : v ∈ Workflow.schema.checkAt fuel (Pointer.write ["steps", toString i]) (.ref Grammar.stepRef) u) :
    v ∈ Workflow.schema.checkAt (fuel + 4) "" Grammar.workflow doc := by
  cases doc with
  | obj fs =>
    -- the list of steps is the last property, and what holds of its items the last rule
    refine mem_checkAt_rules.mpr ⟨_, .tail _ (.tail _ (.head _)), ?_⟩
    refine mem_checkRule_properties.mpr ⟨_, .tail _ (.tail _ (.head _)), .arr ts, hsteps, ?_⟩
    refine mem_checkAt_rules.mpr ⟨_, .tail _ (.tail _ (.head _)), ?_⟩
    refine mem_checkRule_items.mpr ⟨i, u, hu, ?_⟩
    rw [Pointer.pathTo_toString]
    exact h
  | _ => cases hsteps

/-- A pointer designates an item of the list under a key, or a part of that item. -/
def Tree.InItem (doc : Tree) (key : String) (i : Nat) (pointer : String) : Prop :=
  ∃ ts item rest, doc.field? key = some (.arr ts) ∧ ts[i]? = some item ∧
    Pointer.tokens? pointer = some (key :: toString i :: rest) ∧ (item.follow? rest).isSome = true

theorem Tree.inItem_write {key : String} {i : Nat} {tokens : List String} :
    doc.InItem key i (Pointer.write tokens) ↔
      ∃ ts item rest, doc.field? key = some (.arr ts) ∧ ts[i]? = some item ∧
        tokens = key :: toString i :: rest ∧ (item.follow? rest).isSome = true := by
  simp only [InItem, Pointer.tokens?_write, Option.some.injEq]

/-- A violation outside the list of steps names no step. -/
theorem Violation.OutsideSteps.stepIndex?_eq_none (h : v.OutsideSteps) : v.stepIndex? = none := by
  obtain ⟨tokens, hpath, hne⟩ := h
  apply Option.eq_none_iff_forall_ne_some.mpr
  intro i hi
  obtain ⟨token, rest, htokens, -⟩ := (stepIndex?_eq_some_iff hpath).mp hi
  exact hne token rest htokens

theorem Violation.OutsideSteps.not_inItem (h : v.OutsideSteps) (i : Nat) : ¬doc.InItem "steps" i v.path := by
  obtain ⟨tokens, hpath, hne⟩ := h
  rw [hpath, Tree.inItem_write]
  rintro ⟨ts, item, rest, -, -, htokens, -⟩
  exact hne (toString i) rest htokens

/-- A violation in a step names that step, if the index fits into a word. -/
theorem Violation.stepIndex?_eq_some_of_path {i : Nat} {rest : List String}
    (hpath : v.path = Pointer.write ("steps" :: toString i :: rest)) (hi : i < 2 ^ 64) : v.stepIndex? = some i := by
  refine (stepIndex?_eq_some_iff hpath).mpr ⟨toString i, rest, rfl, ?_⟩
  rw [Pointer.escape_toString]
  exact wordIndex?_toDigits hi

/-- Every violation is at a part of the document, and names a step iff that part is a step or lies in one. -/
theorem validate_located (doc : Tree) (hsize : ∀ ts, doc.field? "steps" = some (.arr ts) → ts.length < 2 ^ 64)
    (v : Violation) (hv : v ∈ validate doc) :
    (∃ part, doc.at? v.path = some part) ∧
    (∀ i, v.stepIndex? = some i ↔ doc.InItem "steps" i v.path) ∧
    v.problem.step = v.stepIndex? := by
  have hfound : v ∈ Workflow.schema.violations doc := mem_check.mp hv
  refine ⟨?_, ?_, rfl⟩
  · obtain ⟨rest, part, hpath, hfollow, -⟩ := found_of_mem_violations hfound
    refine ⟨part, ?_⟩
    rw [hpath, Pointer.at?_write]
    exact hfollow
  · intro i
    obtain ⟨fuel, hfuel⟩ := Workflow.schema.exists_budget_eq doc (show 4 ≤ Workflow.schema.size by decide)
    rw [violations, hfuel] at hfound
    rcases mem_checkAt_workflow_cases hfound with houtside | ⟨ts, j, u, hsteps, hu, hstep⟩
    · rw [houtside.stepIndex?_eq_none]
      exact iff_of_false (by simp) (houtside.not_inItem i)
    · -- the path begins with the place of step `j`
      obtain ⟨rest, part, hpath, hfollow, -⟩ := found_of_mem_checkAt hstep
      have hj : j < 2 ^ 64 := Nat.lt_trans (List.getElem?_eq_some_iff.mp hu).1 (hsize ts hsteps)
      rw [stepIndex?_eq_some_of_path hpath hj, Option.some.injEq, hpath, Tree.inItem_write]
      constructor
      · rintro rfl
        exact ⟨ts, u, rest, hsteps, hu, rfl, by rw [hfollow, Option.isSome_some]⟩
      · rintro ⟨ts', item, rest', -, -, htokens, -⟩
        have hindex : toString j = toString i := (List.cons.inj (List.cons.inj htokens).2).1
        exact toString_nat_injective hindex

/-- A step without a name, with a selector that is no text, and without the value it needs. -/
def unfinished : Tree :=
  .obj [("name", .str "sign in"), ("steps", .arr [
    .obj [("name", .str "open"), ("action", .str "navigate"), ("url", .str "/")],
    .obj [("action", .str "fill"), ("selector", .bool true)]])]

theorem validate_located_unfinished :
    (∀ ts, unfinished.field? "steps" = some (.arr ts) → ts.length < 2 ^ 64) ∧
    wrongKind "/steps/1/selector" (.bool true) .string ∈ validate unfinished ∧
    (∃ part, unfinished.at? "/steps/1/selector" = some part) ∧
    (∀ i, (wrongKind "/steps/1/selector" (.bool true) .string).stepIndex? = some i ↔
      unfinished.InItem "steps" i "/steps/1/selector") ∧
    (wrongKind "/steps/1/selector" (.bool true) .string).problem.step =
      (wrongKind "/steps/1/selector" (.bool true) .string).stepIndex? := by
  have hsize : ∀ ts, unfinished.field? "steps" = some (.arr ts) → ts.length < 2 ^ 64 := by
    rintro ts ⟨⟩
    decide
  have hv : wrongKind "/steps/1/selector" (.bool true) .string ∈ validate unfinished := mem_check.mpr (by decide)
  exact ⟨hsize, hv, validate_located unfinished hsize _ hv⟩

/-! ### Fields that a step lacks -/

namespace Grammar

open Fields

/-- The fields that a step must have: two in any case, and those that its action needs. -/
def required (fs : Fields) : List String :=
  ["name", "action"] ++
    match get? fs "action" with
    | some (.str action) => (needs.lookup action).getD []
    | _ => []

def lacking (fs : Fields) : List String := (required fs).filter fun name => (get? fs name).isNone

private theorem lookup_needs {action : String} {fields : List String} :
    needs.lookup action = some fields ↔ (action, fields) ∈ needs := by
  constructor
  · intro h
    obtain ⟨front, back, heq, -⟩ := List.lookup_eq_some_iff.mp h
    rw [heq]
    exact List.mem_append_right front List.mem_cons_self
  · -- an action stands in the table once
    have hfirst : ∀ a ∈ needs, needs.lookup a.1 = some a.2 := by decide
    exact hfirst (action, fields)

theorem mem_required {fs : Fields} {name : String} :
    name ∈ required fs ↔
      name ∈ ["name", "action"] ∨ ∃ a ∈ needs, get? fs "action" = some (.str a.1) ∧ name ∈ a.2 := by
  rw [required, List.mem_append]
  refine or_congr_right ?_
  split
  · next action haction =>
    constructor
    · intro hname
      cases hlookup : needs.lookup action with
      | none =>
        rw [hlookup] at hname
        cases hname
      | some fields =>
        rw [hlookup] at hname
        exact ⟨(action, fields), lookup_needs.mp hlookup, haction, hname⟩
    · rintro ⟨⟨action', fields⟩, ha, hget, hname⟩
      obtain rfl : action = action' := by simpa [haction] using hget
      rw [lookup_needs.mpr ha]
      exact hname
  · next hnone =>
    constructor
    · intro hname
      cases hname
    · rintro ⟨a, -, hget, -⟩
      exact absurd hget (hnone a.1)

theorem nodup_required (fs : Fields) : (required fs).Nodup := by
  have hnodup : ∀ a ∈ needs, (["name", "action"] ++ a.2).Nodup := by decide
  unfold required
  split
  · next action _ =>
    cases hlookup : needs.lookup action with
    | none => decide
    | some fields => exact hnodup (action, fields) (lookup_needs.mp hlookup)
  · decide

theorem mem_lacking {fs : Fields} {name : String} : name ∈ lacking fs ↔ name ∈ required fs ∧ get? fs name = none := by
  rw [lacking, List.mem_filter, Option.isNone_iff_eq_none]

theorem mem_checkAt_actionNeeds {d : SchemaDocument} {path action : String} {keys : List String} {fs : Fields} :
    v ∈ d.checkAt (fuel + 6) path (actionNeeds action keys) (.obj fs) ↔
      get? fs "action" = some (.str action) ∧ ∃ name ∈ keys, get? fs name = none ∧ v = missing path name := by
  simp only [actionNeeds, mem_checkAt_rules, List.mem_singleton, exists_eq_left, mem_checkRule_ifThen,
    checkAt_hasAction, mem_checkRule_required]

/-- At the path of a step that is an object, a check finds the fields that the step lacks. -/
theorem mem_checkAt_step_iff {tokens : List String} {fs : Fields} (hpath : v.path = Pointer.write tokens) :
    v ∈ Workflow.schema.checkAt (fuel + 14) (Pointer.write tokens) (.ref stepRef) (.obj fs) ↔
      ∃ name ∈ lacking fs, v = missing (Pointer.write tokens) name := by
  -- the conditional rules are those of the table
  obtain ⟨ps, hstep⟩ : ∃ ps, step = .rules [.kind .object, .required ["name", "action"], .properties ps,
      .allOf (needs.map fun a => actionNeeds a.1 a.2)] := ⟨_, rfl⟩
  rw [checkAt_ref _ _ _ _ step _ rfl, hstep, mem_checkAt_rules]
  constructor
  · rintro ⟨r, hr, hv⟩
    simp only [List.mem_cons, List.not_mem_nil, or_false] at hr
    rcases hr with rfl | rfl | rfl | rfl
    · cases (mem_checkRule_kind.mp hv).1
    · obtain ⟨name, hname, hget, rfl⟩ := mem_checkRule_required.mp hv
      exact ⟨name, mem_lacking.mpr ⟨mem_required.mpr (.inl hname), hget⟩, rfl⟩
    · -- what a property violates is found below the step
      obtain ⟨p, -, u, -, hv⟩ := mem_checkRule_properties.mp hv
      rw [← Pointer.write_append] at hv
      obtain ⟨rest, -, hpath', -, -⟩ := found_of_mem_checkAt hv
      have htokens := Pointer.write_injective (hpath.symm.trans hpath')
      have hlength := congrArg List.length htokens
      simp only [List.length_append, List.length_singleton] at hlength
      omega
    · obtain ⟨s, hs, hv⟩ := mem_checkRule_allOf.mp hv
      obtain ⟨a, ha, rfl⟩ := List.mem_map.mp hs
      obtain ⟨haction, name, hname, hget, rfl⟩ := mem_checkAt_actionNeeds.mp hv
      exact ⟨name, mem_lacking.mpr ⟨mem_required.mpr (.inr ⟨a, ha, haction, hname⟩), hget⟩, rfl⟩
  · rintro ⟨name, hname, rfl⟩
    obtain ⟨hrequired, hget⟩ := mem_lacking.mp hname
    rcases mem_required.mp hrequired with hname | ⟨a, ha, haction, hname⟩
    · refine ⟨.required ["name", "action"], by simp, ?_⟩
      exact mem_checkRule_required.mpr ⟨name, hname, hget, rfl⟩
    · refine ⟨.allOf (needs.map fun a => actionNeeds a.1 a.2), by simp, ?_⟩
      refine mem_checkRule_allOf.mpr ⟨_, List.mem_map_of_mem ha, ?_⟩
      exact mem_checkAt_actionNeeds.mpr ⟨haction, name, hname, hget, rfl⟩

end Grammar

open Grammar in
/-- The violations at the path of a step that is an object. -/
theorem mem_validate_step_iff {ts : List Tree} {i : Nat} {fs : Fields}
    (hsteps : doc.field? "steps" = some (.arr ts)) (hi : ts[i]? = some (.obj fs))
    (hpath : v.path = Pointer.write ["steps", toString i]) :
    v ∈ validate doc ↔ ∃ name ∈ lacking fs, v = missing (Pointer.write ["steps", toString i]) name := by
  obtain ⟨fuel, hfuel⟩ := Workflow.schema.exists_budget_eq doc (show 18 ≤ Workflow.schema.size by decide)
  rw [← mem_checkAt_step_iff hpath]
  refine mem_check.trans ?_
  rw [violations, hfuel]
  constructor
  · intro hv
    rcases mem_checkAt_workflow_cases hv with ⟨tokens, hpath', hne⟩ | ⟨ts', j, u, hsteps', hu, hstep⟩
    · have htokens := Pointer.write_injective (hpath'.symm.trans hpath)
      exact absurd htokens (hne (toString i) [])
    · obtain ⟨rest, -, hpath', -, -⟩ := found_of_mem_checkAt hstep
      have htokens := Pointer.write_injective (hpath'.symm.trans hpath)
      -- so the violation comes from the check of this step
      have hindex : j = i := toString_nat_injective (List.cons.inj (List.cons.inj htokens).2).1
      subst hindex
      obtain rfl : ts' = ts := by simpa [hsteps] using hsteps'.symm
      obtain rfl : u = .obj fs := by simpa [hi] using hu.symm
      exact hstep
  · exact mem_checkAt_workflow_of_step hsteps hi

/-- The violations that say that a step lacks a field, for a step that is an object: one for each field it lacks. -/
theorem missing_fields_perm (doc : Tree) (ts : List Tree) (i : Nat) (fs : Fields)
    (hsteps : doc.field? "steps" = some (.arr ts)) (hi : ts[i]? = some (.obj fs)) :
    List.Perm
      (((validate doc).filter fun v => v.path = "/steps/" ++ toString i ∧ v.keyword = "required").map
        fun v => v.params.field? "missingProperty")
      ((Grammar.lacking fs).map fun name => some (.str name)) ∧
    (Grammar.lacking fs).Nodup := by
  have hlacking : (Grammar.lacking fs).Nodup := (Grammar.nodup_required fs).filter _
  refine ⟨?_, hlacking⟩
  have hplace : "/steps/" ++ toString i = Pointer.write ["steps", toString i] := by
    have hsteps : "/steps" ++ "/" = "/steps/" := by decide
    rw [← hsteps]
    exact Pointer.pathTo_toString "/steps" i
  have hperm : List.Perm
      ((validate doc).filter fun v => v.path = "/steps/" ++ toString i ∧ v.keyword = "required")
      ((Grammar.lacking fs).map (missing ("/steps/" ++ toString i))) := by
    have hreport : (validate doc).Nodup := (Workflow.schema.ascending_check doc).nodup
    have hmissing : ((Grammar.lacking fs).map (missing ("/steps/" ++ toString i))).Nodup :=
      hlacking.map fun name name' h => missing_message_injective (congrArg message h)
    refine (List.perm_ext_iff_of_nodup (hreport.filter _) hmissing).mpr ?_
    intro v
    rw [List.mem_filter, List.mem_map, decide_eq_true_eq, hplace]
    constructor
    · rintro ⟨hv, hpath, -⟩
      obtain ⟨name, hname, rfl⟩ := (mem_validate_step_iff hsteps hi hpath).mp hv
      exact ⟨name, hname, rfl⟩
    · rintro ⟨name, hname, rfl⟩
      exact ⟨(mem_validate_step_iff hsteps hi rfl).mpr ⟨name, hname, rfl⟩, rfl, rfl⟩
  have hmap := hperm.map fun v => v.params.field? "missingProperty"
  rw [List.map_map] at hmap
  exact hmap

theorem missing_fields_perm_unfinished :
    unfinished.field? "steps" = some (.arr [
      .obj [("name", .str "open"), ("action", .str "navigate"), ("url", .str "/")],
      .obj [("action", .str "fill"), ("selector", .bool true)]]) ∧
    Grammar.lacking [("action", .str "fill"), ("selector", .bool true)] = ["name", "value"] ∧
    List.Perm
      (((validate unfinished).filter fun v => v.path = "/steps/" ++ toString 1 ∧ v.keyword = "required").map
        fun v => v.params.field? "missingProperty")
      [some (.str "name"), some (.str "value")] := by
  refine ⟨by decide, by decide, ?_⟩
  exact (missing_fields_perm unfinished _ 1 [("action", .str "fill"), ("selector", .bool true)] rfl rfl).1

end FlowScript

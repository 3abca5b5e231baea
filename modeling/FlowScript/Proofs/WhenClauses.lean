import FlowScript.Proofs.Lowering
import FlowScript.Script.Literal

/-!
# When clauses

A clause is a single comparison, or a list of conditions; `WhenClause.HasConditions` says which conditions it has by its
shape.  A clause without such a shape is refused as a whole, and one with a shape becomes a guard condition by condition
(`Guard.ofWhen_of_hasConditions`), up to the first operator that is not known.  `WhenClause.classified` lists what can
become of a clause, what the script has for it, and when a warning is given.
-/

namespace FlowScript

/-- The operators that a condition may have. -/
def operators : List String := ["==", "!=", ">", ">=", "<", "<="]

/-- An operator in the script: equality is strict there. -/
def strict (op : String) : String :=
  if op = "==" then "===" else if op = "!=" then "!==" else op

/-- A condition in the script. -/
def Condition.text (c : Condition) : String := c.field ++ " " ++ strict c.op ++ " " ++ Script.literal c.value

theorem exists_symbol_of_mem_operators {op : String} (h : op ∈ operators) : ∃ k : Comparison, op = k.symbol := by
  simp only [operators, List.mem_cons, List.not_mem_nil, or_false] at h
  rcases h with rfl | rfl | rfl | rfl | rfl | rfl
  · exact ⟨.equals, rfl⟩
  · exact ⟨.notEquals, rfl⟩
  · exact ⟨.gt, rfl⟩
  · exact ⟨.gte, rfl⟩
  · exact ⟨.lt, rfl⟩
  · exact ⟨.lte, rfl⟩

theorem Comparison.strict_symbol (k : Comparison) : strict k.symbol = k.operator := by
  cases k <;> decide

theorem Comparison.ofSymbol?_eq_none {op : String} (h : op ∉ operators) : ofSymbol? op = none := by
  rw [ofSymbol?, List.find?_eq_none]
  intro k _ hk
  refine h ?_
  rw [← of_decide_eq_true hk]
  cases k <;> decide

namespace Test

/-- Conditions of known operators become tests, which are written as the conditions are. -/
theorem ofConditions_of_known {cs : List Condition} (h : ∀ c ∈ cs, c.op ∈ operators) :
    ∃ ts, ofConditions cs = .ok ts ∧ ts.map Script.test = cs.map Condition.text := by
  induction cs with
  | nil => exact ⟨[], rfl, rfl⟩
  | cons c cs ih =>
    rw [List.forall_mem_cons] at h
    obtain ⟨k, hk⟩ := exists_symbol_of_mem_operators h.1
    obtain ⟨ts, hts, htext⟩ := ih h.2
    refine ⟨⟨c.field, k, c.value⟩ :: ts, ?_, ?_⟩
    · rw [ofConditions, ofCondition, hk, make_symbol, hts]
      rfl
    · rw [List.map_cons, List.map_cons, htext, Script.test, Condition.text, hk, k.strict_symbol]

/-- The first condition with an operator that is not known is reported. -/
theorem ofConditions_of_unknown {before after : List Condition} {c : Condition}
    (hbefore : ∀ d ∈ before, d.op ∈ operators) (hc : c.op ∉ operators) :
    ofConditions (before ++ c :: after) = .error (.unknownOperator c.op c.field) := by
  induction before with
  | nil =>
    rw [List.nil_append, ofConditions, ofCondition, make, Comparison.ofSymbol?_eq_none hc]
    rfl
  | cons d before ih =>
    rw [List.forall_mem_cons] at hbefore
    obtain ⟨k, hk⟩ := exists_symbol_of_mem_operators hbefore.1
    rw [List.cons_append, ofConditions, ofCondition, hk, make_symbol, ih hbefore.2]
    rfl

end Test

namespace WhenClause

/-- The conditions that a clause has by its shape: a single one, or those that it lists. -/
inductive HasConditions (w : WhenClause) : List Condition → Prop where
  | simple {field op : String} : w.field = some field → w.op = some op → w.conditions = none →
      HasConditions w [⟨field, op, w.value.getD .null⟩]
  | compound {cs : List Condition} : w.field = none → w.op = none → w.conditions = some cs → cs ≠ [] →
      HasConditions w cs

/-- How the conditions of a clause are joined. -/
def junction (w : WhenClause) : Junction :=
  if w.conditions.isSome then Junction.ofMatch w.matchMode else .and

end WhenClause

namespace Guard

variable {w : WhenClause}

theorem ofWhen_of_hasConditions {cs : List Condition} (h : w.HasConditions cs) :
    ofWhen w = (Test.ofConditions cs).map fun ts => ⟨ts, w.junction⟩ := by
  obtain ⟨field, op, value, conditions, mode⟩ := w
  cases h with
  | simple hfield hop hnone =>
    cases hfield
    cases hop
    cases hnone
    simp only [ofWhen, Test.ofConditions, Test.ofCondition, bind, Except.bind]
    cases Test.make _ _ _ <;> rfl
  | compound hfield hop hcs hne =>
    cases hfield
    cases hop
    cases hcs
    simp only [ofWhen, List.isEmpty_iff, hne, if_false, bind, Except.bind]
    cases Test.ofConditions cs <;> rfl

/-- A clause without conditions is refused for its shape. -/
theorem ofWhen_of_not_hasConditions (h : ¬ ∃ cs, w.HasConditions cs) : ∃ f, ofWhen w = .error f ∧ f.code = "L002" := by
  by_cases hshape : w.OneShape
  · -- only a list of conditions can have a shape and be refused for it: if it is empty
    obtain ⟨field, op, value, conditions, mode⟩ := w
    rcases hshape with ⟨hf, ho, hc⟩ | ⟨hf, ho, hc⟩
    · obtain ⟨field, rfl⟩ := Option.isSome_iff_exists.mp hf
      obtain ⟨op, rfl⟩ := Option.isSome_iff_exists.mp ho
      obtain rfl := Option.isNone_iff_eq_none.mp hc
      exact absurd ⟨_, .simple rfl rfl rfl⟩ h
    · obtain rfl := Option.isNone_iff_eq_none.mp hf
      obtain rfl := Option.isNone_iff_eq_none.mp ho
      obtain ⟨cs, rfl⟩ := Option.isSome_iff_exists.mp hc
      by_cases hcs : cs = []
      · subst hcs
        exact ⟨.noConditions, rfl, rfl⟩
      · exact absurd ⟨cs, .compound rfl rfl rfl hcs⟩ h
  · exact ofWhen_error hshape

theorem ofWhen_of_known {cs : List Condition} (h : w.HasConditions cs) (hknown : ∀ c ∈ cs, c.op ∈ operators) :
    ∃ ts, ofWhen w = .ok ⟨ts, w.junction⟩ ∧ ts.map Script.test = cs.map Condition.text := by
  obtain ⟨ts, hts, htext⟩ := Test.ofConditions_of_known hknown
  exact ⟨ts, by rw [ofWhen_of_hasConditions h, hts]; rfl, htext⟩

theorem ofWhen_of_unknown {before after : List Condition} {c : Condition} (h : w.HasConditions (before ++ c :: after))
    (hbefore : ∀ d ∈ before, d.op ∈ operators) (hc : c.op ∉ operators) :
    ofWhen w = .error (.unknownOperator c.op c.field) := by
  rw [ofWhen_of_hasConditions h, Test.ofConditions_of_unknown hbefore hc]
  rfl

/-- A clause is refused for its shape, or for an operator, or has a guard. -/
theorem ofWhen_cases (w : WhenClause) :
    ((¬ ∃ cs, w.HasConditions cs) ∧ ∃ f, ofWhen w = .error f ∧ f.code = "L002") ∨
      (∃ cs, w.HasConditions cs ∧ (∃ c ∈ cs, c.op ∉ operators) ∧ ∃ f, ofWhen w = .error f ∧ f.code = "L004") ∨
      ∃ cs, w.HasConditions cs ∧ (∀ c ∈ cs, c.op ∈ operators) ∧ ∃ g, ofWhen w = .ok g := by
  by_cases h : ∃ cs, w.HasConditions cs
  · right
    obtain ⟨cs, hcs⟩ := h
    cases hfirst : cs.find? (fun c => decide (c.op ∉ operators)) with
    | none =>
      right
      have hknown : ∀ c ∈ cs, c.op ∈ operators := by simpa using hfirst
      obtain ⟨ts, hts, -⟩ := ofWhen_of_known hcs hknown
      exact ⟨cs, hcs, hknown, _, hts⟩
    | some c =>
      left
      obtain ⟨hc, before, after, rfl, hbefore⟩ := List.find?_eq_some_iff_append.mp hfirst
      have hc : c.op ∉ operators := of_decide_eq_true hc
      have hbefore : ∀ d ∈ before, d.op ∈ operators := by simpa using hbefore
      exact ⟨_, hcs, ⟨c, by simp, hc⟩, _, ofWhen_of_unknown hcs hbefore hc, rfl⟩
  · exact .inl ⟨h, ofWhen_of_not_hasConditions h⟩

end Guard

namespace WhenClause

theorem HasConditions.unique {w : WhenClause} {cs ds : List Condition} (hcs : w.HasConditions cs)
    (hds : w.HasConditions ds) : cs = ds := by
  cases hcs with
  | simple hfield hop hnone =>
    cases hds with
    | simple hfield' hop' _ =>
      cases hfield.symm.trans hfield'
      cases hop.symm.trans hop'
      rfl
    | compound hfield' => cases hfield.symm.trans hfield'
  | compound hfield hop hsome =>
    cases hds with
    | simple hfield' => cases hfield.symm.trans hfield'
    | compound _ _ hsome' _ => exact Option.some.inj (hsome.symm.trans hsome')

/-- The script's condition for a clause. -/
def text (w : WhenClause) : Except GuardFault String := (Guard.ofWhen w).map Script.guard

/-- What becomes of a clause. -/
structure Classified (w : WhenClause) : Prop where
  /-- A clause has a guard iff it has conditions, and all of their operators are known. -/
  accepted : (∃ g, Guard.ofWhen w = .ok g) ↔ ∃ cs, w.HasConditions cs ∧ ∀ c ∈ cs, c.op ∈ operators
  /-- The operators are at fault iff there are conditions, and one of their operators is not known. -/
  unknown : (∃ f, Guard.ofWhen w = .error f ∧ f.problem.code = "L004") ↔
    ∃ cs, w.HasConditions cs ∧ ∃ c ∈ cs, c.op ∉ operators
  /-- It is the first such operator that is named. -/
  first (before after : List Condition) (c : Condition) (hw : w.HasConditions (before ++ c :: after))
    (hbefore : ∀ d ∈ before, d.op ∈ operators) (hc : c.op ∉ operators) :
    ∃ f, Guard.ofWhen w = .error f ∧
      f.problem.message = "Unknown comparison operator `" ++ c.op ++ "` on `" ++ c.field ++ "`"
  /-- The shape is at fault iff the clause has no conditions. -/
  misshapen : (∃ f, Guard.ofWhen w = .error f ∧ f.problem.code = "L002") ↔ ¬ ∃ cs, w.HasConditions cs
  /-- There is a condition in the script iff there is a guard, and otherwise the fault is the same. -/
  text_error (f : GuardFault) : w.text = .error f ↔ Guard.ofWhen w = .error f
  /-- A single comparison is written as it is, and compares with null if it has no value. -/
  text_simple (field op : String) (hfield : w.field = some field) (hop : w.op = some op) (hnone : w.conditions = none)
    (hknown : op ∈ operators) :
    w.text = .ok (field ++ " " ++ strict op ++ " " ++ Script.literal (w.value.getD .null))
  /-- A list of conditions is written in order, and joined as the clause says. -/
  text_compound (cs : List Condition) (hfield : w.field = none) (hop : w.op = none) (hcs : w.conditions = some cs)
    (hne : cs ≠ []) (hknown : ∀ c ∈ cs, c.op ∈ operators) :
    w.text = .ok ((if w.matchMode = some "all" then " && " else " || ").intercalate (cs.map Condition.text))
  /-- A joining word that is not known is warned of iff a list of conditions has it and has a guard. -/
  warned (mode : String) : w.warnings = [.unknownMatch mode] ↔
    (∃ cs, w.conditions = some cs) ∧ (∃ g, Guard.ofWhen w = .ok g) ∧ w.matchMode = some mode ∧ mode ∉ ["all", "any"]
  /-- There is no other warning. -/
  silent (hmode : ∀ mode, w.warnings ≠ [.unknownMatch mode]) : w.warnings = []

theorem HasConditions.exists_and_iff {w : WhenClause} {cs : List Condition} (h : w.HasConditions cs)
    {p : List Condition → Prop} : (∃ ds, w.HasConditions ds ∧ p ds) ↔ p cs := by
  constructor
  · rintro ⟨ds, hds, hp⟩
    rwa [h.unique hds]
  · intro hp
    exact ⟨cs, h, hp⟩

/-- Which of its three outcomes a clause has. -/
private theorem outcome_iff (w : WhenClause) :
    ((∃ g, Guard.ofWhen w = .ok g) ↔ ∃ cs, w.HasConditions cs ∧ ∀ c ∈ cs, c.op ∈ operators) ∧
      ((∃ f, Guard.ofWhen w = .error f ∧ f.code = "L004") ↔ ∃ cs, w.HasConditions cs ∧ ∃ c ∈ cs, c.op ∉ operators) ∧
      ((∃ f, Guard.ofWhen w = .error f ∧ f.code = "L002") ↔ ¬ ∃ cs, w.HasConditions cs) := by
  rcases Guard.ofWhen_cases w with ⟨hno, f, hf, hcode⟩ | ⟨cs, hcs, hunknown, f, hf, hcode⟩ | ⟨cs, hcs, hknown, g, hg⟩
  · have hnone : ∀ cs, ¬ w.HasConditions cs := fun cs hcs => hno ⟨cs, hcs⟩
    simp [hf, hcode, hnone]
  · rw [hcs.exists_and_iff, hcs.exists_and_iff]
    have hsome : ∃ cs, w.HasConditions cs := ⟨cs, hcs⟩
    have hnot : ¬ ∀ c ∈ cs, c.op ∈ operators := by simpa using hunknown
    simp [hf, hcode, hunknown, hnot, hsome]
  · rw [hcs.exists_and_iff, hcs.exists_and_iff]
    have hsome : ∃ cs, w.HasConditions cs := ⟨cs, hcs⟩
    have hnot : ¬ ∃ c ∈ cs, c.op ∉ operators := by simpa using hknown
    simpa [hg, hnot, hsome] using hknown

/-- A clause with conditions of known operators is written condition by condition. -/
private theorem text_of_known {w : WhenClause} {cs : List Condition} (h : w.HasConditions cs)
    (hknown : ∀ c ∈ cs, c.op ∈ operators) :
    w.text = .ok ((Script.joiner w.junction).intercalate (cs.map Condition.text)) := by
  obtain ⟨ts, hts, htext⟩ := Guard.ofWhen_of_known h hknown
  rw [text, hts, ← htext]
  rfl

private theorem warnings_eq_iff {w : WhenClause} {mode : String} :
    w.warnings = [.unknownMatch mode] ↔
      (∃ cs, w.conditions = some cs) ∧ (∃ g, Guard.ofWhen w = .ok g) ∧ w.matchMode = some mode ∧
        mode ∉ ["all", "any"] := by
  unfold warnings
  cases Guard.ofWhen w with
  | error f => simp
  | ok g =>
    cases w.conditions with
    | none => simp
    | some cs =>
      cases w.matchMode with
      | none => simp
      | some word =>
        by_cases hword : word = "all" ∨ word = "any"
        · simp only [if_pos hword, reduceCtorEq, Option.some.injEq, Except.ok.injEq, exists_eq', true_and, false_iff,
            not_and]
          rintro rfl hmode
          exact hmode (by simpa using hword)
        · simp only [if_neg hword, List.cons.injEq, Event.unknownMatch.injEq, and_true, Option.some.injEq, exists_eq',
            true_and, Except.ok.injEq]
          constructor
          · rintro rfl
            exact ⟨rfl, by simpa using hword⟩
          · exact fun h => h.1

theorem warnings_cases (w : WhenClause) : w.warnings = [] ∨ ∃ mode, w.warnings = [.unknownMatch mode] := by
  unfold warnings
  split
  · split
    · exact .inl rfl
    · exact .inr ⟨_, rfl⟩
  · exact .inl rfl

theorem classified (w : WhenClause) : w.Classified := by
  obtain ⟨haccepted, hunknown, hmisshapen⟩ := outcome_iff w
  refine ⟨haccepted, hunknown, ?_, hmisshapen, ?_, ?_, ?_, ?_, ?_⟩
  · intro before after c hw hbefore hc
    exact ⟨_, Guard.ofWhen_of_unknown hw hbefore hc, rfl⟩
  · intro f
    unfold text
    cases Guard.ofWhen w <;> simp [Except.map]
  · intro field op hfield hop hnone hknown
    rw [text_of_known (.simple hfield hop hnone) (List.forall_mem_singleton.mpr hknown)]
    simp [Condition.text]
  · intro cs hfield hop hcs hne hknown
    rw [text_of_known (.compound hfield hop hcs hne) hknown, junction, hcs, Junction.ofMatch]
    simp only [Option.isSome_some, if_true]
    split <;> rfl
  · intro mode
    exact warnings_eq_iff
  · intro hmode
    exact w.warnings_cases.resolve_right fun ⟨mode, h⟩ => hmode mode h

end WhenClause

end FlowScript

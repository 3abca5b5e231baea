import FlowScript.Compile
import FlowScript.Proofs.CheckedAlike
import FlowScript.Proofs.Fields

/-!
# Unknown keys do not matter

A workflow, its steps, their clauses and the conditions of a clause are objects that may have keys of which the compiler
knows nothing.  `Grammar.known` drops these keys at all four places and keeps everything else, so what is known stays
the same when such a key is set or dropped at one of them (`Grammar.Site.known_edit`).  A document and what is known of
it are checked alike and read alike, so the same comes of both; hence the same comes of any two documents of which the
same is known (`compileTree_of_known_eq`), whether they are accepted or not.
-/

namespace FlowScript

namespace Fields

/-- A table of known keys.  Each has a function that drops what is not known in its value. -/
abbrev Table := List (String × (Tree → Tree))

/-- The fields with known keys. -/
def restrict (table : Table) (fs : Fields) : Fields :=
  fs.filterMap fun e => (table.lookup e.1).map fun g => (e.1, g e.2)

variable {table : Table} {fs : Fields} {key : String}

theorem restrict_cons_of_known {v : Tree} {g : Tree → Tree} (h : table.lookup key = some g) :
    restrict table ((key, v) :: fs) = (key, g v) :: restrict table fs := by
  simp [restrict, h]

theorem restrict_cons_of_unknown {v : Tree} (h : table.lookup key = none) :
    restrict table ((key, v) :: fs) = restrict table fs := by
  simp [restrict, h]

theorem get?_restrict {g : Tree → Tree} (h : table.lookup key = some g) (fs : Fields) :
    get? (restrict table fs) key = (get? fs key).map g := by
  induction fs with
  | nil => rfl
  | cons e fs ih =>
    obtain ⟨k, v⟩ := e
    by_cases hk : k = key
    · subst hk
      simp [restrict_cons_of_known h, get?]
    · cases hknown : table.lookup k with
      | none => rw [restrict_cons_of_unknown hknown, ih, get?, if_neg hk]
      | some g' => rw [restrict_cons_of_known hknown, get?, if_neg hk, ih, get?, if_neg hk]

/-- An unknown key may be set without notice. -/
theorem restrict_put (h : table.lookup key = none) (fs : Fields) (v : Tree) :
    restrict table (fs.put key v) = restrict table fs := by
  induction fs with
  | nil => exact restrict_cons_of_unknown h
  | cons e fs ih =>
    obtain ⟨k, w⟩ := e
    unfold put
    split
    · exact restrict_cons_of_unknown h
    · split
      · next heq =>
        subst heq
        rw [restrict_cons_of_unknown h, restrict_cons_of_unknown h]
      · cases hknown : table.lookup k with
        | none => rw [restrict_cons_of_unknown hknown, restrict_cons_of_unknown hknown, ih]
        | some g => rw [restrict_cons_of_known hknown, restrict_cons_of_known hknown, ih]

/-- An unknown key may be dropped without notice. -/
theorem restrict_filter_ne (h : table.lookup key = none) (fs : Fields) :
    restrict table (fs.filter fun e => e.1 ≠ key) = restrict table fs := by
  induction fs with
  | nil => rfl
  | cons e fs ih =>
    obtain ⟨k, w⟩ := e
    by_cases hk : k = key
    · subst hk
      rw [List.filter_cons_of_neg (by simp), ih, restrict_cons_of_unknown h]
    · rw [List.filter_cons_of_pos (by simp [hk])]
      cases hknown : table.lookup k with
      | none => rw [restrict_cons_of_unknown hknown, restrict_cons_of_unknown hknown, ih]
      | some g => rw [restrict_cons_of_known hknown, restrict_cons_of_known hknown, ih]

/-- The value of a key changed, if the key is there. -/
def alter (key : String) (g : Tree → Tree) (fs : Fields) : Fields :=
  fs.map fun e => if e.1 = key then (e.1, g e.2) else e

/-- A known key may change its value in a way that its function does not notice. -/
theorem restrict_alter {g k : Tree → Tree} (hk : table.lookup key = some k) (h : ∀ t, k (g t) = k t) (fs : Fields) :
    restrict table (alter key g fs) = restrict table fs := by
  rw [restrict, restrict, alter, List.filterMap_map]
  congr 1
  funext e
  by_cases he : e.1 = key
  · simp [he, hk, h]
  · simp [he]

theorem lookup_eq_none (h : key ∉ table.map Prod.fst) : table.lookup key = none := by
  rw [List.lookup_eq_none_iff]
  intro e he
  have hmem : e.1 ∈ table.map Prod.fst := List.mem_map_of_mem he
  have hne : key ≠ e.1 := fun heq => h (heq ▸ hmem)
  simpa using hne

/-- What is kept of an object does not change if what is kept of its fields does not. -/
theorem mapFields_mapFields {f : Fields → Fields} (h : ∀ fs, restrict table (f fs) = restrict table fs) (t : Tree) :
    (t.mapFields f).mapFields (restrict table) = t.mapFields (restrict table) := by
  cases t with
  | obj fs => exact congrArg Tree.obj (h fs)
  | _ => rfl

end Fields

/-- A list with one item changed, if it has this item. -/
def Tree.mapItem (i : Nat) (g : Tree → Tree) : Tree → Tree
  | .arr ts => .arr (ts.modify i g)
  | t => t

theorem Tree.mapItems_mapItem {g k : Tree → Tree} (h : ∀ t, k (g t) = k t) (i : Nat) (t : Tree) :
    (t.mapItem i g).mapItems k = t.mapItems k := by
  cases t with
  | arr ts =>
    refine congrArg Tree.arr ?_
    apply List.ext_getElem?
    intro n
    rw [List.getElem?_map, List.getElem?_map, List.getElem?_modify, Option.map_eq_map, Option.map_map]
    congr 1
    funext v
    by_cases hn : i = n <;> simp [hn, h]
  | _ => rfl

namespace Grammar

open Fields

def conditionTable : Table := [("field", id), ("op", id), ("value", id)]

/-- A condition without its unknown keys. -/
def knownCondition : Tree → Tree := Tree.mapFields (restrict conditionTable)

def whenTable : Table := [
  ("field", id),
  ("op", id),
  ("value", id),
  ("conditions", Tree.mapItems knownCondition),
  ("match", id)]

/-- A clause without its unknown keys and those of its conditions. -/
def knownWhen : Tree → Tree := Tree.mapFields (restrict whenTable)

def stepTable : Table := [
  ("name", id),
  ("action", id),
  ("url", id),
  ("selector", id),
  ("value", id),
  ("key", id),
  ("timeout", id),
  ("code", id),
  ("when", knownWhen),
  ("output", id),
  ("hint", id)]

/-- A step without its unknown keys and those of its clause. -/
def knownStep : Tree → Tree := Tree.mapFields (restrict stepTable)

def workflowTable : Table := [("name", id), ("description", id), ("steps", Tree.mapItems knownStep)]

/-- What is known of a document. -/
def known : Tree → Tree := Tree.mapFields (restrict workflowTable)

/-! ### Objects in a document -/

/-- The objects in a document that have known keys: the workflow, a step, the clause of a step, a condition of such a
clause. -/
inductive Site where
  | workflow
  | step (i : Nat)
  | clause (i : Nat)
  | condition (i j : Nat)

def inStep (i : Nat) (g : Tree → Tree) : Tree → Tree := Tree.mapFields (alter "steps" (Tree.mapItem i g))

def inClause (g : Tree → Tree) : Tree → Tree := Tree.mapFields (alter "when" g)

def inCondition (j : Nat) (g : Tree → Tree) : Tree → Tree := Tree.mapFields (alter "conditions" (Tree.mapItem j g))

namespace Site

/-- The keys that are known at an object. -/
def table : Site → Table
  | workflow => workflowTable
  | step _ => stepTable
  | clause _ => whenTable
  | condition _ _ => conditionTable

/-- A document in which the fields of one object are changed, if it has this object. -/
def edit (f : Fields → Fields) : Site → Tree → Tree
  | workflow => Tree.mapFields f
  | step i => inStep i (Tree.mapFields f)
  | clause i => inStep i (inClause (Tree.mapFields f))
  | condition i j => inStep i (inClause (inCondition j (Tree.mapFields f)))

end Site

theorem known_inStep {g : Tree → Tree} (h : ∀ t, knownStep (g t) = knownStep t) (i : Nat) (t : Tree) :
    known (inStep i g t) = known t :=
  mapFields_mapFields (restrict_alter rfl (Tree.mapItems_mapItem h i)) t

theorem knownStep_inClause {g : Tree → Tree} (h : ∀ t, knownWhen (g t) = knownWhen t) (t : Tree) :
    knownStep (inClause g t) = knownStep t :=
  mapFields_mapFields (restrict_alter rfl h) t

theorem knownWhen_inCondition {g : Tree → Tree} (h : ∀ t, knownCondition (g t) = knownCondition t) (j : Nat)
    (t : Tree) : knownWhen (inCondition j g t) = knownWhen t :=
  mapFields_mapFields (restrict_alter rfl (Tree.mapItems_mapItem h j)) t

/-- What is known of a document stays the same when an object of it changes in a way that its table does not notice. -/
theorem Site.known_edit {site : Site} {f : Fields → Fields}
    (h : ∀ fs, restrict site.table (f fs) = restrict site.table fs) (t : Tree) : known (site.edit f t) = known t := by
  have hobject := mapFields_mapFields h
  cases site with
  | workflow => exact hobject t
  | step i => exact known_inStep hobject i t
  | clause i => exact known_inStep (knownStep_inClause hobject) i t
  | condition i j => exact known_inStep (knownStep_inClause (knownWhen_inCondition hobject j)) i t

/-! ### Checking -/

section Checking

open SchemaDocument

variable {d : SchemaDocument} {k : Nat} {table : Table}

theorem alikeByRule_required {names : List String} (h : ∀ name ∈ names, (table.lookup name).isSome = true) (t : Tree) :
    d.AlikeByRule 1 (.required names) t (t.mapFields (restrict table)) := by
  refine .required ?_ t
  intro name hname fs
  obtain ⟨g, hg⟩ := Option.isSome_iff_exists.mp (h name hname)
  rw [get?_restrict hg, Option.isSome_map]

theorem alikeByRule_properties {ps : List (String × Schema)}
    (h : ∀ p ∈ ps, ∃ g, table.lookup p.1 = some g ∧ ∀ v, d.Alike k p.2 v (g v)) (t : Tree) :
    d.AlikeByRule (k + 1) (.properties ps) t (t.mapFields (restrict table)) := by
  refine .properties ?_ t
  intro p hp
  obtain ⟨g, hg, halike⟩ := h p hp
  exact ⟨g, get?_restrict hg, halike⟩

/-- A value that is kept as it is, where the schema looks at nothing below it. -/
theorem kept {key : String} {rs : List Rule} (hkey : table.lookup key = some id) (hrs : rs.all Rule.isShallow = true)
    (hk : 2 ≤ k) : ∃ g, table.lookup key = some g ∧ ∀ v, d.Alike k (.rules rs) v (g v) :=
  ⟨id, hkey, fun v => (Alike.of_isShallow (List.all_eq_true.mp hrs) v).mono hk⟩

theorem alike_operator (t : Tree) : Workflow.schema.Alike 3 (.ref operatorRef) t t :=
  .ref (s := oneOf operators) rfl (.of_isShallow (by decide) t)

theorem alike_condition (t : Tree) : Workflow.schema.Alike 6 (.ref conditionRef) t (knownCondition t) := by
  refine .ref (s := condition) rfl (.rules ?_)
  simp only [List.forall_mem_cons, List.not_mem_nil, false_implies, implies_true, and_true]
  refine ⟨(AlikeByRule.kind_object _ t).mono (by omega), (alikeByRule_required ?_ t).mono (by omega),
    alikeByRule_properties ?_ t⟩
  · decide
  · simp only [List.forall_mem_cons, List.not_mem_nil, false_implies, implies_true, and_true]
    exact ⟨kept rfl rfl (by omega), ⟨id, rfl, alike_operator⟩, kept rfl rfl (by omega)⟩

theorem alike_when (t : Tree) : Workflow.schema.Alike 11 (.ref whenRef) t (knownWhen t) := by
  refine .ref (s := whenClause) rfl (.rules ?_)
  simp only [List.forall_mem_cons, List.not_mem_nil, false_implies, implies_true, and_true]
  refine ⟨(AlikeByRule.kind_object _ t).mono (by omega), alikeByRule_properties ?_ t⟩
  simp only [List.forall_mem_cons, List.not_mem_nil, false_implies, implies_true, and_true]
  exact ⟨kept rfl rfl (by omega), ⟨id, rfl, fun v => (alike_operator v).mono (by omega)⟩, kept rfl rfl (by omega),
    ⟨_, rfl, Alike.filledList alike_condition⟩, kept rfl rfl (by omega)⟩

/-- The rule on an action looks at the action and at the keys that it needs. -/
theorem alike_actionNeeds {action : String} {keys : List String} (haction : table.lookup "action" = some id)
    (hkeys : ∀ key ∈ keys, (table.lookup key).isSome = true) (t : Tree) :
    d.Alike 6 (actionNeeds action keys) t (t.mapFields (restrict table)) := by
  refine .rules ?_
  rw [List.forall_mem_singleton]
  refine .ifThen (.rules ?_) (Alike.mono (.rules (k := 1) ?_) (by omega))
  · simp only [List.forall_mem_cons, List.not_mem_nil, false_implies, implies_true, and_true]
    refine ⟨alikeByRule_properties ?_ t, (alikeByRule_required ?_ t).mono (by omega)⟩
    · rw [List.forall_mem_singleton]
      exact kept haction rfl (by omega)
    · rw [List.forall_mem_singleton, haction]
      rfl
  · rw [List.forall_mem_singleton]
    exact alikeByRule_required hkeys t

theorem alike_step (t : Tree) : Workflow.schema.Alike 14 (.ref stepRef) t (knownStep t) := by
  refine .ref (s := step) rfl (.rules ?_)
  simp only [List.forall_mem_cons, List.not_mem_nil, false_implies, implies_true, and_true]
  refine ⟨(AlikeByRule.kind_object _ t).mono (by omega), (alikeByRule_required ?_ t).mono (by omega),
    alikeByRule_properties ?_ t, .allOf ?_⟩
  · decide
  · simp only [List.forall_mem_cons, List.not_mem_nil, false_implies, implies_true, and_true]
    exact ⟨kept rfl rfl (by omega), kept rfl rfl (by omega), kept rfl rfl (by omega), kept rfl rfl (by omega),
      kept rfl rfl (by omega), kept rfl rfl (by omega), kept rfl rfl (by omega), kept rfl rfl (by omega),
      ⟨_, rfl, alike_when⟩, kept rfl rfl (by omega), kept rfl rfl (by omega)⟩
  · have hneeds : ∀ {action : String} {keys : List String},
        (∀ key ∈ keys, (stepTable.lookup key).isSome = true) →
          Workflow.schema.Alike 11 (actionNeeds action keys) t (knownStep t) :=
      fun hkeys => (alike_actionNeeds rfl hkeys t).mono (by omega)
    simp only [List.forall_mem_cons, List.not_mem_nil, false_implies, implies_true, and_true]
    exact ⟨hneeds (by decide), hneeds (by decide), hneeds (by decide), hneeds (by decide), hneeds (by decide),
      hneeds (by decide)⟩

theorem alike_workflow (t : Tree) : Workflow.schema.Alike 18 workflow t (known t) := by
  refine .rules ?_
  simp only [List.forall_mem_cons, List.not_mem_nil, false_implies, implies_true, and_true]
  refine ⟨(AlikeByRule.kind_object _ t).mono (by omega), (alikeByRule_required ?_ t).mono (by omega),
    alikeByRule_properties ?_ t⟩
  · decide
  · simp only [List.forall_mem_cons, List.not_mem_nil, false_implies, implies_true, and_true]
    exact ⟨kept rfl rfl (by omega), kept rfl rfl (by omega), ⟨_, rfl, Alike.filledList alike_step⟩⟩

/-- Dropping keys makes a tree less deep, but both may nest as many checks as they need. -/
theorem violations_known (t : Tree) : Workflow.schema.violations (known t) = Workflow.schema.violations t := by
  have hsize : 18 ≤ Workflow.schema.size := by decide
  obtain ⟨m, hm⟩ := Workflow.schema.exists_budget_eq t hsize
  obtain ⟨n, hn⟩ := Workflow.schema.exists_budget_eq (known t) hsize
  rw [SchemaDocument.violations, SchemaDocument.violations, hm, hn]
  exact (alike_workflow t m n "").symm

end Checking

/-! ### Reading -/

section Reading

open Decode

variable {α : Type} {table : Table} {key : String} {decode : Decoder α}

/-- A field is looked up and read as before, if reading notices nothing of what was dropped in its value. -/
theorem slot_restrict {g : Tree → Tree} (hg : table.lookup key = some g) (h : ∀ v, decode (g v) = decode v)
    (fs : Fields) (place : Nat) :
    (Row.keyed (restrict table fs)).slot place key decode = (Row.keyed fs).slot place key decode := by
  have hcomp : decode ∘ g = decode := funext h
  rw [Row.slot, Row.slot, get?_restrict hg, Option.map_map, hcomp]

theorem slot_restrict_id (hkey : table.lookup key = some id) (fs : Fields) (place : Nat) :
    (Row.keyed (restrict table fs)).slot place key decode = (Row.keyed fs).slot place key decode :=
  slot_restrict hkey (fun _ => rfl) fs place

theorem settle_restrict (fs : Fields) (shape : Shape) (slots : List SlotState) :
    (Row.keyed (restrict table fs)).settle shape slots = (Row.keyed fs).settle shape slots := rfl

theorem list_mapItems {f : Tree → Tree} (h : ∀ v, decode (f v) = decode v) (t : Tree) :
    list decode (t.mapItems f) = list decode t := by
  cases t with
  | arr ts =>
    change items decode (ts.map f) = items decode ts
    induction ts with
    | nil => rfl
    | cons v ts ih => rw [List.map_cons, items, items, h, ih]
  | _ => rfl

/-- Dropping keys or items never makes a tree null. -/
theorem optional_mapFields {f : Fields → Fields} (h : ∀ v, decode (v.mapFields f) = decode v) (t : Tree) :
    optional decode (t.mapFields f) = optional decode t := by
  cases t with
  | obj fs => exact congrArg (Except.map some) (h (.obj fs))
  | _ => rfl

theorem optional_mapItems {f : Tree → Tree} (h : ∀ v, decode (v.mapItems f) = decode v) (t : Tree) :
    optional decode (t.mapItems f) = optional decode t := by
  cases t with
  | arr ts => exact congrArg (Except.map some) (h (.arr ts))
  | _ => rfl

theorem decode_knownCondition (t : Tree) : Condition.decode (knownCondition t) = Condition.decode t := by
  cases t with
  | obj fs =>
    change Condition.decode (.obj (restrict conditionTable fs)) = _
    simp (disch := simp [conditionTable, List.lookup_cons]) only
      [Condition.decode, row, bind, Except.bind, slot_restrict_id, settle_restrict]
  | _ => rfl

theorem decode_knownWhen (t : Tree) : WhenClause.decode (knownWhen t) = WhenClause.decode t := by
  cases t with
  | obj fs =>
    have hkey : whenTable.lookup "conditions" = some (Tree.mapItems knownCondition) := rfl
    have hconditions := slot_restrict hkey (optional_mapItems (list_mapItems decode_knownCondition)) fs 3
    change WhenClause.decode (.obj (restrict whenTable fs)) = _
    simp (disch := simp [whenTable, List.lookup_cons]) only
      [WhenClause.decode, row, bind, Except.bind, slot_restrict_id, hconditions, settle_restrict]
  | _ => rfl

theorem decode_knownStep (t : Tree) : Step.decode (knownStep t) = Step.decode t := by
  cases t with
  | obj fs =>
    have hkey : stepTable.lookup "when" = some knownWhen := rfl
    have hwhen := slot_restrict hkey (optional_mapFields decode_knownWhen) fs 8
    change Step.decode (.obj (restrict stepTable fs)) = _
    simp (disch := simp [stepTable, List.lookup_cons]) only
      [Step.decode, row, bind, Except.bind, slot_restrict_id, hwhen, settle_restrict]
  | _ => rfl

theorem decode_known (t : Tree) : Workflow.decode (known t) = Workflow.decode t := by
  cases t with
  | obj fs =>
    have hkey : workflowTable.lookup "steps" = some (Tree.mapItems knownStep) := rfl
    have hsteps := slot_restrict hkey (list_mapItems decode_knownStep) fs 2
    change Workflow.decode (.obj (restrict workflowTable fs)) = _
    simp (disch := simp [workflowTable, List.lookup_cons]) only
      [Workflow.decode, row, bind, Except.bind, slot_restrict_id, hsteps, settle_restrict]
  | _ => rfl

end Reading

end Grammar

open Grammar Fields

/-- What the compiler makes of a document, it makes of what is known of it. -/
theorem compileTree_known (document : Tree) (source : String) :
    compileTree (known document) source = compileTree document source := by
  have hvalidate : validate (known document) = validate document :=
    congrArg Violation.report (violations_known document)
  have hread : readWorkflow (known document) = readWorkflow document := by
    unfold readWorkflow
    rw [decode_known]
  unfold compileTree
  rw [hvalidate, hread]

/-- Documents of which the same is known compile to the same script, or fail with the same problems.  What is known of
an object stays the same when any other key is set or dropped, and so does what is known of a document when this is done
to the workflow, to a step, to its clause or to a condition of the clause. -/
theorem compileTree_of_known_eq :
    (∀ d e : Tree, known d = known e → ∀ source : String, compileTree d source = compileTree e source) ∧
    (∀ (table : Table) (fs : Fields) (key : String), key ∉ table.map Prod.fst →
      (∀ v : Tree, restrict table (fs.put key v) = restrict table fs) ∧
        restrict table (fs.filter fun e => e.1 ≠ key) = restrict table fs) ∧
    ∀ (site : Site) (key : String), key ∉ site.table.map Prod.fst → ∀ d : Tree,
      (∀ v : Tree, known (site.edit (fun fs => fs.put key v) d) = known d) ∧
        known (site.edit (fun fs => fs.filter fun e => e.1 ≠ key) d) = known d := by
  refine ⟨?_, ?_, ?_⟩
  · intro d e h source
    rw [← compileTree_known d, h, compileTree_known]
  · intro table fs key hkey
    exact ⟨restrict_put (lookup_eq_none hkey) fs, restrict_filter_ne (lookup_eq_none hkey) fs⟩
  · intro site key hkey d
    have hlookup := lookup_eq_none hkey
    exact ⟨fun v => Site.known_edit (fun fs => restrict_put hlookup fs v) d,
      Site.known_edit (restrict_filter_ne hlookup) d⟩

/-- A workflow whose only step has a clause with one condition, with more fields in each of the four objects. -/
def sampleDocument (more : Fields) : Tree :=
  .obj ([("name", .str "n"), ("steps", .arr [
    .obj ([("action", .str "click"), ("name", .str "s"), ("selector", .str "b"), ("when",
      .obj ([("conditions", .arr [
        .obj ([("field", .str "x"), ("op", .str "=="), ("value", .null)] ++ more)])] ++ more))] ++ more)])] ++ more)

theorem compileTree_sampleDocument :
    known (sampleDocument [("z", .null)]) = known (sampleDocument []) ∧
    compileTree (sampleDocument [("z", .null)]) "f" = compileTree (sampleDocument []) "f" ∧
    "z" ∉ stepTable.map Prod.fst ∧
    restrict stepTable (Fields.put [] "z" .null) = restrict stepTable [] ∧
    "z" ∉ conditionTable.map Prod.fst ∧
    (Site.condition 0 0).edit (fun fs => fs.put "z" .null) (sampleDocument []) ≠ sampleDocument [] ∧
    known ((Site.condition 0 0).edit (fun fs => fs.put "z" .null) (sampleDocument [])) = known (sampleDocument []) := by
  have hknown : known (sampleDocument [("z", .null)]) = known (sampleDocument []) := by rfl
  have hstep : "z" ∉ stepTable.map Prod.fst := by decide
  have hcondition : "z" ∉ conditionTable.map Prod.fst := by decide
  obtain ⟨hcompile, hobject, hsite⟩ := compileTree_of_known_eq
  exact ⟨hknown, hcompile _ _ hknown "f", hstep, (hobject stepTable [] "z" hstep).1 .null, hcondition, by decide,
    (hsite (.condition 0 0) "z" hcondition _).1 .null⟩

end FlowScript

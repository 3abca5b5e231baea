import FlowScript.Proofs.Fields
import FlowScript.Workflow.Basic

/-!
# Reading definitions from objects

For each kind of record, `ReadFrom` says key by key when an object is read as a given value: a required field is there
and decodes to the value's field, and an optional field is read as the value's field.  The lemmas `decode_obj` say that
decoding does just this; what else the object holds does not matter.
-/

namespace FlowScript

/-- Two steps succeed together iff the first succeeds and then the second. -/
theorem bind_eq_ok_iff {ε α β : Type} {first : Except ε α} {next : α → Except ε β} {b : β} :
    first >>= next = .ok b ↔ ∃ a, first = .ok a ∧ next a = .ok b := by
  constructor
  · intro h
    match first with
    | .ok a => exact ⟨a, rfl, h⟩
  · rintro ⟨a, rfl, h⟩
    exact h

namespace Decode

open Fields

variable {α : Type} {fs : Fields} {key : String} {decode : Decoder α}

namespace Slot

variable {s : Slot α} {need : Need} {a b : α}

theorem settled_of_get (h : s.get = .ok a) : (s.state need).Settled := by
  unfold get at h
  cases hf : s.found with
  | none => simp [hf] at h
  | some r =>
    simp only [hf] at h
    simp [SlotState.Settled, state, hf, h]

theorem settled_of_getD (h : s.getD b = .ok a) : (s.state .never).Settled := by
  unfold getD at h
  cases hf : s.found with
  | none => simp [SlotState.Settled, state, hf]
  | some r =>
    simp only [hf] at h
    simp [SlotState.Settled, state, hf, h]

end Slot

theorem get_slot (place : Nat) {a : α} :
    ((Row.keyed fs).slot place key decode).get = .ok a ↔ Has fs key fun v => decode v = .ok a := by
  simp only [Has, Row.slot, Slot.get]
  cases get? fs key <;> simp

theorem getD_slot (place : Nat) {value : Option α} :
    ((Row.keyed fs).slot place key (Decode.optional decode)).getD none = .ok value ↔
      Reads fs key decode value := by
  simp only [Reads, Row.slot, Slot.getD]
  cases get? fs key with
  | none => simp [eq_comm]
  | some v => rfl

theorem settled_of_has {place : Nat} {need : Need} {a : α} (h : Has fs key fun v => decode v = .ok a) :
    (((Row.keyed fs).slot place key decode).state need).Settled :=
  Slot.settled_of_get ((get_slot place).mpr h)

theorem settled_of_reads {place : Nat} {value : Option α} (h : Reads fs key decode value) :
    (((Row.keyed fs).slot place key (Decode.optional decode)).state .never).Settled :=
  Slot.settled_of_getD ((getD_slot place).mpr h)

end Decode

namespace Condition

open Decode Fields

structure ReadFrom (fs : Fields) (c : Condition) : Prop where
  field : Has fs "field" fun v => text v = .ok c.field
  op : Has fs "op" fun v => text v = .ok c.op
  /-- A missing value is null. -/
  value : (get? fs "value").getD .null = c.value

theorem decode_obj {fs : Fields} {c : Condition} : decode (.obj fs) = .ok c ↔ ReadFrom fs c := by
  -- unlike an optional field, the value is there in any case
  have hvalue : ((Row.keyed fs).slot 2 "value" tree).getD .null = .ok ((get? fs "value").getD .null) := by
    simp only [Row.slot, Slot.getD]
    cases get? fs "value" <;> rfl
  simp only [decode, row, bind_eq_ok_iff, pure, Except.pure, Except.ok.injEq, exists_eq_left']
  constructor
  · rintro ⟨-, -, field, hf, op, ho, value, hv, rfl⟩
    rw [hvalue] at hv
    exact ⟨(get_slot 0).mp hf, (get_slot 1).mp ho, Except.ok.inj hv⟩
  · intro h
    refine ⟨(), settle_keyed_eq_ok.mpr ?_, _, (get_slot 0).mpr h.field, _, (get_slot 1).mpr h.op, _, hvalue,
      by rw [h.value]⟩
    simp only [List.forall_mem_cons, List.not_mem_nil, false_implies, implies_true, and_true]
    exact ⟨settled_of_has h.field, settled_of_has h.op, Slot.settled_of_getD hvalue⟩

end Condition

namespace WhenClause

open Decode Fields

structure ReadFrom (fs : Fields) (w : WhenClause) : Prop where
  field : Reads fs "field" text w.field
  op : Reads fs "op" text w.op
  value : Reads fs "value" tree w.value
  conditions : Reads fs "conditions" (list Condition.decode) w.conditions
  matchMode : Reads fs "match" text w.matchMode

theorem decode_obj {fs : Fields} {w : WhenClause} : decode (.obj fs) = .ok w ↔ ReadFrom fs w := by
  simp only [decode, row, bind_eq_ok_iff, pure, Except.pure, Except.ok.injEq, exists_eq_left']
  constructor
  · rintro ⟨-, -, field, hf, op, ho, value, hv, conditions, hc, matchMode, hm, rfl⟩
    exact ⟨(getD_slot 0).mp hf, (getD_slot 1).mp ho, (getD_slot 2).mp hv, (getD_slot 3).mp hc, (getD_slot 4).mp hm⟩
  · intro h
    refine ⟨(), settle_keyed_eq_ok.mpr ?_, _, (getD_slot 0).mpr h.field, _, (getD_slot 1).mpr h.op, _,
      (getD_slot 2).mpr h.value, _, (getD_slot 3).mpr h.conditions, _, (getD_slot 4).mpr h.matchMode, rfl⟩
    simp only [List.forall_mem_cons, List.not_mem_nil, false_implies, implies_true, and_true]
    exact ⟨settled_of_reads h.field, settled_of_reads h.op, settled_of_reads h.value, settled_of_reads h.conditions,
      settled_of_reads h.matchMode⟩

end WhenClause

namespace Step

open Decode Fields

structure ReadFrom (fs : Fields) (s : Step) : Prop where
  name : Has fs "name" fun v => text v = .ok s.name
  action : Has fs "action" fun v => text v = .ok s.action
  url : Reads fs "url" text s.url
  selector : Reads fs "selector" text s.selector
  value : Reads fs "value" tree s.value
  key : Reads fs "key" text s.key
  timeout : Reads fs "timeout" count s.timeout
  code : Reads fs "code" text s.code
  whenClause : Reads fs "when" WhenClause.decode s.whenClause
  output : Reads fs "output" text s.output
  hint : Reads fs "hint" text s.hint

theorem decode_obj {fs : Fields} {s : Step} : decode (.obj fs) = .ok s ↔ ReadFrom fs s := by
  simp only [decode, row, bind_eq_ok_iff, pure, Except.pure, Except.ok.injEq, exists_eq_left']
  constructor
  · rintro ⟨-, -, _, h0, _, h1, _, h2, _, h3, _, h4, _, h5, _, h6, _, h7, _, h8, _, h9, _, h10, rfl⟩
    exact ⟨(get_slot 0).mp h0, (get_slot 1).mp h1, (getD_slot 2).mp h2, (getD_slot 3).mp h3, (getD_slot 4).mp h4,
      (getD_slot 5).mp h5, (getD_slot 6).mp h6, (getD_slot 7).mp h7, (getD_slot 8).mp h8, (getD_slot 9).mp h9,
      (getD_slot 10).mp h10⟩
  · intro h
    refine ⟨(), settle_keyed_eq_ok.mpr ?_, _, (get_slot 0).mpr h.name, _, (get_slot 1).mpr h.action, _,
      (getD_slot 2).mpr h.url, _, (getD_slot 3).mpr h.selector, _, (getD_slot 4).mpr h.value, _,
      (getD_slot 5).mpr h.key, _, (getD_slot 6).mpr h.timeout, _, (getD_slot 7).mpr h.code, _,
      (getD_slot 8).mpr h.whenClause, _, (getD_slot 9).mpr h.output, _, (getD_slot 10).mpr h.hint, rfl⟩
    simp only [List.forall_mem_cons, List.not_mem_nil, false_implies, implies_true, and_true]
    exact ⟨settled_of_has h.name, settled_of_has h.action, settled_of_reads h.url, settled_of_reads h.selector,
      settled_of_reads h.value, settled_of_reads h.key, settled_of_reads h.timeout, settled_of_reads h.code,
      settled_of_reads h.whenClause, settled_of_reads h.output, settled_of_reads h.hint⟩

end Step

namespace Workflow

open Decode Fields

structure ReadFrom (fs : Fields) (w : Workflow) : Prop where
  name : Has fs "name" fun v => text v = .ok w.name
  description : Reads fs "description" text w.description
  steps : Has fs "steps" fun v => list Step.decode v = .ok w.steps

theorem decode_obj {fs : Fields} {w : Workflow} : decode (.obj fs) = .ok w ↔ ReadFrom fs w := by
  simp only [decode, row, bind_eq_ok_iff, pure, Except.pure, Except.ok.injEq, exists_eq_left']
  constructor
  · rintro ⟨-, -, name, hn, description, hd, steps, hs, rfl⟩
    exact ⟨(get_slot 0).mp hn, (getD_slot 1).mp hd, (get_slot 2).mp hs⟩
  · intro h
    refine ⟨(), settle_keyed_eq_ok.mpr ?_, _, (get_slot 0).mpr h.name, _, (getD_slot 1).mpr h.description, _,
      (get_slot 2).mpr h.steps, rfl⟩
    simp only [List.forall_mem_cons, List.not_mem_nil, false_implies, implies_true, and_true]
    exact ⟨settled_of_has h.name, settled_of_reads h.description, settled_of_has h.steps⟩

end Workflow

namespace Decode

/-- A list is read item by item, or not at all. -/
theorem items_eq_ok {α : Type} {decode : Decoder α} {ts : List Tree} {as : List α} :
    items decode ts = .ok as ↔ ts.map decode = as.map .ok := by
  induction ts generalizing as with
  | nil => simp [items, eq_comm]
  | cons t ts ih =>
    simp only [items, bind_eq_ok_iff, List.map_cons]
    constructor
    · rintro ⟨a, ha, rest, hrest, h⟩
      cases h
      rw [List.map_cons, ha, ih.mp hrest]
    · intro h
      cases as with
      | nil => cases h
      | cons a rest =>
        obtain ⟨ha, hrest⟩ := List.cons.inj h
        exact ⟨a, ha, rest, ih.mpr hrest, rfl⟩

/-- What is read from a list is read from its items. -/
theorem exists_mem_of_items {α : Type} {decode : Decoder α} {ts : List Tree} {as : List α} {a : α}
    (h : items decode ts = .ok as) (ha : a ∈ as) : ∃ t ∈ ts, decode t = .ok a := by
  have hmem : .ok a ∈ ts.map decode := by
    rw [items_eq_ok.mp h]
    exact List.mem_map_of_mem ha
  exact List.mem_map.mp hmem

end Decode

end FlowScript

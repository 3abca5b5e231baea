import FlowScript.Proofs.Decoding

/-!
# Writing definitions as objects

For each kind of record, `WrittenTo` says key by key what the object that a value is written to has; a field without
value has no key.  Reading such an object gives the value back, unless the value has a null where null stands for
nothing (`Workflow.decode_encode`).  Definitions of that kind are never read from anything, be it objects or lists
(`Workflow.readable_of_decode`).
-/

namespace FlowScript

namespace Fields

variable {α : Type} {fs : Fields} {key : String} {value : Option α} {encode : α → Tree}

/-! ### Keys of objects that were put together -/

/-- What a key has after entries were put one after the other, if it had `before` at first. -/
def valueAfter (key : String) (before : Option Tree) (entries : List (String × Tree)) : Option Tree :=
  entries.foldl (fun v e => if e.1 = key then some e.2 else v) before

@[simp]
theorem valueAfter_nil {before : Option Tree} : valueAfter key before [] = before := rfl

@[simp]
theorem valueAfter_cons {before : Option Tree} {e : String × Tree} {entries : List (String × Tree)} :
    valueAfter key before (e :: entries) = valueAfter key (if e.1 = key then some e.2 else before) entries := rfl

@[simp]
theorem valueAfter_append {before : Option Tree} {es fs : List (String × Tree)} :
    valueAfter key before (es ++ fs) = valueAfter key (valueAfter key before es) fs := List.foldl_append

@[simp]
theorem valueAfter_entry? {before : Option Tree} {k : String} :
    valueAfter key before (Tree.entry? k encode value) = if k = key then (value.map encode).or before else before := by
  cases value with
  | none => simp [Tree.entry?]
  | some a => simp [Tree.entry?]

theorem get?_ofEntries (entries : List (String × Tree)) (key : String) :
    get? (ofEntries entries) key = valueAfter key none entries := by
  have hput : ∀ (entries : List (String × Tree)) (fs : Fields),
      get? (entries.foldl (fun fs e => put fs e.1 e.2) fs) key = valueAfter key (get? fs key) entries := by
    intro entries
    induction entries with
    | nil => exact fun fs => rfl
    | cons e entries ih =>
      intro fs
      rw [List.foldl_cons, ih, get?_put, valueAfter_cons]
      simp only [eq_comm]
  exact hput entries []

/-! ### Fields that were written -/

/-- A field is read as it was written, if its value is, and is not null. -/
theorem Reads.of_written {decode : Decoder α} (h : get? fs key = value.map encode)
    (hvalue : ∀ a ∈ value, decode (encode a) = .ok a ∧ encode a ≠ .null) : Reads fs key decode value := by
  unfold Reads
  rw [h]
  cases value with
  | none => rfl
  | some a =>
    obtain ⟨hdecode, hnull⟩ := hvalue a rfl
    simp only [Option.map_some, Decode.optional_of_ne_null hnull, hdecode]
    rfl

theorem Reads.of_text {text : Option String} (h : get? fs key = text.map .str) : Reads fs key Decode.text text :=
  .of_written h fun _ _ => ⟨rfl, by simp⟩

theorem Has.of_text {text : String} (h : get? fs key = some (.str text)) :
    Has fs key fun v => Decode.text v = .ok text :=
  ⟨_, h, rfl⟩

end Fields

theorem Decode.list_map {α : Type} {decode : Decoder α} {encode : α → Tree} {as : List α}
    (h : ∀ a ∈ as, decode (encode a) = .ok a) : Decode.list decode (.arr (as.map encode)) = .ok as := by
  refine Decode.items_eq_ok.mpr ?_
  rw [List.map_map]
  exact List.map_congr_left h

namespace Condition

open Fields

structure WrittenTo (c : Condition) (fs : Fields) : Prop where
  field : get? fs "field" = some (.str c.field)
  op : get? fs "op" = some (.str c.op)
  value : get? fs "value" = some c.value

theorem exists_writtenTo (c : Condition) : ∃ fs, c.encode = .obj fs ∧ c.WrittenTo fs :=
  ⟨_, rfl, by constructor <;> simp [get?_ofEntries]⟩

theorem decode_encode (c : Condition) : decode c.encode = .ok c := by
  obtain ⟨fs, heq, h⟩ := c.exists_writtenTo
  rw [heq, decode_obj]
  exact ⟨.of_text h.field, .of_text h.op, by rw [h.value]; rfl⟩

end Condition

namespace WhenClause

open Fields

/-- Null is not a value of a clause. -/
def Readable (w : WhenClause) : Prop := w.value ≠ some .null

structure WrittenTo (w : WhenClause) (fs : Fields) : Prop where
  field : get? fs "field" = w.field.map .str
  op : get? fs "op" = w.op.map .str
  value : get? fs "value" = w.value
  conditions : get? fs "conditions" = w.conditions.map fun cs => .arr (cs.map Condition.encode)
  matchMode : get? fs "match" = w.matchMode.map .str

theorem exists_writtenTo (w : WhenClause) : ∃ fs, w.encode = .obj fs ∧ w.WrittenTo fs :=
  ⟨_, rfl, by constructor <;> simp [get?_ofEntries]⟩

theorem decode_encode {w : WhenClause} (h : w.Readable) : decode w.encode = .ok w := by
  obtain ⟨fs, heq, hw⟩ := w.exists_writtenTo
  rw [heq, decode_obj]
  refine ⟨.of_text hw.field, .of_text hw.op, ?_, ?_, .of_text hw.matchMode⟩
  · refine .of_written (hw.value.trans Option.map_id_apply.symm) fun v hv => ⟨rfl, ?_⟩
    rintro rfl
    exact h hv
  · exact .of_written hw.conditions fun cs _ => ⟨Decode.list_map fun c _ => c.decode_encode, by simp⟩

end WhenClause

namespace Step

open Fields

structure Readable (s : Step) : Prop where
  value : s.value ≠ some .null
  whenClause : ∀ w ∈ s.whenClause, w.Readable

structure WrittenTo (s : Step) (fs : Fields) : Prop where
  name : get? fs "name" = some (.str s.name)
  action : get? fs "action" = some (.str s.action)
  url : get? fs "url" = s.url.map .str
  selector : get? fs "selector" = s.selector.map .str
  value : get? fs "value" = s.value
  key : get? fs "key" = s.key.map .str
  timeout : get? fs "timeout" = s.timeout.map .nat
  code : get? fs "code" = s.code.map .str
  whenClause : get? fs "when" = s.whenClause.map WhenClause.encode
  output : get? fs "output" = s.output.map .str
  hint : get? fs "hint" = s.hint.map .str

theorem exists_writtenTo (s : Step) : ∃ fs, s.encode = .obj fs ∧ s.WrittenTo fs :=
  ⟨_, rfl, by constructor <;> simp [get?_ofEntries]⟩

theorem decode_encode {s : Step} (h : s.Readable) : decode s.encode = .ok s := by
  obtain ⟨fs, heq, hs⟩ := s.exists_writtenTo
  rw [heq, decode_obj]
  refine ⟨.of_text hs.name, .of_text hs.action, .of_text hs.url, .of_text hs.selector, ?_, .of_text hs.key, ?_,
    .of_text hs.code, ?_, .of_text hs.output, .of_text hs.hint⟩
  · refine .of_written (hs.value.trans Option.map_id_apply.symm) fun v hv => ⟨rfl, ?_⟩
    rintro rfl
    exact h.value hv
  · exact .of_written hs.timeout fun n _ => ⟨by simp [Decode.count, Decode.nat, Tree.nat], by simp [Tree.nat]⟩
  · refine .of_written hs.whenClause fun w hw => ⟨WhenClause.decode_encode (h.whenClause w hw), ?_⟩
    obtain ⟨gs, heq, -⟩ := w.exists_writtenTo
    simp [heq]

end Step

namespace Workflow

open Fields

def Readable (w : Workflow) : Prop := ∀ s ∈ w.steps, s.Readable

structure WrittenTo (w : Workflow) (fs : Fields) : Prop where
  name : get? fs "name" = some (.str w.name)
  description : get? fs "description" = w.description.map .str
  steps : get? fs "steps" = some (.arr (w.steps.map Step.encode))

theorem exists_writtenTo (w : Workflow) : ∃ fs, w.encode = .obj fs ∧ w.WrittenTo fs :=
  ⟨_, rfl, by constructor <;> simp [get?_ofEntries]⟩

theorem decode_encode {w : Workflow} (h : w.Readable) : decode w.encode = .ok w := by
  obtain ⟨fs, heq, hw⟩ := w.exists_writtenTo
  rw [heq, decode_obj]
  exact ⟨.of_text hw.name, .of_text hw.description, _, hw.steps,
    Decode.list_map fun s hs => Step.decode_encode (h s hs)⟩

end Workflow

/-! ### What is read at all -/

namespace Decode

variable {α : Type} {row : Row} {place : Nat} {key : String} {decode : Decoder α} {a : α}

/-- Whether by key or by place, a slot holds what its decoder makes of a tree. -/
theorem exists_slot_eq (row : Row) (place : Nat) (key : String) (decode : Decoder α) :
    ∃ found : Option Tree, row.slot place key decode = ⟨key, found.map decode⟩ := by
  cases row with
  | keyed fs => exact ⟨_, rfl⟩
  | placed ts => exact ⟨_, rfl⟩

theorem exists_of_get_slot (h : (row.slot place key decode).get = .ok a) : ∃ v, decode v = .ok a := by
  obtain ⟨found, heq⟩ := exists_slot_eq row place key decode
  rw [heq] at h
  cases found with
  | none => cases h
  | some v => exact ⟨v, h⟩

theorem exists_of_getD_slot (h : (row.slot place key (optional decode)).getD none = .ok (some a)) :
    ∃ v, v ≠ .null ∧ decode v = .ok a := by
  obtain ⟨found, heq⟩ := exists_slot_eq row place key (optional decode)
  rw [heq] at h
  cases found with
  | none => cases h
  | some v =>
    by_cases hnull : v = .null
    · subst hnull
      cases h
    · refine ⟨v, hnull, ?_⟩
      simp only [Slot.getD, Option.map_some, optional_of_ne_null hnull] at h
      cases hv : decode v with
      | error e =>
        rw [hv] at h
        cases h
      | ok b =>
        rw [hv] at h
        cases h
        rfl

/-- An optional field of any value is never read as null. -/
theorem ne_some_null_of_getD_slot {value : Option Tree}
    (h : (row.slot place key (optional tree)).getD none = .ok value) : value ≠ some .null := by
  rintro rfl
  obtain ⟨v, hnull, hv⟩ := exists_of_getD_slot h
  exact hnull (Except.ok.inj hv)

theorem exists_of_list {t : Tree} {as : List α} (h : list decode t = .ok as) : ∀ a ∈ as, ∃ v, decode v = .ok a := by
  intro a ha
  cases t with
  | arr ts =>
    obtain ⟨v, -, hv⟩ := exists_mem_of_items h ha
    exact ⟨v, hv⟩
  | _ => cases h

end Decode

open Decode in
theorem WhenClause.readable_of_decode {t : Tree} {w : WhenClause} (h : decode t = .ok w) : w.Readable := by
  simp only [decode, bind_eq_ok_iff, pure, Except.pure, Except.ok.injEq] at h
  obtain ⟨r, -, -, -, _, -, _, -, _, hvalue, _, -, _, -, rfl⟩ := h
  exact ne_some_null_of_getD_slot hvalue

open Decode in
theorem Step.readable_of_decode {t : Tree} {s : Step} (h : decode t = .ok s) : s.Readable := by
  simp only [decode, bind_eq_ok_iff, pure, Except.pure, Except.ok.injEq] at h
  obtain ⟨r, -, -, -, _, -, _, -, _, -, _, -, _, hvalue, _, -, _, -, _, -, _, hwhen, _, -, _, -, rfl⟩ := h
  refine ⟨ne_some_null_of_getD_slot hvalue, ?_⟩
  rintro w rfl
  obtain ⟨v, -, hv⟩ := exists_of_getD_slot hwhen
  exact WhenClause.readable_of_decode hv

open Decode in
theorem Workflow.readable_of_decode {t : Tree} {w : Workflow} (h : decode t = .ok w) : w.Readable := by
  simp only [decode, bind_eq_ok_iff, pure, Except.pure, Except.ok.injEq] at h
  obtain ⟨r, -, -, -, _, -, _, -, _, hsteps, rfl⟩ := h
  intro s hs
  obtain ⟨v, hlist⟩ := exists_of_get_slot hsteps
  obtain ⟨u, hu⟩ := exists_of_list hlist s hs
  exact Step.readable_of_decode hu

end FlowScript

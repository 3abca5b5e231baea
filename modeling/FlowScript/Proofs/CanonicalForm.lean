import FlowScript.Proofs.CompileOutcome
import FlowScript.Proofs.Encoding

/-!
# The canonical document of a definition

A definition that was read from a document can be written as a document again.  That document is as good as the one it
was read from: it is read as the same definition, it is accepted if the other was, and the same comes of both.

What the schema asks of a document is said once more of definitions (`Workflow.Fits`).  A definition that is read from
an accepted document fits (`WorkflowFields.fits`), and a definition that fits is written as an accepted document
(`Workflow.Fits.describesWorkflow`).
-/

namespace FlowScript

structure Condition.Fits (c : Condition) : Prop where
  field : c.field ≠ ""
  op : ∃ k : Comparison, c.op = k.symbol

structure WhenClause.Fits (w : WhenClause) : Prop where
  field : ∀ field ∈ w.field, field ≠ ""
  op : ∀ op ∈ w.op, ∃ k : Comparison, op = k.symbol
  conditions : ∀ cs ∈ w.conditions, cs ≠ [] ∧ ∀ c ∈ cs, c.Fits
  matchMode : ∀ mode ∈ w.matchMode, mode = "all" ∨ mode = "any"

structure Step.Fits (s : Step) : Prop where
  action : ∃ a ∈ Grammar.needs, s.action = a.1 ∧ ∀ key ∈ a.2, Grammar.given s key = true
  value : ∀ v ∈ s.value, v.IsScalar
  whenClause : ∀ w ∈ s.whenClause, w.Fits

structure Workflow.Fits (w : Workflow) : Prop where
  name : w.name ≠ ""
  steps : w.steps ≠ [] ∧ ∀ s ∈ w.steps, s.Fits

namespace Grammar

open Fields FlowScript.Tree

variable {α : Type} {fs : Fields} {key : String} {p : Tree → Prop}

/-! ### Definitions that were read from accepted documents -/

/-- What was read from a key was decoded from a value that the key may have. -/
private theorem exists_of_reads {decode : Decoder α} {value : Option α} (hmay : May fs key p)
    (h : Reads fs key decode value) : ∀ a ∈ value, ∃ v, p v ∧ decode v = .ok a := by
  rintro a rfl
  obtain ⟨v, hv, hdecode⟩ := h.exists_of_eq_some
  exact ⟨v, hmay v hv, hdecode⟩

/-- A required text is read as what it is. -/
private theorem exists_of_has {text : String} (hp : Has fs key p) (h : Has fs key fun v => Decode.text v = .ok text) :
    ∃ v, p v ∧ Decode.text v = .ok text := by
  obtain ⟨v, hv, hpv⟩ := hp
  obtain ⟨u, hu, htext⟩ := h
  rw [hv, Option.some.injEq] at hu
  subst hu
  exact ⟨v, hpv, htext⟩

private theorem ne_empty {v : Tree} {text : String} (hv : v.IsNonEmptyText) (h : Decode.text v = .ok text) :
    text ≠ "" := by
  obtain ⟨s, rfl, hs⟩ := hv
  exact Except.ok.inj h ▸ hs

theorem ConditionFields.fits (h : ConditionFields fs) {c : Condition} (hc : Condition.decode (.obj fs) = .ok c) :
    c.Fits := by
  obtain ⟨v, hv, htext⟩ := exists_of_has h.field (Condition.decode_obj.mp hc).field
  exact ⟨ne_empty hv htext, h.op_known hc⟩

theorem WhenFields.fits (h : WhenFields fs) {w : WhenClause} (hw : WhenClause.decode (.obj fs) = .ok w) : w.Fits := by
  have hread := WhenClause.decode_obj.mp hw
  refine ⟨?_, ?_, ?_, ?_⟩
  · intro field hfield
    obtain ⟨v, hv, htext⟩ := exists_of_reads h.field hread.field field hfield
    exact ne_empty hv htext
  · intro op hop
    obtain ⟨v, ⟨k, rfl⟩, htext⟩ := exists_of_reads h.op hread.op op hop
    exact ⟨k, (Except.ok.inj htext).symm⟩
  · intro cs hcs
    obtain ⟨v, hv, hlist⟩ := exists_of_reads h.conditions hread.conditions cs hcs
    obtain ⟨hne, hall⟩ := exists_of_list hv hlist
    refine ⟨hne, fun c hc => ?_⟩
    obtain ⟨t, ⟨gs, rfl, hgs⟩, hdecode⟩ := hall c hc
    exact hgs.fits hdecode
  · intro mode hmode
    obtain ⟨v, hv, htext⟩ := exists_of_reads h.matchMode hread.matchMode mode hmode
    rcases hv with rfl | rfl
    · exact .inl (Except.ok.inj htext).symm
    · exact .inr (Except.ok.inj htext).symm

theorem StepFields.fits (h : StepFields fs) {s : Step} (hs : Step.decode (.obj fs) = .ok s) : s.Fits := by
  have hread := Step.decode_obj.mp hs
  refine ⟨h.action_given hs, ?_, ?_⟩
  · intro v hv
    obtain ⟨u, hu, htree⟩ := exists_of_reads h.value hread.value v hv
    exact Except.ok.inj htree ▸ hu
  · intro w hw
    obtain ⟨v, ⟨gs, rfl, hgs⟩, hdecode⟩ := exists_of_reads h.whenClause hread.whenClause w hw
    exact hgs.fits hdecode

theorem WorkflowFields.fits (h : WorkflowFields fs) {w : Workflow} (hw : Workflow.decode (.obj fs) = .ok w) :
    w.Fits := by
  have hread := Workflow.decode_obj.mp hw
  obtain ⟨v, hv, htext⟩ := exists_of_has h.name hread.name
  obtain ⟨u, hu, hlist⟩ := hread.steps
  obtain ⟨l, hl, hfilled⟩ := h.steps
  rw [hl, Option.some.injEq] at hu
  subst hu
  obtain ⟨hne, hall⟩ := exists_of_list hfilled hlist
  refine ⟨ne_empty hv htext, hne, fun s hs => ?_⟩
  obtain ⟨t, ⟨gs, rfl, hgs⟩, hdecode⟩ := hall s hs
  exact hgs.fits hdecode

/-! ### Documents that definitions are written to -/

private theorem may_of_written {value : Option α} {encode : α → Tree} (h : get? fs key = value.map encode)
    (hp : ∀ a ∈ value, p (encode a)) : May fs key p := by
  intro v hv
  rw [h] at hv
  obtain ⟨a, ha, rfl⟩ := Option.map_eq_some_iff.mp hv
  exact hp a ha

private theorem may_text {text : Option String} (h : get? fs key = text.map .str) : May fs key IsText :=
  may_of_written h fun s _ => ⟨s, rfl⟩

/-- A list of values is written as a list of trees of the same kind. -/
private theorem isFilledList_map {as : List α} {encode : α → Tree} (hne : as ≠ []) (h : ∀ a ∈ as, p (encode a)) :
    (Tree.arr (as.map encode)).IsFilledList p := by
  refine ⟨_, rfl, by simpa using hne, ?_⟩
  intro v hv
  obtain ⟨a, ha, rfl⟩ := List.mem_map.mp hv
  exact h a ha

end Grammar

open Fields Grammar FlowScript.Tree

theorem Condition.Fits.isObject {c : Condition} (h : c.Fits) : c.encode.IsObject ConditionFields := by
  obtain ⟨fs, heq, hc⟩ := c.exists_writtenTo
  obtain ⟨k, hk⟩ := h.op
  refine ⟨fs, heq, ⟨_, hc.field, c.field, rfl, h.field⟩, ⟨_, hc.op, k, by rw [hk]⟩, ?_⟩
  rw [hc.value]
  rfl

theorem WhenClause.Fits.isObject {w : WhenClause} (h : w.Fits) : w.encode.IsObject WhenFields := by
  obtain ⟨fs, heq, hw⟩ := w.exists_writtenTo
  refine ⟨fs, heq, ?_, ?_, ?_, ?_⟩
  · exact may_of_written hw.field fun field hfield => ⟨field, rfl, h.field field hfield⟩
  · refine may_of_written hw.op fun op hop => ?_
    obtain ⟨k, rfl⟩ := h.op op hop
    exact ⟨k, rfl⟩
  · refine may_of_written hw.conditions fun cs hcs => ?_
    obtain ⟨hne, hall⟩ := h.conditions cs hcs
    exact isFilledList_map hne fun c hc => (hall c hc).isObject
  · refine may_of_written hw.matchMode fun mode hmode => ?_
    rcases h.matchMode mode hmode with rfl | rfl
    · exact .inl rfl
    · exact .inr rfl

/-- A step has a field that an action may need iff it is written. -/
theorem Step.WrittenTo.given_eq {s : Step} {fs : Fields} (h : s.WrittenTo fs) :
    ∀ key ∈ ["url", "selector", "value", "key", "code"], given s key = (get? fs key).isSome := by
  simp only [List.forall_mem_cons, List.not_mem_nil, false_implies, implies_true, and_true, given, h.url, h.selector,
    h.value, h.key, h.code, Option.isSome_map]

theorem Step.Fits.isObject {s : Step} (h : s.Fits) : s.encode.IsObject StepFields := by
  obtain ⟨fs, heq, hs⟩ := s.exists_writtenTo
  obtain ⟨a, ha, haction, hkeys⟩ := h.action
  refine ⟨fs, heq, ⟨_, hs.name, s.name, rfl⟩, ⟨a, ha, by rw [hs.action, haction], ?_⟩, ?_, ?_, ?_, ?_⟩
  · intro key hkey
    rw [← hs.given_eq key (needs_known a ha key hkey)]
    exact hkeys key hkey
  · simp only [List.forall_mem_cons, List.not_mem_nil, false_implies, implies_true, and_true]
    exact ⟨may_text hs.url, may_text hs.selector, may_text hs.key, may_text hs.code, may_text hs.output,
      may_text hs.hint⟩
  · exact may_of_written (hs.value.trans Option.map_id_apply.symm) h.value
  · exact may_of_written hs.timeout fun n _ => ⟨_, rfl, n, by simp [Number.same]⟩
  · exact may_of_written hs.whenClause fun w hw => (h.whenClause w hw).isObject

theorem Workflow.Fits.describesWorkflow {w : Workflow} (h : w.Fits) : DescribesWorkflow w.encode := by
  obtain ⟨fs, heq, hw⟩ := w.exists_writtenTo
  obtain ⟨hne, hall⟩ := h.steps
  exact ⟨fs, heq, ⟨_, hw.name, w.name, rfl, h.name⟩, may_text hw.description, _, hw.steps,
    isFilledList_map hne fun s hs => (hall s hs).isObject⟩

/-! ### The two documents -/

theorem readWorkflow_eq_ok {t : Tree} {w : Workflow} : readWorkflow t = .ok w ↔ Workflow.decode t = .ok w := by
  unfold readWorkflow
  split
  · next heq => simp [heq]
  · next heq => simp [heq]

/-- A definition is read from its own document, and if the document that it was read from is accepted, then its own is
accepted too and the same comes of both, whatever their label. -/
theorem encode_canonical {t : Tree} {w : Workflow} (h : readWorkflow t = .ok w) :
    readWorkflow w.encode = .ok w ∧
      (validate t = [] → validate w.encode = [] ∧ ∀ source, compileTree w.encode source = compileTree t source) := by
  have hdecode := readWorkflow_eq_ok.mp h
  have hread : readWorkflow w.encode = .ok w :=
    readWorkflow_eq_ok.mpr (Workflow.decode_encode (Workflow.readable_of_decode hdecode))
  refine ⟨hread, ?_⟩
  intro hv
  obtain ⟨fs, rfl, hfs⟩ := violations_eq_nil_iff.mp (SchemaDocument.check_eq_nil.mp hv)
  have hown : validate w.encode = [] :=
    SchemaDocument.check_eq_nil.mpr (violations_eq_nil_iff.mpr (hfs.fits hdecode).describesWorkflow)
  refine ⟨hown, fun source => ?_⟩
  rw [compileTree, compileTree, hown, hv, hread, h]

/-- A document with a key that nobody reads, a null that stands for nothing and a null that is a value. -/
def withNulls : Tree := .obj [
  ("author", .str "ops"),
  ("name", .str "login"),
  ("steps", .arr [
    .obj [("action", .str "fill"), ("name", .str "user"), ("selector", .str "#user"), ("value", .int 7),
      ("when", .obj [("field", .str "input.user"), ("op", .str "!="), ("value", .null)])],
    .obj [("action", .str "wait"), ("name", .str "settle"), ("selector", .str "#done"), ("timeout", .int 500),
      ("when", .obj [
        ("conditions", .arr [.obj [("field", .str "extract.code"), ("op", .str "=="), ("value", .null)]]),
        ("match", .str "all")])]])]

def withNullsDefinition : Workflow :=
  ⟨"login", none, [
    { Step.plain "user" "fill" with
      selector := some "#user", value := some (.int 7),
      whenClause := some ⟨some "input.user", some "!=", none, none, none⟩ },
    { Step.plain "settle" "wait" with
      selector := some "#done", timeout := some 500,
      whenClause := some ⟨none, none, none, some [⟨"extract.code", "==", .null⟩], some "all"⟩ }]⟩

theorem encode_canonical_withNulls :
    readWorkflow withNulls = .ok withNullsDefinition ∧ validate withNulls = [] ∧
      withNullsDefinition.encode ≠ withNulls ∧ readWorkflow withNullsDefinition.encode = .ok withNullsDefinition ∧
      validate withNullsDefinition.encode = [] ∧
      compileTree withNullsDefinition.encode inlineSource = compileTree withNulls inlineSource := by
  have hread : readWorkflow withNulls = .ok withNullsDefinition := rfl
  have hv : validate withNulls = [] := SchemaDocument.check_eq_nil.mpr (by decide +kernel)
  have hne : withNullsDefinition.encode ≠ withNulls := by decide +kernel
  obtain ⟨hown, hsame⟩ := encode_canonical hread
  obtain ⟨hvalid, hcompile⟩ := hsame hv
  exact ⟨hread, hv, hne, hown, hvalid, hcompile inlineSource⟩

end FlowScript

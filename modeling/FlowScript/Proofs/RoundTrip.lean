import FlowScript.Proofs.Encoding
import FlowScript.Program.Encode
import FlowScript.Run.Result

/-!
# Values that are read as they were written

Programs, results of runs and inputs of runs are written as trees, and reading such a tree gives the value back
(`decode_encode_eq`).  A record is read back if each of its keys is (`Decode.slot_of_get?`, `Decode.settle_filled`).  A
value of several kinds is written with its tag beside the fields of its kind; the tag leads to the kind, and the other
fields are read without it (`Decode.Tagged.exists_split_object`).  Free values are taken over as they are, whatever keys
they have.
-/

namespace FlowScript

namespace Fields

/-- Without one key, every other key has what it had. -/
theorem get?_filter_ne {fs : Fields} {tag key : String} (h : key ≠ tag) :
    get? (fs.filter fun f => f.1 ≠ tag) key = get? fs key := by
  induction fs with
  | nil => rfl
  | cons f fs ih =>
    obtain ⟨k, v⟩ := f
    by_cases hk : k = tag
    · have hne : k ≠ key := fun hkey => h (hkey.symm.trans hk)
      rw [List.filter_cons_of_neg (by simp [hk]), ih, get?, if_neg hne]
    · rw [List.filter_cons_of_pos (by simp [hk]), get?, get?, ih]

end Fields

namespace Decode

open Fields

variable {α : Type} {fs : Fields} {key : String} {decode : Decoder α} {v : Tree} {a : α}

theorem slot_of_get? {place : Nat} (h : get? fs key = some v) (hv : decode v = .ok a) :
    (Row.keyed fs).slot place key decode = ⟨key, some (.ok a)⟩ := by
  simp only [Row.slot, h, Option.map_some, hv]

/-- A record of which every field was found and decoded is complete. -/
theorem settle_filled {shape : Shape} {slots : List SlotState}
    (h : slots.all (fun s => s.fault.isNone && !s.absent) = true) :
    (Row.keyed fs).settle shape slots = .ok () := by
  rw [settle_keyed_eq_ok]
  intro s hs
  have hfilled := List.all_eq_true.mp h s hs
  rw [Bool.and_eq_true, Option.isNone_iff_eq_none, Bool.not_eq_true'] at hfilled
  exact ⟨hfilled.1, fun _ => hfilled.2⟩

theorem text_str (s : String) : text (.str s) = .ok s := rfl

theorem bool_bool (b : Bool) : bool (.bool b) = .ok b := rfl

theorem tree_self (v : Tree) : tree v = .ok v := rfl

theorem fields_obj (fs : Fields) : fields (.obj fs) = .ok fs := rfl

theorem count_nat (n : Nat) : count (.nat n) = .ok n := by
  simp [count, nat, Tree.nat]

theorem index_nat (n : Nat) : index (.nat n) = .ok n := by
  simp [index, nat, Tree.nat]

/-- What is absent is written as null, and null is read as absent. -/
theorem optional_ofOption {encode : α → Tree} {value : Option α}
    (h : ∀ a ∈ value, decode (encode a) = .ok a ∧ encode a ≠ .null) :
    optional decode (Tree.ofOption encode value) = .ok value := by
  cases value with
  | none => rfl
  | some a =>
    obtain ⟨hdecode, hnull⟩ := h a rfl
    rw [Tree.ofOption, optional_of_ne_null hnull, hdecode]
    rfl

theorem optional_text (value : Option String) : optional text (Tree.ofOption .str value) = .ok value :=
  optional_ofOption fun _ _ => ⟨rfl, by simp⟩

/-- An object that was written with a tag is taken apart into the kind that the tag names and the other fields. -/
theorem Tagged.exists_split_object (s : Tagged) (name kind : String) (entries : List (String × Tree))
    (hkind : s.options.contains kind = true) (hentries : ∀ e ∈ entries, e.1 ≠ s.tag) :
    ∃ gs, s.split name (Tree.object ((s.tag, .str kind) :: entries)) = .ok (kind, .keyed gs) ∧
      ∀ key, key ≠ s.tag → get? gs key = valueAfter key none entries := by
  have htag : get? (ofEntries ((s.tag, .str kind) :: entries)) s.tag = some (.str kind) := by
    rw [get?_ofEntries, valueAfter_cons, if_pos rfl]
    -- no later entry has the tag
    induction entries with
    | nil => rfl
    | cons e entries ih =>
      rw [valueAfter_cons, if_neg (hentries e List.mem_cons_self)]
      exact ih fun f hf => hentries f (List.mem_cons_of_mem e hf)
  refine ⟨(ofEntries ((s.tag, .str kind) :: entries)).filter fun f => f.1 ≠ s.tag, ?_, ?_⟩
  · simp only [split, Tree.object, htag, Tagged.kind, hkind]
    rfl
  · intro key hkey
    rw [get?_filter_ne hkey, get?_ofEntries, valueAfter_cons, if_neg hkey.symm]

end Decode

open Decode Fields

namespace Reference

theorem decodeScope_name (s : Scope) : decodeScope (.str s.name) = .ok s := by
  cases s <;> rfl

/-- A reference is read from any fields that have its scope and its name. -/
theorem ofRow_keyed {r : Reference} {fs : Fields} (hscope : get? fs "namespace" = some (.str r.scope.name))
    (hname : get? fs "identifier" = some (.str r.identifier)) : ofRow (.keyed fs) = .ok r := by
  simp only [ofRow, slot_of_get? hscope (decodeScope_name _), slot_of_get? hname (text_str _)]
  rw [settle_filled rfl]
  rfl

theorem decode_encode (r : Reference) : decode r.encode = .ok r := by
  have hscope : get? (ofEntries r.encodeFields) "namespace" = some (.str r.scope.name) := by
    simp [get?_ofEntries, encodeFields]
  have hname : get? (ofEntries r.encodeFields) "identifier" = some (.str r.identifier) := by
    simp [get?_ofEntries, encodeFields]
  exact ofRow_keyed hscope hname

end Reference

namespace Part

theorem decode_encode (p : Part) : decode p.encode = .ok p := by
  unfold decode
  cases p with
  | lit s =>
    obtain ⟨gs, hsplit, hget⟩ :=
      tagged.exists_split_object "TemplatePart" "lit" [("value", .str s)] rfl (by simp [tagged])
    have hvalue : get? gs "value" = some (.str s) := hget "value" (by decide)
    rw [encode, show "part_type" = tagged.tag from rfl, hsplit]
    simp only [bind, Except.bind, slot_of_get? hvalue (text_str _)]
    rw [settle_filled rfl]
    rfl
  | var r =>
    obtain ⟨gs, hsplit, hget⟩ :=
      tagged.exists_split_object "TemplatePart" "var" [("value", r.encode)] rfl (by simp [tagged])
    have hvalue : get? gs "value" = some r.encode := hget "value" (by decide)
    rw [encode, show "part_type" = tagged.tag from rfl, hsplit]
    simp only [bind, Except.bind, String.reduceEq, reduceIte, slot_of_get? hvalue r.decode_encode]
    rw [settle_filled rfl]
    rfl

end Part

namespace Expr

theorem decode_encode (e : Expr) : decode e.encode = .ok e := by
  unfold decode
  cases e with
  | literal v =>
    obtain ⟨gs, hsplit, hget⟩ :=
      tagged.exists_split_object "ValueExpr" "literal" [("value", v)] rfl (by simp [tagged])
    have hvalue : get? gs "value" = some v := hget "value" (by decide)
    rw [encode, show "kind" = tagged.tag from rfl, hsplit]
    simp only [bind, Except.bind, slot_of_get? hvalue (tree_self _)]
    rw [settle_filled rfl]
    rfl
  | ref r =>
    obtain ⟨gs, hsplit, hget⟩ :=
      tagged.exists_split_object "ValueExpr" "variable" r.encodeFields rfl (by simp [tagged, Reference.encodeFields])
    have hscope : get? gs "namespace" = some (.str r.scope.name) := hget "namespace" (by decide)
    have hname : get? gs "identifier" = some (.str r.identifier) := hget "identifier" (by decide)
    rw [encode, show "kind" = tagged.tag from rfl, hsplit]
    simp only [bind, Except.bind, String.reduceEq, reduceIte, Reference.ofRow_keyed hscope hname]
    rfl
  | template ps =>
    obtain ⟨gs, hsplit, hget⟩ :=
      tagged.exists_split_object "ValueExpr" "template" [("parts", .arr (ps.map Part.encode))] rfl (by simp [tagged])
    have hparts : get? gs "parts" = some (.arr (ps.map Part.encode)) := hget "parts" (by decide)
    rw [encode, show "kind" = tagged.tag from rfl, hsplit]
    simp only [bind, Except.bind, String.reduceEq, reduceIte, slot_of_get? hparts (list_map fun p _ => p.decode_encode)]
    rw [settle_filled rfl]
    rfl

end Expr

namespace Action

/-- The fields of an action stand beside its tag. -/
theorem exists_split_encode (a : Action) :
    ∃ gs, tagged.split "Action" a.encode = .ok (a.tag, .keyed gs) ∧
      ∀ key, key ≠ "kind" → get? gs key = valueAfter key none a.encodeFields :=
  tagged.exists_split_object "Action" a.tag a.encodeFields (by cases a <;> rfl)
    (by cases a <;> simp [tagged, encodeFields])

theorem decode_encode (a : Action) : decode a.encode = .ok a := by
  obtain ⟨gs, hsplit, hget⟩ := a.exists_split_encode
  unfold decode
  rw [hsplit]
  cases a with
  | navigate url =>
    have hurl : get? gs "url" = some url.encode := hget "url" (by decide)
    simp only [bind, Except.bind, tag, slot_of_get? hurl url.decode_encode]
    rw [settle_filled rfl]
    rfl
  | fill selector value =>
    have hselector : get? gs "selector" = some (.str selector) := hget "selector" (by decide)
    have hvalue : get? gs "value" = some value.encode := hget "value" (by decide)
    simp only [bind, Except.bind, tag, slot_of_get? hselector (text_str _), slot_of_get? hvalue value.decode_encode]
    rw [settle_filled rfl]
    rfl
  | click selector =>
    have hselector : get? gs "selector" = some (.str selector) := hget "selector" (by decide)
    simp only [bind, Except.bind, tag, slot_of_get? hselector (text_str _)]
    rw [settle_filled rfl]
    rfl
  | press selector key =>
    have hselector : get? gs "selector" = some (.str selector) := hget "selector" (by decide)
    have hkey : get? gs "key" = some (.str key) := hget "key" (by decide)
    simp only [bind, Except.bind, tag, slot_of_get? hselector (text_str _), slot_of_get? hkey (text_str _)]
    rw [settle_filled rfl]
    rfl
  | wait selector milliseconds =>
    have hselector : get? gs "selector" = some (.str selector) := hget "selector" (by decide)
    have htimeout : get? gs "timeout_ms" = some (.nat milliseconds) := hget "timeout_ms" (by decide)
    simp only [bind, Except.bind, tag, slot_of_get? hselector (text_str _),
      slot_of_get? htimeout (count_nat _)]
    rw [settle_filled rfl]
    rfl
  | rawCode code =>
    have hcode : get? gs "code" = some (.str code) := hget "code" (by decide)
    -- the last kind is read where no other one fits
    change (do
      let code := (Row.keyed gs).slot 0 "code" text
      (Row.keyed gs).settle (shape "RawCode") [code.state .required]
      return rawCode (← code.get)) = Except.ok (rawCode code)
    simp only [slot_of_get? hcode (text_str _)]
    rw [settle_filled rfl]
    rfl

end Action

theorem Test.decodeComparison_name (c : Comparison) : decodeComparison (.str c.name) = .ok c := by
  cases c <;> rfl

theorem Test.decode_encode (t : Test) : decode t.encode = .ok t := by
  obtain ⟨fs, heq, hfield, hcomparison, hvalue⟩ : ∃ fs, t.encode = .obj fs ∧
      get? fs "field" = some (.str t.field) ∧ get? fs "operator" = some (.str t.comparison.name) ∧
      get? fs "value" = some t.value :=
    ⟨_, rfl, by simp [get?_ofEntries]⟩
  rw [heq]
  simp only [decode, row, bind, Except.bind, slot_of_get? hfield (text_str _),
    slot_of_get? hcomparison (decodeComparison_name _), slot_of_get? hvalue (tree_self _)]
  rw [settle_filled rfl]
  rfl

theorem Guard.decodeJunction_name (j : Junction) : decodeJunction (.str j.name) = .ok j := by
  cases j <;> rfl

theorem Guard.decode_encode (g : Guard) : decode g.encode = .ok g := by
  obtain ⟨fs, heq, htests, hjunction⟩ : ∃ fs, g.encode = .obj fs ∧
      get? fs "conditions" = some (.arr (g.tests.map Test.encode)) ∧
      get? fs "combine" = some (.str g.junction.name) :=
    ⟨_, rfl, by simp [get?_ofEntries]⟩
  rw [heq]
  simp only [decode, row, bind, Except.bind, slot_of_get? htests (list_map fun t _ => t.decode_encode),
    slot_of_get? hjunction (decodeJunction_name _)]
  rw [settle_filled rfl]
  rfl

theorem Guard.encode_ne_null (g : Guard) : g.encode ≠ .null := by
  simp [encode, Tree.object]

theorem Task.decode_encode (t : Task) : decode t.encode = .ok t := by
  obtain ⟨fs, heq, hindex, hname, haction, hguard, houtput, hhint⟩ : ∃ fs, t.encode = .obj fs ∧
      get? fs "index" = some (.nat t.index) ∧ get? fs "name" = some (.str t.name) ∧
      get? fs "action" = some t.action.encode ∧ get? fs "guard" = some (Tree.ofOption Guard.encode t.guard) ∧
      get? fs "output" = some (Tree.ofOption .str t.output) ∧ get? fs "hint" = some (Tree.ofOption .str t.hint) :=
    ⟨_, rfl, by simp [get?_ofEntries]⟩
  have hguarded : optional Guard.decode (Tree.ofOption Guard.encode t.guard) = .ok t.guard :=
    optional_ofOption fun g _ => ⟨g.decode_encode, g.encode_ne_null⟩
  rw [heq]
  simp only [decode, row, bind, Except.bind, slot_of_get? hindex (index_nat _), slot_of_get? hname (text_str _),
    slot_of_get? haction t.action.decode_encode, slot_of_get? hguard hguarded, slot_of_get? houtput (optional_text _),
    slot_of_get? hhint (optional_text _)]
  rw [settle_filled rfl]
  rfl

theorem Header.decode_encode (h : Header) : decode h.encode = .ok h := by
  obtain ⟨fs, heq, hworkflow, hsource, hdescription⟩ : ∃ fs, h.encode = .obj fs ∧
      get? fs "workflow_name" = some (.str h.workflow) ∧ get? fs "source" = some (.str h.source) ∧
      get? fs "description" = some (Tree.ofOption .str h.description) :=
    ⟨_, rfl, by simp [get?_ofEntries]⟩
  rw [heq]
  simp only [decode, row, bind, Except.bind, slot_of_get? hworkflow (text_str _), slot_of_get? hsource (text_str _),
    slot_of_get? hdescription (optional_text _)]
  rw [settle_filled rfl]
  rfl

theorem Program.decode_encode (p : Program) : decode p.encode = .ok p := by
  obtain ⟨fs, heq, hheader, htasks⟩ : ∃ fs, p.encode = .obj fs ∧
      get? fs "header" = some p.header.encode ∧ get? fs "steps" = some (.arr (p.tasks.map Task.encode)) :=
    ⟨_, rfl, by simp [get?_ofEntries]⟩
  rw [heq]
  simp only [decode, row, bind, Except.bind, slot_of_get? hheader p.header.decode_encode,
    slot_of_get? htasks (list_map fun t _ => t.decode_encode)]
  rw [settle_filled rfl]
  rfl

/-! ### Runs -/

theorem Completed.decode_encode (c : Completed) : decode c.encode = .ok c := by
  obtain ⟨fs, heq, hindex, hname, hsuccess⟩ : ∃ fs, c.encode = .obj fs ∧
      get? fs "index" = some (.nat c.index) ∧ get? fs "name" = some (.str c.name) ∧
      get? fs "success" = some (.bool c.success) :=
    ⟨_, rfl, by simp [get?_ofEntries]⟩
  rw [heq]
  simp only [decode, row, bind, Except.bind, slot_of_get? hindex (index_nat _), slot_of_get? hname (text_str _),
    slot_of_get? hsuccess (bool_bool _)]
  rw [settle_filled rfl]
  rfl

theorem Failure.decode_encode (f : Failure) : decode f.encode = .ok f := by
  obtain ⟨fs, heq, hindex, hname, hselector, hhint, herror⟩ : ∃ fs, f.encode = .obj fs ∧
      get? fs "index" = some (.nat f.index) ∧ get? fs "name" = some (.str f.name) ∧
      get? fs "selector" = some (Tree.ofOption .str f.selector) ∧
      get? fs "hint" = some (Tree.ofOption .str f.hint) ∧ get? fs "error" = some (.str f.error) :=
    ⟨_, rfl, by simp [get?_ofEntries]⟩
  rw [heq]
  simp only [decode, row, bind, Except.bind, slot_of_get? hindex (index_nat _), slot_of_get? hname (text_str _),
    slot_of_get? hselector (optional_text _), slot_of_get? hhint (optional_text _), slot_of_get? herror (text_str _)]
  rw [settle_filled rfl]
  rfl

theorem Failure.encode_ne_null (f : Failure) : f.encode ≠ .null := by
  simp [encode, Tree.object]

theorem RunResult.decode_encode (r : RunResult) : decode r.encode = .ok r := by
  obtain ⟨fs, heq, hsuccess, hcompleted, hfailed, houtput⟩ : ∃ fs, r.encode = .obj fs ∧
      get? fs "success" = some (.bool r.success) ∧
      get? fs "completedSteps" = some (.arr (r.completed.map Completed.encode)) ∧
      get? fs "failedStep" = some (Tree.ofOption Failure.encode r.failed) ∧ get? fs "output" = some (.obj r.output) :=
    ⟨_, rfl, by simp [get?_ofEntries]⟩
  have hfailure : optional Failure.decode (Tree.ofOption Failure.encode r.failed) = .ok r.failed :=
    optional_ofOption fun f _ => ⟨f.decode_encode, f.encode_ne_null⟩
  rw [heq]
  simp only [decode, row, bind, Except.bind, slot_of_get? hsuccess (bool_bool _),
    slot_of_get? hcompleted (list_map fun c _ => c.decode_encode), slot_of_get? hfailed hfailure,
    slot_of_get? houtput (fields_obj _)]
  rw [settle_filled rfl]
  rfl

theorem RunInput.decode_encode (i : RunInput) : decode i.encode = .ok i := by
  obtain ⟨fs, heq, hextract, hconstants, hinput, hstart⟩ : ∃ fs, i.encode = .obj fs ∧
      get? fs "extract" = some (.obj i.extract) ∧ get? fs "constants" = some (.obj i.constants) ∧
      get? fs "input" = some (.obj i.input) ∧ get? fs "startFromStep" = some (.nat i.startFromStep) :=
    ⟨_, rfl, by simp [get?_ofEntries]⟩
  rw [heq]
  simp only [decode, row, bind, Except.bind, slot_of_get? hextract (fields_obj _),
    slot_of_get? hconstants (fields_obj _), slot_of_get? hinput (fields_obj _), slot_of_get? hstart (index_nat _)]
  rw [settle_filled rfl]
  rfl

/-- Programs, results and inputs are read as they were written; so a program has the same script before and after. -/
theorem decode_encode_eq :
    (∀ p : Program, Program.decode p.encode = .ok p) ∧ (∀ r : RunResult, RunResult.decode r.encode = .ok r) ∧
      (∀ i : RunInput, RunInput.decode i.encode = .ok i) ∧
      ∀ p : Program, (Program.decode p.encode).map Program.script = .ok p.script := by
  refine ⟨Program.decode_encode, RunResult.decode_encode, RunInput.decode_encode, ?_⟩
  intro p
  rw [p.decode_encode]
  rfl

end FlowScript

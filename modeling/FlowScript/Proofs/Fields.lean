import FlowScript.Tree.Decode

/-!
# Fields of an object

Three ways to speak of a key of an object: `Has` says that it has a value of a certain kind, `May` that it has no other
value, and `Reads` what a decoder makes of it.  `Decode.settle_keyed_eq_ok` says when a record is complete.  Fields
in ascending order stay so when a key is set, and a look-up finds all of them (`Ascending.put`, `Ascending.mem_iff`).
-/

namespace FlowScript

theorem Decode.optional_of_ne_null {α : Type} {decode : Decoder α} {v : Tree} (h : v ≠ .null) :
    Decode.optional decode v = (decode v).map some := by
  cases v with
  | null => exact absurd rfl h
  | _ => rfl

namespace Fields

/-- The key has a value, and it is as `p` says. -/
def Has (fs : Fields) (key : String) (p : Tree → Prop) : Prop := ∃ v, get? fs key = some v ∧ p v

/-- The key has no value, or one that is as `p` says. -/
def May (fs : Fields) (key : String) (p : Tree → Prop) : Prop := ∀ v, get? fs key = some v → p v

/-- A key that must be there and may only be as `p` says. -/
theorem has_iff {fs : Fields} {key : String} {p : Tree → Prop} :
    Has fs key p ↔ (get? fs key).isSome = true ∧ May fs key p := by
  constructor
  · rintro ⟨v, hv, hp⟩
    refine ⟨by simp [hv], ?_⟩
    intro w hw
    rw [hv] at hw
    exact Option.some.inj hw ▸ hp
  · rintro ⟨hs, hp⟩
    obtain ⟨v, hv⟩ := Option.isSome_iff_exists.mp hs
    exact ⟨v, hv, hp v hv⟩

/-- How an optional field is read: a key without value gives nothing, and so does null. -/
def Reads {α : Type} (fs : Fields) (key : String) (decode : Decoder α) (value : Option α) : Prop :=
  match get? fs key with
  | none => value = none
  | some v => Decode.optional decode v = .ok value

variable {α : Type} {fs : Fields} {key : String} {decode : Decoder α} {value : Option α} {v : Tree}

theorem Reads.of_get?_eq_some (h : Reads fs key decode value) (hv : get? fs key = some v) (hn : v ≠ .null) :
    ∃ a, decode v = .ok a ∧ value = some a := by
  unfold Reads at h
  simp only [hv, Decode.optional_of_ne_null hn] at h
  cases hd : decode v with
  | error e =>
    rw [hd] at h
    cases h
  | ok a =>
    rw [hd] at h
    exact ⟨a, rfl, (Except.ok.inj h).symm⟩

theorem Reads.of_get?_eq_none (h : Reads fs key decode value) (hv : get? fs key = none) : value = none := by
  unfold Reads at h
  rw [hv] at h
  exact h

/-- A key whose value is not null is read as a value. -/
theorem Reads.isSome_eq (h : Reads fs key decode value) (hn : get? fs key ≠ some .null) :
    value.isSome = (get? fs key).isSome := by
  cases hv : get? fs key with
  | none => rw [h.of_get?_eq_none hv, Option.isSome_none, Option.isSome_none]
  | some v =>
    rw [hv] at hn
    obtain ⟨a, -, rfl⟩ := h.of_get?_eq_some hv (fun e => hn (by rw [e]))
    rfl

/-- A value that was read was decoded from the value of the key. -/
theorem Reads.exists_of_eq_some {a : α} (h : Reads fs key decode (some a)) :
    ∃ v, get? fs key = some v ∧ decode v = .ok a := by
  cases hv : get? fs key with
  | none => cases h.of_get?_eq_none hv
  | some v =>
    by_cases hn : v = .null
    · subst hn
      simp only [Reads, hv, Decode.optional] at h
      cases h
    · obtain ⟨b, hb, hab⟩ := h.of_get?_eq_some hv hn
      cases hab
      exact ⟨v, rfl, hb⟩

theorem May.ne_null {p : Tree → Prop} (h : May fs key p) (hp : ¬ p .null) : get? fs key ≠ some .null :=
  fun hv => hp (h .null hv)

/-- A key that may only have values that can be decoded can be read. -/
theorem May.exists_reads {p : Tree → Prop} (h : May fs key p) (decode : Decoder α)
    (hp : ∀ v, p v → ∃ a, decode v = .ok a) : ∃ value, Reads fs key decode value := by
  unfold Reads
  cases hv : get? fs key with
  | none => exact ⟨none, rfl⟩
  | some v =>
    by_cases hn : v = .null
    · subst hn
      exact ⟨none, rfl⟩
    · obtain ⟨a, ha⟩ := hp v (h v hv)
      exact ⟨some a, by simp only [Decode.optional_of_ne_null hn, ha, Except.map]⟩

/-! ### Fields in ascending order -/

/-- The keys are in ascending order; so no key stands twice. -/
def Ascending (fs : Fields) : Prop := fs.Pairwise fun f g => f.1 < g.1

theorem mem_put {f : String × Tree} (h : f ∈ put fs key v) : f = (key, v) ∨ f ∈ fs := by
  induction fs with
  | nil => simpa [put] using h
  | cons g fs ih =>
    obtain ⟨k, w⟩ := g
    unfold put at h
    split at h
    · simpa using h
    · split at h
      · rcases List.mem_cons.mp h with h | h
        · exact .inl h
        · exact .inr (List.mem_cons_of_mem _ h)
      · rcases List.mem_cons.mp h with h | h
        · exact .inr (by rw [h]; exact List.mem_cons_self)
        · rcases ih h with h | h
          · exact .inl h
          · exact .inr (List.mem_cons_of_mem _ h)

theorem Ascending.put (h : Ascending fs) (key : String) (v : Tree) : Ascending (fs.put key v) := by
  induction fs with
  | nil => exact List.pairwise_singleton _ _
  | cons g fs ih =>
    obtain ⟨k, w⟩ := g
    obtain ⟨hhead, htail⟩ := List.pairwise_cons.mp h
    unfold Fields.put
    split
    · next hlt =>
      refine List.pairwise_cons.mpr ⟨?_, h⟩
      intro f hf
      rcases List.mem_cons.mp hf with rfl | hf
      · exact hlt
      · exact String.lt_trans hlt (hhead f hf)
    · next hge =>
      split
      · next heq =>
        subst heq
        exact List.pairwise_cons.mpr ⟨hhead, htail⟩
      · next hne =>
        refine List.pairwise_cons.mpr ⟨?_, ih htail⟩
        intro f hf
        rcases mem_put hf with rfl | hf
        · rcases Std.lt_trichotomy key k with hlt | heq | hlt
          · exact absurd hlt hge
          · exact absurd heq hne
          · exact hlt
        · exact hhead f hf

/-- Among ascending fields, those that a look-up finds are all there are. -/
theorem Ascending.mem_iff (h : Ascending fs) : (key, v) ∈ fs ↔ get? fs key = some v := by
  induction fs with
  | nil => simp [get?]
  | cons g fs ih =>
    obtain ⟨k, w⟩ := g
    obtain ⟨hhead, htail⟩ := List.pairwise_cons.mp h
    rw [List.mem_cons, get?, Prod.mk.injEq]
    by_cases hk : k = key
    · subst hk
      have hnot : (k, v) ∉ fs := fun hmem => String.lt_irrefl k (hhead _ hmem)
      simp [hnot, eq_comm]
    · rw [if_neg hk, ← ih htail]
      simp [Ne.symm hk]

end Fields

namespace Decode

private theorem mem_insertByName {s x : SlotState} {slots : List SlotState} :
    x ∈ insertByName s slots ↔ x = s ∨ x ∈ slots := by
  induction slots with
  | nil => simp [insertByName]
  | cons t r ih =>
    unfold insertByName
    split
    · simp
    · simp only [List.mem_cons, ih]
      exact or_left_comm

private theorem mem_sortByName {x : SlotState} {slots : List SlotState} : x ∈ sortByName slots ↔ x ∈ slots := by
  induction slots with
  | nil => simp [sortByName]
  | cons s r ih =>
    rw [List.mem_cons, ← ih]
    exact mem_insertByName

/-- Nothing is wrong with a slot: its value is not at fault, and it is not missing if it is required. -/
def SlotState.Settled (s : SlotState) : Prop := s.fault = none ∧ (s.need = .required → s.absent = false)

/-- A record that is read by key is complete iff nothing is wrong with any of its slots. -/
theorem settle_keyed_eq_ok {fs : Fields} {shape : Shape} {slots : List SlotState} :
    (Row.keyed fs).settle shape slots = .ok () ↔ ∀ s ∈ slots, s.Settled := by
  unfold Row.settle
  -- a fault is reported before a missing field
  cases hf : (sortByName slots).findSome? (·.fault) with
  | some e =>
    obtain ⟨s, hs, he⟩ := List.exists_of_findSome?_eq_some hf
    simp only [reduceCtorEq, false_iff]
    intro h
    rw [(h s (mem_sortByName.mp hs)).1] at he
    cases he
  | none =>
    rw [List.findSome?_eq_none_iff] at hf
    have hfault : ∀ s ∈ slots, s.fault = none := fun s hs => hf s (mem_sortByName.mpr hs)
    cases hm : slots.find? fun s => s.absent && s.need == .required with
    | some s =>
      have hs := List.mem_of_find?_eq_some hm
      have hp := List.find?_some hm
      simp only [Bool.and_eq_true, beq_iff_eq] at hp
      simp only [reduceCtorEq, false_iff]
      intro h
      rw [(h s hs).2 hp.2] at hp
      cases hp.1
    | none =>
      rw [List.find?_eq_none] at hm
      simp only [true_iff]
      intro s hs
      refine ⟨hfault s hs, ?_⟩
      intro hneed
      have := hm s hs
      simpa [hneed] using this

end Decode

end FlowScript

import FlowScript.Proofs.Acceptance
import FlowScript.Proofs.Pointers

/-!
# What a check finds

A violation is found in one part of the tree, and its text speaks of that part: `Violation.About` lists what can be
said.  One rule finds something wrong with the tree itself, or hands a child of it to a schema, or the tree itself to
another schema (`mem_checkRule_cases`).  So every violation of a check has a path that leads to the part it is about
(`found_of_mem_checkAt`).
-/

namespace FlowScript

/-- What is wrong with a part of a tree. -/
inductive Violation.About (t : Tree) : Violation → Prop where
  | wrongKind (path : String) (k : Kind) : About t (.wrongKind path t k)
  | wrongKinds (path : String) (ks : List Kind) : About t (.wrongKinds path t ks)
  | missing (path name : String) : About t (.missing path name)
  | tooShort (path : String) (limit : Nat) : About t (.tooShort path t limit)
  | tooFew (path : String) (limit : Nat) : About t (.tooFew path t limit)
  | tooSmall (path : String) (limit : Number) : About t (.tooSmall path t limit)
  | notAnOption (path : String) (options : List Tree) : About t (.notAnOption path t options)
  | notConst (path : String) (value : Tree) : About t (.notConst path value)
  | forbidden (path label : String) : About t (.forbidden path label t)

/-- A violation in a tree at some tokens: further tokens lead to the part of the tree that it is about. -/
def Violation.Found (tokens : List String) (t : Tree) (v : Violation) : Prop :=
  ∃ rest u, v.path = Pointer.write (tokens ++ rest) ∧ t.follow? rest = some u ∧ v.About u

theorem Violation.Found.of_child {tokens : List String} {token : String} {t u : Tree} {v : Violation}
    (hchild : t.child? token = some u) (h : v.Found (tokens ++ [token]) u) : v.Found tokens t := by
  obtain ⟨rest, w, hpath, hfollow, habout⟩ := h
  refine ⟨token :: rest, w, ?_, ?_, habout⟩
  · rw [hpath, List.append_assoc, List.singleton_append]
  · rw [Tree.follow?, hchild, Option.bind_some, hfollow]

namespace SchemaDocument

variable {d : SchemaDocument} {fuel : Nat} {path : String} {t : Tree} {v : Violation}

/-- What a rule finds: something about the tree, or about a child of it, or what another schema finds. -/
theorem mem_checkRule_cases {r : Rule} (h : v ∈ d.checkRule (fuel + 1) path r t) :
    (v.path = path ∧ v.About t) ∨
      (∃ token u s, t.child? token = some u ∧ v ∈ d.checkAt fuel (Violation.pathTo path token) s u) ∨
        ∃ s, v ∈ d.checkAt fuel path s t := by
  cases r with
  | kind k =>
    obtain ⟨-, rfl⟩ := mem_demand.mp h
    exact .inl ⟨rfl, .wrongKind path k⟩
  | kinds ks =>
    obtain ⟨-, rfl⟩ := mem_demand.mp h
    exact .inl ⟨rfl, .wrongKinds path ks⟩
  | required names =>
    cases t with
    | obj fs =>
      obtain ⟨name, -, -, rfl⟩ := mem_checkRule_required.mp h
      exact .inl ⟨rfl, .missing path name⟩
    | _ => cases h
  | properties ps =>
    cases t with
    | obj fs =>
      obtain ⟨p, -, u, hget, hv⟩ := mem_checkRule_properties.mp h
      exact .inr (.inl ⟨p.1, u, p.2, hget, hv⟩)
    | _ => cases h
  | items s =>
    cases t with
    | arr ts =>
      obtain ⟨i, u, hu, hv⟩ := mem_checkRule_items.mp h
      rw [Pointer.pathTo_toString] at hv
      exact .inr (.inl ⟨toString i, u, s, by rw [Tree.child?_arr_toString, hu], hv⟩)
    | _ => cases h
  | minItems limit =>
    cases t with
    | arr ts =>
      obtain ⟨-, rfl⟩ := mem_demand.mp h
      exact .inl ⟨rfl, .tooFew path limit⟩
    | _ => cases h
  | minLength limit =>
    cases t with
    | str s =>
      obtain ⟨-, rfl⟩ := mem_demand.mp h
      exact .inl ⟨rfl, .tooShort path limit⟩
    | _ => cases h
  | minimum limit =>
    cases t with
    | num n =>
      obtain ⟨-, rfl⟩ := mem_demand.mp h
      exact .inl ⟨rfl, .tooSmall path limit⟩
    | _ => cases h
  | oneOf options =>
    obtain ⟨-, rfl⟩ := mem_demand.mp h
    exact .inl ⟨rfl, .notAnOption path options⟩
  | const value =>
    obtain ⟨-, rfl⟩ := mem_demand.mp h
    exact .inl ⟨rfl, .notConst path value⟩
  | allOf ss =>
    obtain ⟨s, -, hv⟩ := mem_checkRule_allOf.mp h
    exact .inr (.inr ⟨s, hv⟩)
  | ifThen test result =>
    exact .inr (.inr ⟨result, (mem_checkRule_ifThen.mp h).2⟩)

/-- What a schema finds: that nothing is allowed, or what another schema or one of its rules finds. -/
theorem mem_checkAt_cases {s : Schema} (h : v ∈ d.checkAt (fuel + 1) path s t) :
    (v.path = path ∧ v.About t) ∨ (∃ s, v ∈ d.checkAt fuel path s t) ∨ ∃ r, v ∈ d.checkRule fuel path r t := by
  cases s with
  | always => cases h
  | never label =>
    obtain rfl := List.mem_singleton.mp h
    exact .inl ⟨rfl, .forbidden path label⟩
  | ref target =>
    rw [checkAt] at h
    split at h
    · next s _ => exact .inr (.inl ⟨s, h⟩)
    · cases h
  | rules rs =>
    obtain ⟨r, -, hv⟩ := mem_checkAt_rules.mp h
    exact .inr (.inr ⟨r, hv⟩)

/-- Every violation of a check, however deep it nests, is about the part of the tree that its path leads to. -/
theorem found_of_mem {tokens : List String} :
    (∀ s, v ∈ d.checkAt fuel (Pointer.write tokens) s t → v.Found tokens t) ∧
      ∀ r, v ∈ d.checkRule fuel (Pointer.write tokens) r t → v.Found tokens t := by
  -- both checks nest one check less each time, in the same tree or in a child
  induction fuel generalizing tokens t with
  | zero => exact ⟨fun s h => absurd h (by simp [checkAt]), fun r h => absurd h (by simp [checkRule])⟩
  | succ fuel ih =>
    have here : v.path = Pointer.write tokens ∧ v.About t → v.Found tokens t := by
      rintro ⟨hpath, habout⟩
      exact ⟨[], t, by rw [hpath, List.append_nil], rfl, habout⟩
    constructor
    · intro s h
      rcases mem_checkAt_cases h with h | ⟨s, h⟩ | ⟨r, h⟩
      · exact here h
      · exact ih.1 s h
      · exact ih.2 r h
    · intro r h
      rcases mem_checkRule_cases h with h | ⟨token, u, s, hchild, h⟩ | ⟨s, h⟩
      · exact here h
      · rw [← Pointer.write_append] at h
        exact .of_child hchild (ih.1 s h)
      · exact ih.1 s h

theorem found_of_mem_checkAt {tokens : List String} {s : Schema}
    (h : v ∈ d.checkAt fuel (Pointer.write tokens) s t) : v.Found tokens t :=
  found_of_mem.1 s h

theorem found_of_mem_violations (h : v ∈ d.violations t) : v.Found [] t :=
  found_of_mem_checkAt h

end SchemaDocument

end FlowScript

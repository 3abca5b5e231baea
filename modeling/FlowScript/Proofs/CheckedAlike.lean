import FlowScript.Proofs.Acceptance
import Mathlib.Data.List.Basic

/-!
# Trees that are checked alike

Two trees are alike for a schema if every check of the one finds the same as every check of the other, message by
message, once both may nest so many checks.  For each rule there is a lemma that says when trees are alike for it.  The
second tree is the first one with its fields or its items changed (`Tree.mapFields`, `Tree.mapItems`); a rule does not
notice the change if it keeps what the rule looks at and what its messages show.
-/

namespace FlowScript

namespace Tree

/-- Changes the fields, if the tree is an object. -/
def mapFields (f : Fields → Fields) : Tree → Tree
  | .obj fs => .obj (f fs)
  | t => t

/-- Changes the items, if the tree is a list. -/
def mapItems (f : Tree → Tree) : Tree → Tree
  | .arr ts => .arr (ts.map f)
  | t => t

end Tree

/-- A rule that looks at nothing below the tree itself. -/
def Rule.isShallow : Rule → Bool
  | .properties _ | .items _ | .allOf _ | .ifThen _ _ => false
  | _ => true

namespace SchemaDocument

/-- Two trees of which checks find the same, if at least `k` checks may be nested. -/
def Alike (d : SchemaDocument) (k : Nat) (s : Schema) (t u : Tree) : Prop :=
  ∀ m n path, d.checkAt (m + k) path s t = d.checkAt (n + k) path s u

/-- The same for a single rule. -/
def AlikeByRule (d : SchemaDocument) (k : Nat) (r : Rule) (t u : Tree) : Prop :=
  ∀ m n path, d.checkRule (m + k) path r t = d.checkRule (n + k) path r u

variable {d : SchemaDocument} {k l : Nat} {t u : Tree}

/-! ### Schemas -/

theorem Alike.mono {s : Schema} (h : d.Alike k s t u) (hkl : k ≤ l) : d.Alike l s t u := by
  intro m n path
  have hl : l = l - k + k := by omega
  rw [hl, ← Nat.add_assoc, ← Nat.add_assoc]
  exact h _ _ path

theorem AlikeByRule.mono {r : Rule} (h : d.AlikeByRule k r t u) (hkl : k ≤ l) : d.AlikeByRule l r t u := by
  intro m n path
  have hl : l = l - k + k := by omega
  rw [hl, ← Nat.add_assoc, ← Nat.add_assoc]
  exact h _ _ path

theorem Alike.rules {rs : List Rule} (h : ∀ r ∈ rs, d.AlikeByRule k r t u) : d.Alike (k + 1) (.rules rs) t u := by
  intro m n path
  rw [← Nat.add_assoc, ← Nat.add_assoc, checkAt_rules, checkAt_rules]
  exact List.flatMap_congr fun r hr => h r hr m n path

theorem Alike.ref {target : String} {s : Schema} (hs : d.named.lookup target = some s) (h : d.Alike k s t u) :
    d.Alike (k + 1) (.ref target) t u := by
  intro m n path
  rw [← Nat.add_assoc, ← Nat.add_assoc, checkAt_ref _ _ _ _ _ _ hs, checkAt_ref _ _ _ _ _ _ hs]
  exact h m n path

/-- A shallow rule finds the same of one tree, however many checks may be nested. -/
theorem AlikeByRule.of_isShallow {r : Rule} (h : r.isShallow = true) (t : Tree) : d.AlikeByRule 1 r t t := by
  intro m n path
  cases r with
  | properties | items | allOf | ifThen => cases h
  | _ => cases t <;> rfl

theorem Alike.of_isShallow {rs : List Rule} (h : ∀ r ∈ rs, r.isShallow = true) (t : Tree) :
    d.Alike 2 (.rules rs) t t :=
  .rules fun r hr => .of_isShallow (h r hr) t

/-! ### Rules on any tree -/

theorem AlikeByRule.allOf {ss : List Schema} (h : ∀ s ∈ ss, d.Alike k s t u) :
    d.AlikeByRule (k + 1) (.allOf ss) t u := by
  intro m n path
  exact List.flatMap_congr fun s hs => h s hs m n path

theorem AlikeByRule.ifThen {test result : Schema} (htest : d.Alike k test t u) (hresult : d.Alike k result t u) :
    d.AlikeByRule (k + 1) (.ifThen test result) t u := by
  intro m n path
  rw [← Nat.add_assoc, ← Nat.add_assoc]
  simp only [checkRule, htest m n path, hresult m n path]

/-! ### Rules on fields -/

section Fields

variable {f : Fields → Fields}

/-- Both are objects, or the same tree. -/
theorem AlikeByRule.kind_object (f : Fields → Fields) (t : Tree) :
    d.AlikeByRule 1 (.kind .object) t (t.mapFields f) := by
  intro m n path
  cases t <;> rfl

theorem AlikeByRule.required {names : List String}
    (h : ∀ name ∈ names, ∀ fs, (Fields.get? (f fs) name).isSome = (Fields.get? fs name).isSome) (t : Tree) :
    d.AlikeByRule 1 (.required names) t (t.mapFields f) := by
  intro m n path
  cases t with
  | obj fs =>
    refine List.flatMap_congr fun name hname => ?_
    rw [h name hname fs]
  | _ => rfl

/-- The value of each property is changed into one that is alike. -/
theorem AlikeByRule.properties {ps : List (String × Schema)}
    (h : ∀ p ∈ ps, ∃ g : Tree → Tree, (∀ fs, Fields.get? (f fs) p.1 = (Fields.get? fs p.1).map g) ∧
      ∀ v, d.Alike k p.2 v (g v)) (t : Tree) :
    d.AlikeByRule (k + 1) (.properties ps) t (t.mapFields f) := by
  intro m n path
  cases t with
  | obj fs =>
    refine List.flatMap_congr ?_
    rintro ⟨name, s⟩ hp
    obtain ⟨g, hget, halike⟩ := h (name, s) hp
    have hvalue : Fields.get? (f fs) name = (Fields.get? fs name).map g := hget fs
    simp only [hvalue]
    cases Fields.get? fs name with
    | none => rfl
    | some v => exact halike v m n (Violation.pathTo path name)
  | _ => rfl

end Fields

/-! ### Rules on items -/

section Items

variable {f : Tree → Tree}

theorem AlikeByRule.kind_array (f : Tree → Tree) (t : Tree) : d.AlikeByRule 1 (.kind .array) t (t.mapItems f) := by
  intro m n path
  cases t <;> rfl

/-- A list that is too short is empty, so the message shows nothing that was changed. -/
theorem AlikeByRule.minItems_one (f : Tree → Tree) (t : Tree) : d.AlikeByRule 1 (.minItems 1) t (t.mapItems f) := by
  intro m n path
  cases t with
  | arr ts => cases ts <;> rfl
  | _ => rfl

theorem AlikeByRule.items {s : Schema} (h : ∀ v, d.Alike k s v (f v)) (t : Tree) :
    d.AlikeByRule (k + 1) (.items s) t (t.mapItems f) := by
  intro m n path
  cases t with
  | arr ts =>
    change (ts.zipIdx.flatMap fun p => d.checkAt (m + k) (path ++ "/" ++ toString p.2) s p.1) =
      ((ts.map f).zipIdx.flatMap fun p => d.checkAt (n + k) (path ++ "/" ++ toString p.2) s p.1)
    rw [List.zipIdx_map, List.flatMap_map]
    exact List.flatMap_congr fun p _ => h p.1 m n _
  | _ => rfl

/-- A list with at least one item. -/
theorem Alike.filledList {s : Schema} (h : ∀ v, d.Alike k s v (f v)) (t : Tree) :
    d.Alike (k + 2) (.rules [.kind .array, .minItems 1, .items s]) t (t.mapItems f) := by
  refine .rules ?_
  simp only [List.forall_mem_cons, List.not_mem_nil, false_implies, implies_true, and_true]
  exact ⟨(AlikeByRule.kind_array f t).mono (by omega), (AlikeByRule.minItems_one f t).mono (by omega), .items h t⟩

end Items

end SchemaDocument

end FlowScript

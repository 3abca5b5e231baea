import FlowScript.Tree.Number

/-!
# Document trees

The plain tree that a workflow text stands for: null, booleans, numbers, texts, lists and objects.  An object keeps
its fields in ascending order of their keys; `Fields.put` keeps that order and lets the last value of a key win.
-/

namespace FlowScript

inductive Tree where
  | null
  | bool (value : Bool)
  | num (value : Number)
  | str (value : String)
  | arr (items : List Tree)
  | obj (fields : List (String × Tree))
deriving Inhabited

/-- The fields of an object. -/
abbrev Fields := List (String × Tree)

namespace Fields

/-- The value of a key; the first one counts. -/
def get? (fs : Fields) (key : String) : Option Tree :=
  match fs with
  | [] => none
  | (k, v) :: r => if k = key then some v else get? r key

/-- Sets a key in fields that are in ascending order. -/
def put (fs : Fields) (key : String) (value : Tree) : Fields :=
  match fs with
  | [] => [(key, value)]
  | (k, v) :: r =>
    if key < k then (key, value) :: (k, v) :: r
    else if key = k then (key, value) :: r
    else (k, v) :: put r key value

/-- Setting a key changes what that key has, and nothing else. -/
theorem get?_put (fs : Fields) (key other : String) (value : Tree) :
    get? (put fs key value) other = if other = key then some value else get? fs other := by
  induction fs with
  | nil =>
    by_cases h : key = other
    · simp [put, get?, h]
    · simp [put, get?, h, Ne.symm h]
  | cons f fs ih =>
    obtain ⟨k, v⟩ := f
    unfold put
    split
    · by_cases h : key = other
      · simp [get?, h]
      · simp [get?, h, Ne.symm h]
    · split
      · next h =>
        subst h
        by_cases h : key = other
        · simp [get?, h]
        · simp [get?, h, Ne.symm h]
      · next h =>
        by_cases hk : k = other
        · subst hk
          simp [get?, Ne.symm h]
        · simp [get?, hk, ih]

/-- The fields in ascending order, the last of several values of one key. -/
def ofEntries (entries : List (String × Tree)) : Fields :=
  entries.foldl (fun fs (k, v) => put fs k v) []

end Fields

namespace Tree

def int (n : Int) : Tree := num (.int n)

def nat (n : Nat) : Tree := num (.int n)

/-- An object from entries in any order. -/
def object (entries : List (String × Tree)) : Tree := obj (Fields.ofEntries entries)

/-- The value under a key, if the tree is an object that has it. -/
def field? (t : Tree) (key : String) : Option Tree :=
  match t with
  | obj fs => Fields.get? fs key
  | _ => none

def ofOption {α : Type} (encode : α → Tree) : Option α → Tree
  | none => null
  | some a => encode a

mutual

/-- Equality in which numbers count by their value, so that `1` equals `1.0`. -/
def same : Tree → Tree → Bool
  | null, null => true
  | bool a, bool b => a == b
  | num a, num b => a.same b
  | str a, str b => a == b
  | arr as, arr bs => sameItems as bs
  | obj as, obj bs => sameFields as bs
  | _, _ => false

def sameItems : List Tree → List Tree → Bool
  | [], [] => true
  | a :: as, b :: bs => same a b && sameItems as bs
  | _, _ => false

def sameFields : List (String × Tree) → List (String × Tree) → Bool
  | [], [] => true
  | (k, a) :: as, (l, b) :: bs => k == l && same a b && sameFields as bs
  | _, _ => false

end

mutual

/-- Equality, with a Boolean answer. -/
def eqv : Tree → Tree → Bool
  | null, null => true
  | bool a, bool b => a == b
  | num a, num b => a == b
  | str a, str b => a == b
  | arr as, arr bs => eqvItems as bs
  | obj as, obj bs => eqvFields as bs
  | _, _ => false

def eqvItems : List Tree → List Tree → Bool
  | [], [] => true
  | a :: as, b :: bs => eqv a b && eqvItems as bs
  | _, _ => false

def eqvFields : List (String × Tree) → List (String × Tree) → Bool
  | [], [] => true
  | (k, a) :: as, (l, b) :: bs => k == l && eqv a b && eqvFields as bs
  | _, _ => false

end

mutual

theorem eqv_iff : ∀ a b : Tree, eqv a b = true ↔ a = b
  | null, b | bool _, b | num _, b | str _, b => by cases b <;> simp [eqv]
  | arr as, b => by
    cases b with
    | arr bs => simp [eqv, eqvItems_iff as bs]
    | _ => simp [eqv]
  | obj as, b => by
    cases b with
    | obj bs => simp [eqv, eqvFields_iff as bs]
    | _ => simp [eqv]

theorem eqvItems_iff : ∀ as bs : List Tree, eqvItems as bs = true ↔ as = bs
  | [], bs => by cases bs <;> simp [eqvItems]
  | a :: as, bs => by
    cases bs with
    | nil => simp [eqvItems]
    | cons b bs => simp [eqvItems, eqv_iff a b, eqvItems_iff as bs]

theorem eqvFields_iff : ∀ as bs : List (String × Tree), eqvFields as bs = true ↔ as = bs
  | [], bs => by cases bs <;> simp [eqvFields]
  | (k, a) :: as, bs => by
    cases bs with
    | nil => simp [eqvFields]
    | cons b bs =>
      obtain ⟨l, b⟩ := b
      simp [eqvFields, eqv_iff a b, eqvFields_iff as bs, and_assoc]

end

instance : DecidableEq Tree := fun a b => decidable_of_iff _ (eqv_iff a b)

mutual

/-- How deep lists and objects are nested. -/
def depth : Tree → Nat
  | arr items => depthItems items + 1
  | obj fields => depthFields fields + 1
  | _ => 0

def depthItems : List Tree → Nat
  | [] => 0
  | t :: r => max (depth t) (depthItems r)

def depthFields : List (String × Tree) → Nat
  | [] => 0
  | (_, t) :: r => max (depth t) (depthFields r)

end

end Tree

end FlowScript

import FlowScript.Schema.Basic
import FlowScript.Schema.Violation

/-!
# Checking trees

`SchemaDocument.check` lists every violation of a schema by a tree.  A reference may lead back to a schema that is
being checked, but only a smaller part of the tree can be checked there; so the number of nested checks is bounded by
the size of the schema times the depth of the tree.
-/

namespace FlowScript

namespace Kind

/-- The kinds in a list, in alphabetical order, as a message names them. -/
def choice (ks : List Kind) : String :=
  ", ".intercalate ((all.filter ks.contains).map fun k => "\"" ++ k.name ++ "\"")

end Kind

namespace Violation

def noParams : Tree := .obj []

/-- A number of things, in words. -/
def amount (n : Nat) (thing : String) : String := toString n ++ " " ++ thing ++ (if n = 1 then "" else "s")

def wrongKind (path : String) (t : Tree) (k : Kind) : Violation :=
  ⟨path, t.compact ++ " is not of type \"" ++ k.name ++ "\"", "type", noParams⟩

def wrongKinds (path : String) (t : Tree) (ks : List Kind) : Violation :=
  ⟨path, t.compact ++ " is not of types " ++ Kind.choice ks, "type", noParams⟩

def missing (path name : String) : Violation :=
  ⟨path, Json.quote name ++ " is a required property", "required", .obj [("missingProperty", .str name)]⟩

def tooShort (path : String) (t : Tree) (limit : Nat) : Violation :=
  ⟨path, t.compact ++ " is shorter than " ++ amount limit "character", "minLength", .obj [("limit", .nat limit)]⟩

def tooFew (path : String) (t : Tree) (limit : Nat) : Violation :=
  ⟨path, t.compact ++ " has less than " ++ amount limit "item", "minItems", .obj [("limit", .nat limit)]⟩

def tooSmall (path : String) (t : Tree) (limit : Number) : Violation :=
  ⟨path, t.compact ++ " is less than the minimum of " ++ limit.text, "minimum", noParams⟩

def notAnOption (path : String) (t : Tree) (options : List Tree) : Violation :=
  ⟨path, t.compact ++ " is not one of " ++ (Tree.arr options).compact, "enum",
    .obj [("allowedValues", .arr options)]⟩

def notConst (path : String) (value : Tree) : Violation :=
  ⟨path, value.compact ++ " was expected", "const", noParams⟩

def forbidden (path label : String) (t : Tree) : Violation :=
  ⟨path, "False schema does not allow " ++ t.compact, label, noParams⟩

end Violation

/-- Whether a tree is the constant that a schema asks for.  Numbers need only be near; inside lists and objects they
must have equal values. -/
def Tree.meets : (value t : Tree) → Bool
  | .num a, .num b => a.near b
  | value, t => value.same t

/-- The violation, if the condition fails. -/
def demand (ok : Bool) (v : Violation) : List Violation := if ok then [] else [v]

namespace SchemaDocument

mutual

/-- The violations of a schema by the part of a tree at a path. -/
def checkAt (d : SchemaDocument) (fuel : Nat) (path : String) (s : Schema) (t : Tree) : List Violation :=
  match fuel with
  | 0 => []
  | fuel + 1 =>
    match s with
    | .always => []
    | .never label => [.forbidden path label t]
    | .ref target =>
      match d.named.lookup target with
      | some s => checkAt d fuel path s t
      | none => []
    | .rules rs => rs.flatMap fun r => checkRule d fuel path r t

def checkRule (d : SchemaDocument) (fuel : Nat) (path : String) (r : Rule) (t : Tree) : List Violation :=
  match fuel with
  | 0 => []
  | fuel + 1 =>
    match r, t with
    | .kind k, t => demand (k.holds t) (.wrongKind path t k)
    | .kinds ks, t => demand (ks.any (·.holdsInList t)) (.wrongKinds path t ks)
    | .required names, .obj fs =>
      names.flatMap fun n => demand (Fields.get? fs n).isSome (.missing path n)
    | .properties ps, .obj fs =>
      ps.flatMap fun (name, s) =>
        match Fields.get? fs name with
        | some v => checkAt d fuel (Violation.pathTo path name) s v
        | none => []
    | .items s, .arr ts =>
      ts.zipIdx.flatMap fun (v, i) => checkAt d fuel (path ++ "/" ++ toString i) s v
    | .minItems limit, .arr ts => demand (limit ≤ ts.length) (.tooFew path (.arr ts) limit)
    | .minLength limit, .str x => demand (limit ≤ x.length) (.tooShort path (.str x) limit)
    | .minimum limit, .num n => demand (limit.atMost n) (.tooSmall path (.num n) limit)
    | .oneOf options, t => demand (options.any (·.same t)) (.notAnOption path t options)
    | .const value, t => demand (value.meets t) (.notConst path value)
    | .allOf ss, t => ss.flatMap fun s => checkAt d fuel path s t
    | .ifThen test result, t =>
      if (checkAt d fuel path test t).isEmpty then checkAt d fuel path result t else []
    | _, _ => []

end

theorem checkAt_rules (d : SchemaDocument) (fuel : Nat) (path : String) (rs : List Rule) (t : Tree) :
    d.checkAt (fuel + 1) path (.rules rs) t = rs.flatMap fun r => d.checkRule fuel path r t := rfl

/-- A reference means what the schema means that it names. -/
theorem checkAt_ref (d : SchemaDocument) (fuel : Nat) (path target : String) (s : Schema) (t : Tree)
    (h : d.named.lookup target = some s) :
    d.checkAt (fuel + 1) path (.ref target) t = d.checkAt fuel path s t := by
  rw [checkAt, h]

/-- How many checks can be nested when a tree is checked. -/
def budget (d : SchemaDocument) (t : Tree) : Nat := (d.size + 1) * (t.depth + 1)

def violations (d : SchemaDocument) (t : Tree) : List Violation := d.checkAt (d.budget t) "" d.root t

/-- The report on a tree; it is empty iff the tree is accepted. -/
def check (d : SchemaDocument) (t : Tree) : List Violation := Violation.report (d.violations t)

end SchemaDocument

end FlowScript

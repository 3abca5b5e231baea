import FlowScript.Schema.Basic
import FlowScript.Schema.Violation
import FlowScript.Text.Basic

/-!
# Reading schemas

`SchemaDocument.ofTree?` reads a schema from a tree, and fails if the schema is not well-formed or a reference that is
needed points nowhere.  Only the keywords that `Rule` has a rule for are read, with `$ref` and `definitions`: a schema
that states anything by other keywords (`maxLength`, `pattern`, `anyOf`) is read as if it did not.
-/

namespace FlowScript

namespace SchemaReader

/-- Reads each element, all of which must be readable. -/
def all? {α β : Type} (read : α → Option β) : List α → Option (List β)
  | [] => some []
  | a :: r => do
    let b ← read a
    let bs ← all? read r
    some (b :: bs)

/-- The value that a keyword has to have, if it is there. -/
def keyword? {α : Type} (fs : Fields) (name : String) (read : Tree → Option α) : Option (Option α) :=
  match Fields.get? fs name with
  | some t => (read t).map some
  | none => some none

def text? : Tree → Option String
  | .str s => some s
  | _ => none

def list? : Tree → Option (List Tree)
  | .arr ts => some ts
  | _ => none

/-- Texts without repetition. -/
def names? (t : Tree) : Option (List String) := do
  let ts ← list? t
  let ns ← all? text? ts
  if ns.Nodup then some ns else none

/-- The largest limit. -/
def maxLimit : Nat := Nat.pow 2 64 - 1

/-- A number that is whole and not negative; one above the largest limit is that limit. -/
def limit? : Tree → Option Nat
  | .num (.int n) => if 0 ≤ n then some n.toNat else none
  | .num (.real x) =>
    if x.isWhole && 0 ≤ x.signedUnits then some (min (x.units / Double.unitsPerOne) maxLimit) else none
  | _ => none

def number? : Tree → Option Number
  | .num n => some n
  | _ => none

/-- One kind, or a list of kinds; a list of one is that kind. -/
def kinds? : Tree → Option Rule
  | .str s => (Kind.ofName? s).map .kind
  | t => do
    let ns ← names? t
    let ks ← all? Kind.ofName? ns
    match ks with
    | [] => none
    | [k] => some (.kind k)
    | ks => some (.kinds ks)

/-- The characters that stand for themselves in a fragment. -/
def isFragmentChar (c : Char) : Bool :=
  c.isAlphanum || "-._~!$&'()*+,;=:@/?".toList.contains c

/-- Whether a text is a fragment: characters that may stand there, and percent signs with two digits. -/
def isFragment : List Char → Bool
  | [] => true
  | '%' :: a :: b :: r => isDigitIn 16 a && isDigitIn 16 b && isFragment r
  | c :: r => isFragmentChar c && isFragment r

/-- A reference stays in the document: it is empty or a fragment. -/
def reference? : Tree → Option String
  | .str s =>
    match s.toList with
    | [] => some s
    | '#' :: r => if isFragment r then some s else none
    | _ => none
  | _ => none

mutual

/-- A schema at a place whose last step is `label`. -/
def schema? (fuel : Nat) (label : String) (t : Tree) : Option Schema :=
  match fuel with
  | 0 => none
  | fuel + 1 =>
    match t with
    | .bool true => some .always
    | .bool false => some (.never label)
    | .obj fs => do
      let rs ← rules? fuel fs
      match ← keyword? fs "$ref" reference? with
      | some target => some (.ref target)
      | none => some (.rules rs)
    | _ => none

/-- The rules that the keywords of an object state.  Keywords that are not named here are passed over, whether they are
notes such as `title` or constraints that no rule can say. -/
def rules? (fuel : Nat) (fs : Fields) : Option (List Rule) :=
  match fuel with
  | 0 => none
  | fuel + 1 => do
    let kind ← keyword? fs "type" kinds?
    let required ← keyword? fs "required" names?
    let properties ← keyword? fs "properties" (schemaFields? fuel)
    let items ← keyword? fs "items" (schema? fuel "items")
    let minItems ← keyword? fs "minItems" limit?
    let minLength ← keyword? fs "minLength" limit?
    let minimum ← keyword? fs "minimum" number?
    let options ← keyword? fs "enum" list?
    let allOf ← keyword? fs "allOf" (schemaList? fuel)
    let test ← keyword? fs "if" (schema? fuel "if")
    let result ← keyword? fs "then" (schema? fuel "then")
    let _ ← keyword? fs "definitions" (schemaFields? fuel)
    some <| kind.toList ++ (required.map Rule.required).toList ++ (properties.map Rule.properties).toList ++
      (items.map Rule.items).toList ++ (minItems.map Rule.minItems).toList ++
      (minLength.map Rule.minLength).toList ++ (minimum.map Rule.minimum).toList ++
      (options.map Rule.oneOf).toList ++ ((Fields.get? fs "const").map Rule.const).toList ++
      (allOf.map Rule.allOf).toList ++
      match test, result with
      | some test, some result => [.ifThen test result]
      | _, _ => []

def schemaFields? (fuel : Nat) (t : Tree) : Option (List (String × Schema)) :=
  match fuel with
  | 0 => none
  | fuel + 1 =>
    match t with
    | .obj fs => all? (fun (k, v) => (schema? fuel (Violation.pointerStep k) v).map fun s => (k, s)) fs
    | _ => none

/-- A list of schemas that is not empty. -/
def schemaList? (fuel : Nat) (t : Tree) : Option (List Schema) :=
  match fuel with
  | 0 => none
  | fuel + 1 =>
    match t with
    | .arr (u :: us) => all? (fun (v, i) => schema? fuel (toString (i : Nat)) v) (u :: us).zipIdx
    | _ => none

end

/-- Schemas are nested at most as deep as their tree, with three readers for each level. -/
def read? (label : String) (t : Tree) : Option Schema := schema? (3 * t.depth + 3) label t

/-- A step of a pointer with its escapes undone. -/
def unescape : List Char → List Char
  | '~' :: '1' :: r => '/' :: unescape r
  | '~' :: '0' :: r => '~' :: unescape r
  | c :: r => c :: unescape r
  | [] => []

/-- The octets of a text with percent escapes undone; a percent sign that starts no escape stands for itself. -/
def octets : List Char → List UInt8
  | [] => []
  | '%' :: a :: b :: r =>
    match readDigits? 16 [a, b] with
    | some n => n.toUInt8 :: octets r
    | none => '%'.toUInt8 :: octets (a :: b :: r)
  | c :: r => (String.singleton c).toUTF8.toList ++ octets r

/-- The part of a tree under the steps of a pointer. -/
def follow? : List (List Char) → Tree → Option Tree
  | [], t => some t
  | step :: r, .obj fs => (Fields.get? fs (String.ofList (unescape step))).bind (follow? r)
  | step :: r, .arr ts => do
    let n ← Violation.wordIndex? step
    let t ← ts[n]?
    follow? r t
  | _ :: _, _ => none

/-- The part of a document that a reference names.  Percent escapes are undone before the pointer is cut into
steps. -/
def resolve? (document : Tree) (target : String) : Option Tree :=
  match target.toList with
  | ['#'] | [] => some document
  | '#' :: '/' :: r => do
    let pointer ← String.fromUTF8? ⟨(octets r).toArray⟩
    follow? (pieces (· == '/') pointer.toList) document
  | _ => none

mutual

/-- The references in a schema. -/
def refs : Schema → List String
  | .ref target => [target]
  | .rules rs => ruleRefs rs
  | _ => []

def ruleRefs : List Rule → List String
  | [] => []
  | .properties ps :: rs => fieldRefs ps ++ ruleRefs rs
  | .items s :: rs => refs s ++ ruleRefs rs
  | .allOf ss :: rs => listRefs ss ++ ruleRefs rs
  | .ifThen test result :: rs => refs test ++ refs result ++ ruleRefs rs
  | _ :: rs => ruleRefs rs

def fieldRefs : List (String × Schema) → List String
  | [] => []
  | (_, s) :: ss => refs s ++ fieldRefs ss

def listRefs : List Schema → List String
  | [] => []
  | s :: ss => refs s ++ listRefs ss

end

/-- Adds the schemas that the references in `pending` name, and those that these refer to in turn. -/
def resolveAll? (document : Tree) : (fuel : Nat) → (pending : List String) → (named : List (String × Schema)) →
    Option (List (String × Schema))
  | 0, _, _ => none
  | _, [], named => some named
  | fuel + 1, target :: pending, named =>
    if named.any fun n => n.1 = target then resolveAll? document fuel pending named
    else do
      let t ← resolve? document target
      let s ← read? "$ref" t
      resolveAll? document fuel (refs s ++ pending) ((target, s) :: named)

mutual

/-- How many values a tree has. -/
def count : Tree → Nat
  | .arr ts => countItems ts + 1
  | .obj fs => countFields fs + 1
  | _ => 1

def countItems : List Tree → Nat
  | [] => 0
  | t :: r => count t + countItems r

def countFields : List (String × Tree) → Nat
  | [] => 0
  | (_, t) :: r => count t + countFields r

end

end SchemaReader

open SchemaReader in
/-- The schema that a tree describes, and `none` if it is not usable.  Each value of the tree is read at most once
for each reference in it. -/
def SchemaDocument.ofTree? (t : Tree) : Option SchemaDocument := do
  let root ← read? "" t
  let size := count t
  let named ← resolveAll? t ((size + 1) * (size + 1)) (refs root) []
  some ⟨root, named⟩

end FlowScript

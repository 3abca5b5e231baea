import FlowScript.Text.Basic
import FlowScript.Tree.Basic

/-!
# Decoding trees

Decoders turn a tree into a typed value or say what is wrong with it.  A record is read from an object by key, or from
a list by place.  Values that do not fit are reported before fields that are missing: in an object the first one in
the order of the keys, in a list the first one in the order of the places.
-/

namespace FlowScript

inductive DecodeError where
  | wrongType (found : Tree) (expected : String)
  | wrongValue (found : Tree) (expected : String)
  | wrongLength (length : Nat) (expected : String)
  | missingField (name : String)
  | unknownVariant (name : String) (options : List String)
deriving DecidableEq

namespace DecodeError

/-- What a tree is called in a message. -/
def describe : Tree → String
  | .null => "null"
  | .bool b => "boolean `" ++ (if b then "true" else "false") ++ "`"
  | .num (.int n) => "integer `" ++ toString n ++ "`"
  | .num (.real x) => "floating point `" ++ Number.realText x ++ "`"
  | .str s => "string " ++ showText s
  | .arr _ => "sequence"
  | .obj _ => "map"

def ticked (s : String) : String := "`" ++ s ++ "`"

/-- The names that were possible. -/
def choice : List String → String
  | [a] => ticked a
  | [a, b] => ticked a ++ " or " ++ ticked b
  | names => "one of " ++ ", ".intercalate (names.map ticked)

def message : DecodeError → String
  | wrongType found expected => "invalid type: " ++ describe found ++ ", expected " ++ expected
  | wrongValue found expected => "invalid value: " ++ describe found ++ ", expected " ++ expected
  | wrongLength length expected => "invalid length " ++ toString length ++ ", expected " ++ expected
  | missingField name => "missing field `" ++ name ++ "`"
  | unknownVariant name options => "unknown variant `" ++ name ++ "`, expected " ++ choice options

end DecodeError

abbrev Decoder (α : Type) := Tree → Except DecodeError α

namespace Decode

def tree : Decoder Tree := .ok

def text : Decoder String
  | .str s => .ok s
  | t => .error (.wrongType t "a string")

def bool : Decoder Bool
  | .bool b => .ok b
  | t => .error (.wrongType t "a boolean")

/-- A whole number that is not negative; `expected` names its type in messages. -/
def nat (expected : String) : Decoder Nat
  | .num (.int n) => if 0 ≤ n then .ok n.toNat else .error (.wrongValue (.num (.int n)) expected)
  | t => .error (.wrongType t expected)

def count : Decoder Nat := nat "u64"

def index : Decoder Nat := nat "usize"

/-- Null stands for no value. -/
def optional {α : Type} (decode : Decoder α) : Decoder (Option α)
  | .null => .ok none
  | t => (decode t).map some

def items {α : Type} (decode : Decoder α) : List Tree → Except DecodeError (List α)
  | [] => .ok []
  | t :: r => do
    let a ← decode t
    let as ← items decode r
    .ok (a :: as)

def list {α : Type} (decode : Decoder α) : Decoder (List α)
  | .arr ts => items decode ts
  | t => .error (.wrongType t "a sequence")

def fields : Decoder Fields
  | .obj fs => .ok fs
  | t => .error (.wrongType t "a map")

/-- One of several names, each standing for a value.  A name may also be the only key of an object, if its value is
one that `isUnit` takes for nothing. -/
def variant {α : Type} (options : List (String × α)) (isUnit : Tree → Bool) : Decoder α
  | .str s =>
    match options.lookup s with
    | some a => .ok a
    | none => .error (.unknownVariant s (options.map (·.1)))
  | .obj [(s, v)] =>
    match options.lookup s with
    | some a => if isUnit v then .ok a else .error (.wrongType v "unit")
    | none => .error (.unknownVariant s (options.map (·.1)))
  | .obj fs => .error (.wrongValue (.obj fs) "map with a single key")
  | t => .error (.wrongType t "string or map")

def isNull : Tree → Bool
  | .null => true
  | _ => false

def isNullOrEmpty : Tree → Bool
  | .null | .obj [] => true
  | _ => false

/-- A record's fields, found by key or by place. -/
inductive Row where
  | keyed (fields : Fields)
  | placed (items : List Tree)

/-- Whether a field has to be there: always; in a list only; or never. -/
inductive Need where
  | required
  | inList
  | never
deriving DecidableEq

/-- A field that was looked up, and decoded if it was there. -/
structure Slot (α : Type) where
  name : String
  found : Option (Except DecodeError α)

/-- What a slot means for the record as a whole. -/
structure SlotState where
  name : String
  need : Need
  absent : Bool
  fault : Option DecodeError

def Row.slot {α : Type} (row : Row) (place : Nat) (name : String) (decode : Decoder α) : Slot α :=
  match row with
  | .keyed fs => ⟨name, (Fields.get? fs name).map decode⟩
  | .placed ts => ⟨name, ts[place]?.map decode⟩

namespace Slot

def state {α : Type} (s : Slot α) (need : Need) : SlotState :=
  { name := s.name
    need
    absent := s.found.isNone
    fault := match s.found with
      | some (.error e) => some e
      | _ => none }

def value? {α : Type} (s : Slot α) : Option α :=
  match s.found with
  | some (.ok a) => some a
  | _ => none

/-- The value of a field that has to be there. -/
def get {α : Type} (s : Slot α) : Except DecodeError α :=
  match s.found with
  | some r => r
  | none => .error (.missingField s.name)

/-- The value of a field that may be missing. -/
def getD {α : Type} (s : Slot α) (default : α) : Except DecodeError α :=
  match s.found with
  | some r => r
  | none => .ok default

end Slot

/-- How messages speak of a record, and of a list that is too long for it. -/
structure Shape where
  name : String
  tooLong : (length fields : Nat) → DecodeError

def plural (n : Nat) (word : String) : String :=
  toString n ++ " " ++ word ++ (if n = 1 then "" else "s")

/-- A record that is read from the document itself. -/
def direct (name : String) : Shape :=
  ⟨"struct " ++ name, fun length _ => .wrongLength length "fewer elements in array"⟩

/-- A record inside a value whose kind had to be found out first. -/
def nested (name : String) : Shape :=
  ⟨name, fun length fields => .wrongLength length (plural fields "element" ++ " in sequence")⟩

def insertByName (s : SlotState) : List SlotState → List SlotState
  | [] => [s]
  | t :: r => if s.name < t.name then s :: t :: r else t :: insertByName s r

def sortByName (ss : List SlotState) : List SlotState := ss.foldr insertByName []

/-- The place of the first slot that is missing although a list must have it. -/
def firstGap : (place : Nat) → List SlotState → Option Nat
  | _, [] => none
  | place, s :: r => if s.absent && s.need != .never then some place else firstGap (place + 1) r

/-- Checks a record as a whole, given its slots in the order of their places. -/
def Row.settle (row : Row) (shape : Shape) (slots : List SlotState) : Except DecodeError Unit :=
  match row with
  | .keyed _ =>
    match (sortByName slots).findSome? (·.fault) with
    | some e => .error e
    | none =>
      match slots.find? fun s => s.absent && s.need == .required with
      | some s => .error (.missingField s.name)
      | none => .ok ()
  | .placed ts =>
    match slots.findSome? (·.fault) with
    | some e => .error e
    | none =>
      match firstGap 0 slots with
      | some place => .error (.wrongLength place (shape.name ++ " with " ++ plural slots.length "element"))
      | none => if slots.length < ts.length then .error (shape.tooLong ts.length slots.length) else .ok ()

/-- A tree as a record. -/
def row (shape : Shape) : Decoder Row
  | .obj fs => .ok (.keyed fs)
  | .arr ts => .ok (.placed ts)
  | t => .error (.wrongType t shape.name)

/-- A value of several kinds: the tag that names its kind, and its other fields.  The tag of a value inside another
such value may also be the number of its kind. -/
structure Tagged where
  tag : String
  options : List String
  numbered : Bool

/-- The kind that a tag names. -/
def Tagged.kind (s : Tagged) : Decoder String
  | .str k => if s.options.contains k then .ok k else .error (.unknownVariant k s.options)
  | .num (.int n) =>
    if s.numbered && 0 ≤ n then
      match s.options[n.toNat]? with
      | some k => .ok k
      | none =>
        .error (.wrongValue (.num (.int n)) ("variant index 0 <= i < " ++ toString s.options.length))
    else .error (.wrongType (.num (.int n)) "variant identifier")
  | t => .error (.wrongType t "variant identifier")

/-- The kind of a tagged value and the row of its other fields; in a list the tag comes first. -/
def Tagged.split (s : Tagged) (name : String) : Decoder (String × Row)
  | .obj fs =>
    match Fields.get? fs s.tag with
    | some t => (s.kind t).map fun k => (k, .keyed (fs.filter fun f => f.1 ≠ s.tag))
    | none => .error (.missingField s.tag)
  | .arr (t :: r) => (s.kind t).map fun k => (k, .placed r)
  | .arr [] => .error (.missingField s.tag)
  | t => .error (.wrongType t ("internally tagged enum " ++ name))

end Decode

end FlowScript

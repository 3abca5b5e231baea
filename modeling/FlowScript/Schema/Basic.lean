import FlowScript.Tree.Basic

/-!
# Schemas

A schema says which trees are acceptable, by a list of rules all of which must hold.  A rule on one kind of value says
nothing about values of another kind.  Named schemas are referred to by the text of the reference.
-/

namespace FlowScript

/-- The kinds of values, in alphabetical order. -/
inductive Kind where
  | array
  | boolean
  | integer
  | null
  | number
  | object
  | string
deriving DecidableEq

namespace Kind

def all : List Kind := [array, boolean, integer, null, number, object, string]

def name : Kind → String
  | array => "array"
  | boolean => "boolean"
  | integer => "integer"
  | null => "null"
  | number => "number"
  | object => "object"
  | string => "string"

def ofName? (s : String) : Option Kind := all.find? fun k => k.name = s

/-- Whether a tree is of a kind.  A number without fractional part is an integer. -/
def holds : Kind → Tree → Bool
  | array, .arr _ => true
  | boolean, .bool _ => true
  | integer, .num n => n.isWhole
  | null, .null => true
  | number, .num _ => true
  | object, .obj _ => true
  | string, .str _ => true
  | _, _ => false

/-- Whether a tree is of a kind that stands in a list of kinds.  There an integer is a number written without
point. -/
def holdsInList : Kind → Tree → Bool
  | integer, .num (.int _) => true
  | integer, _ => false
  | k, t => k.holds t

end Kind

mutual

inductive Schema where
  | always
  /-- Accepts nothing; `label` is the last step of its place in the schema document. -/
  | never (label : String)
  | ref (target : String)
  | rules (list : List Rule)

inductive Rule where
  | kind (k : Kind)
  | kinds (ks : List Kind)
  | required (names : List String)
  | properties (ps : List (String × Schema))
  | items (s : Schema)
  | minItems (limit : Nat)
  | minLength (limit : Nat)
  | minimum (limit : Number)
  | oneOf (options : List Tree)
  | const (value : Tree)
  | allOf (schemas : List Schema)
  | ifThen (test result : Schema)

end

mutual

/-- How many schemas and rules a schema has. -/
def Schema.size : Schema → Nat
  | .always | .never _ | .ref _ => 1
  | .rules rs => Rule.sizeList rs + 1

def Rule.size : Rule → Nat
  | .properties ps => Schema.sizeFields ps + 1
  | .items s => s.size + 1
  | .allOf ss => Schema.sizeList ss + 1
  | .ifThen test result => test.size + result.size + 1
  | _ => 1

def Rule.sizeList : List Rule → Nat
  | [] => 0
  | r :: rs => r.size + Rule.sizeList rs

def Schema.sizeList : List Schema → Nat
  | [] => 0
  | s :: ss => s.size + Schema.sizeList ss

def Schema.sizeFields : List (String × Schema) → Nat
  | [] => 0
  | (_, s) :: ss => s.size + Schema.sizeFields ss

end

/-- A schema together with the schemas that references name. -/
structure SchemaDocument where
  root : Schema
  named : List (String × Schema)

def SchemaDocument.size (d : SchemaDocument) : Nat := d.root.size + Schema.sizeFields d.named

end FlowScript

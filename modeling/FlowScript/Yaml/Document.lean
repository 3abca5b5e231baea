import FlowScript.Decimal.Reader
import FlowScript.Tree.Basic
import FlowScript.Yaml.Event

/-!
# The tree of a YAML document

`Tree.ofYaml?` reads a YAML text as a tree.  Plain scalars without tag are null, booleans, whole numbers or doubles if
they are written like one, and texts otherwise.  Keys are the texts of scalars, and of a repeated key the last value
counts.  Aliases repeat the node with their anchor.
-/

namespace FlowScript.Yaml

def isNull (text : String) : Bool := text == "null" || text == "Null" || text == "NULL" || text == "~"

def bool? (text : String) : Option Bool :=
  if text = "true" ∨ text = "True" ∨ text = "TRUE" then some true
  else if text = "false" ∨ text = "False" ∨ text = "FALSE" then some false
  else none

/-- A zero followed by more digits, with or without a sign, is no number. -/
def hasLeadingZero (cs : List Char) : Bool :=
  let digits := match cs with
    | '-' :: r | '+' :: r => r
    | r => r
  match digits with
  | '0' :: r => !r.isEmpty && r.all Char.isDigit
  | _ => false

/-- An unsigned whole number: decimal, or hexadecimal, octal or binary after `0x`, `0o` or `0b`. -/
def magnitude? (cs : List Char) : Option Nat :=
  match cs with
  | '0' :: 'x' :: r => readDigits? 16 r
  | '0' :: 'o' :: r => readDigits? 8 r
  | '0' :: 'b' :: r => readDigits? 2 r
  | r => if hasLeadingZero r then none else readDigits? 10 r

/-- How a text reads as a whole number: one of 64 bits, one that needs up to 128 bits, or none. -/
inductive IntReading where
  | word (n : Int)
  | wide
  | none

def readInt (text : String) : IntReading :=
  let n? : Option Int := match text.toList with
    | '-' :: r => (magnitude? r).map fun n => -(n : Int)
    | '+' :: r => (magnitude? r).map Int.ofNat
    | r => (magnitude? r).map Int.ofNat
  match n? with
  | some n =>
    if -(Int.pow 2 63) ≤ n && n < Int.pow 2 64 then .word n
    else if -(Int.pow 2 127) ≤ n && n < Int.pow 2 128 then .wide
    else .none
  | none => .none

/-- How a text reads as a double: a finite one, an infinity or no number at all (which a tree writes as null), or not
as a double. -/
inductive RealReading where
  | finite (x : Double)
  | unbounded
  | none

def isInfinity (text : String) : Bool := text == ".inf" || text == ".Inf" || text == ".INF"

def isNotANumber (text : String) : Bool := text == ".nan" || text == ".NaN" || text == ".NAN"

def readReal (text : String) : RealReading :=
  let (signed, negative, body) := match text.toList with
    | '-' :: r => (true, true, r)
    | '+' :: r => (true, false, r)
    | r => (false, false, r)
  if isInfinity (String.ofList body) || (!signed && isNotANumber text) then .unbounded
  else match (Decimal.Parts.split? body).bind (·.toDouble? negative) with
    | some x => .finite x
    | none => .none

def realTree? (text : String) : Option Tree :=
  match readReal text with
  | .finite x => some (.num (.real x))
  | .unbounded => some .null
  | .none => none

/-- A plain scalar without tag.  A whole number that needs more than 64 bits is refused if it fits 128. -/
def plainTree? (text : String) : Option Tree :=
  if text.isEmpty || isNull text then some .null
  else match bool? text with
    | some b => some (.bool b)
    | none =>
      match readInt text with
      | .word n => some (.int n)
      | .wide => none
      | .none =>
        if hasLeadingZero text.toList then some (.str text)
        else some ((realTree? text).getD (.str text))

/-- A scalar.  The core tags force their reading, a tag that starts with an exclamation mark is refused, and any other
tag makes the scalar a text. -/
def scalarTree? (tag : Option String) (text : String) (plain : Bool) : Option Tree :=
  match tag with
  | none => if plain then plainTree? text else some (.str text)
  | some t =>
    if t.startsWith "!" then none
    else if t = coreTag "bool" then (bool? text).map .bool
    else if t = coreTag "int" then
      match readInt text with
      | .word n => some (.int n)
      | _ => none
    else if t = coreTag "float" then realTree? text
    else if t = coreTag "null" then (if isNull text then some .null else none)
    else some (.str text)

/-- A tag on a collection is refused if it starts with an exclamation mark, and means nothing otherwise. -/
def allowsTag (props : Properties) : Bool := !props.tag.any (·.startsWith "!")

/-- The anchors of a document.  Each anchor gets the number of names known when it is met, and an alias stands for
the last node that got the number of its name. -/
structure Anchors where
  numbers : List (String × Nat)
  /-- For each number the place of its node among the events, the last one first. -/
  places : List (Nat × Nat)

def Anchors.add (a : Anchors) (name : String) (place : Nat) : Anchors :=
  let number := a.numbers.length
  { numbers := (name, number) :: a.numbers.filter (·.1 ≠ name), places := (number, place) :: a.places }

/-- An event in which aliases are numbers. -/
inductive Item where
  | alias (number : Nat)
  | other (event : Event)

def Event.anchor? : Event → Option String
  | .scalar p _ _ | .sequenceStart p | .mappingStart p => p.anchor
  | _ => none

/-- Numbers the aliases of the events from place `n` on; an alias without an anchor before it is refused. -/
def number? : (n : Nat) → Anchors → List Event → Option (List Item × Anchors)
  | _, a, [] => some ([], a)
  | n, a, .alias name :: r => do
    let number ← a.numbers.lookup name
    let (items, a) ← number? (n + 1) a r
    some (.alias number :: items, a)
  | n, a, e :: r => do
    let a := match e.anchor? with
      | some name => a.add name n
      | none => a
    let (items, a) ← number? (n + 1) a r
    some (.other e :: items, a)

/-- What reading a node needs to know of its document. -/
structure Source where
  items : List Item
  places : List (Nat × Nat)

/-- The items from the node on that an alias number stands for. -/
def Source.target (d : Source) (number : Nat) : List Item :=
  match d.places.lookup number with
  | some place => d.items.drop place
  | none => []

/-- Aliases may be followed a hundred times as often as there are events. -/
def Source.maxJumps (d : Source) : Nat := 100 * d.items.length

def maxDepth : Nat := 128

/-- A value read, the aliases followed so far, and the items after the value. -/
structure Progress (α : Type) where
  value : α
  jumps : Nat
  rest : List Item

/-- The text of a scalar that serves as key; its tag means nothing. -/
def keyText? (d : Source) : (fuel jumps : Nat) → List Item → Option (Progress String)
  | 0, _, _ => none
  | fuel + 1, jumps, items =>
    match items with
    | .other (.scalar _ text _) :: r => some ⟨text, jumps, r⟩
    | .alias number :: r =>
      if d.maxJumps ≤ jumps then none
      else (keyText? d fuel (jumps + 1) (d.target number)).map fun p => { p with rest := r }
    | _ => none

mutual

/-- The tree of the node at the front of `items`, in which `depth` collections may still be nested. -/
def nodeTree? (d : Source) : (fuel depth jumps : Nat) → List Item → Option (Progress Tree)
  | 0, _, _, _ => none
  | fuel + 1, depth, jumps, items =>
    match items with
    | .alias number :: r =>
      if d.maxJumps ≤ jumps then none
      else (nodeTree? d fuel depth (jumps + 1) (d.target number)).map fun p => { p with rest := r }
    | .other (.scalar props text plain) :: r => (scalarTree? props.tag text plain).map fun t => ⟨t, jumps, r⟩
    | .other (.sequenceStart props) :: r =>
      match depth, allowsTag props with
      | depth + 1, true => (itemTrees? d fuel depth jumps r).map fun p => ⟨.arr p.value, p.jumps, p.rest⟩
      | _, _ => none
    | .other (.mappingStart props) :: r =>
      match depth, allowsTag props with
      | depth + 1, true =>
        (entryTrees? d fuel depth jumps [] r).map fun p => ⟨.obj p.value, p.jumps, p.rest⟩
      | _, _ => none
    | _ => none

def itemTrees? (d : Source) : (fuel depth jumps : Nat) → List Item → Option (Progress (List Tree))
  | 0, _, _, _ => none
  | fuel + 1, depth, jumps, items =>
    match items with
    | .other .sequenceEnd :: r => some ⟨[], jumps, r⟩
    | _ => do
      let head ← nodeTree? d fuel depth jumps items
      let tail ← itemTrees? d fuel depth head.jumps head.rest
      some ⟨head.value :: tail.value, tail.jumps, tail.rest⟩

def entryTrees? (d : Source) : (fuel depth jumps : Nat) → Fields → List Item → Option (Progress Fields)
  | 0, _, _, _, _ => none
  | fuel + 1, depth, jumps, fields, items =>
    match items with
    | .other .mappingEnd :: r => some ⟨fields, jumps, r⟩
    | _ => do
      let key ← keyText? d fuel jumps items
      let value ← nodeTree? d fuel depth key.jumps key.rest
      entryTrees? d fuel depth value.jumps (fields.put key.value value.value) value.rest

end

/-- The tree of a document's events; no events are null. -/
def treeOfEvents? (events : List Event) : Option Tree :=
  if events.isEmpty then some .null
  else do
    let (items, anchors) ← number? 0 ⟨[], []⟩ events
    let d : Source := ⟨items, anchors.places⟩
    let p ← nodeTree? d ((maxDepth + 2) * (items.length + 2)) maxDepth 0 items
    some p.value

end FlowScript.Yaml

namespace FlowScript

/-- The tree of the document that a YAML text holds, and `none` if the text is malformed. -/
def Tree.ofYaml? (text : String) : Option Tree := do
  let tokens ← Yaml.Token.scan? text
  let events ← Yaml.Event.ofTokens? tokens
  Yaml.treeOfEvents? events

end FlowScript

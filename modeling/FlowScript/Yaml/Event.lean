import FlowScript.Yaml.Token

/-!
# YAML events

`Event.ofTokens?` reads the tokens of a text as the one document it holds, and gives the document's events: scalars,
aliases, and the starts and ends of sequences and mappings, in the order of the text.  Nodes that are left out become
empty plain scalars, and tags are written out in full.  A text without document has no events.
-/

namespace FlowScript.Yaml

/-- What stands before the content of a node. -/
structure Properties where
  anchor : Option String
  tag : Option String

inductive Event where
  | alias (name : String)
  | scalar (props : Properties) (text : String) (plain : Bool)
  | sequenceStart (props : Properties)
  | sequenceEnd
  | mappingStart (props : Properties)
  | mappingEnd

/-- The tokens still to read, and the events found, the last one first. -/
structure EventStream where
  tokens : List Token
  events : List Event

namespace EventStream

def peek (s : EventStream) : Option Token := s.tokens.head?

def skip (s : EventStream) : EventStream := { s with tokens := s.tokens.tail }

def emit (s : EventStream) (e : Event) : EventStream := { s with events := e :: s.events }

/-- Whether the next token is one of `ts`. -/
def isAt (s : EventStream) (ts : List Token) : Bool :=
  match s.peek with
  | some t => ts.contains t
  | none => false

/-- A node that is left out. -/
def emitEmpty (s : EventStream) : EventStream := s.emit (.scalar ⟨none, none⟩ "" true)

end EventStream

open EventStream

/-- What tag handles stand for. -/
abbrev Handles := List (String × String)

def coreTag (name : String) : String := "tag:yaml.org,2002:" ++ name

def defaultHandles : Handles := [("!", "!"), ("!!", coreTag "")]

/-- The tag written with a handle and a suffix; an empty handle stands for itself. -/
def resolveTag? (handles : Handles) (handle suffix : String) : Option String :=
  if handle = "" then some suffix
  else (handles.find? fun h => h.1 = handle).map fun h => h.2 ++ suffix

/-- The properties of a scalar that is written out; there the tag `!` alone means nothing. -/
def Properties.ofScalar (props : Properties) : Properties :=
  if props.tag = some "!" then { props with tag := none } else props

/-- Reads an anchor and a tag, in either order and each at most once. -/
def properties? (handles : Handles) (s : EventStream) : Option (Properties × EventStream) :=
  match s.tokens with
  | .anchor a :: .tag h x :: r => (resolveTag? handles h x).map fun t => (⟨some a, some t⟩, { s with tokens := r })
  | .anchor a :: r => some (⟨some a, none⟩, { s with tokens := r })
  | .tag h x :: .anchor a :: r => (resolveTag? handles h x).map fun t => (⟨some a, some t⟩, { s with tokens := r })
  | .tag h x :: r => (resolveTag? handles h x).map fun t => (⟨none, some t⟩, { s with tokens := r })
  | _ => some (⟨none, none⟩, s)

mutual

/-- A node.  Block collections are possible only where `block` says so, and a block sequence that is not indented
only as a part of a mapping. -/
def node? (handles : Handles) (block inMapping : Bool) : (fuel : Nat) → EventStream → Option EventStream
  | 0, _ => none
  | fuel + 1, s =>
    match s.peek with
    | some (.alias name) => some (s.skip.emit (.alias name))
    | _ => do
      let (props, s) ← properties? handles s
      match s.peek with
      | some .blockEntry =>
        if inMapping then flatSequence? handles fuel (s.emit (.sequenceStart props)) else bare? props s
      | some (.scalar text plain) => some (s.skip.emit (.scalar props.ofScalar text plain))
      | some .flowSequence => flowSequence? handles true fuel (s.skip.emit (.sequenceStart props))
      | some .flowMapping => flowMapping? handles true fuel (s.skip.emit (.mappingStart props))
      | some .blockSequence =>
        if block then blockSequence? handles fuel (s.skip.emit (.sequenceStart props)) else bare? props s
      | some .blockMapping =>
        if block then blockMapping? handles fuel (s.skip.emit (.mappingStart props)) else bare? props s
      | _ => bare? props s

/-- A node without content must have an anchor or a tag. -/
def bare? (props : Properties) (s : EventStream) : Option EventStream :=
  if props.anchor.isSome || props.tag.isSome then some (s.emit (.scalar props "" true)) else none

/-- A node, or an empty one if the next token is one of `stops`. -/
def nodeUnless? (handles : Handles) (block inMapping : Bool) (stops : List Token) :
    (fuel : Nat) → EventStream → Option EventStream
  | 0, _ => none
  | fuel + 1, s => if s.isAt stops then some s.emitEmpty else node? handles block inMapping fuel s

def blockSequence? (handles : Handles) : (fuel : Nat) → EventStream → Option EventStream
  | 0, _ => none
  | fuel + 1, s =>
    match s.peek with
    | some .blockEntry => do
      let s ← nodeUnless? handles true false [.blockEntry, .blockEnd] fuel s.skip
      blockSequence? handles fuel s
    | some .blockEnd => some (s.skip.emit .sequenceEnd)
    | _ => none

/-- The entries of a sequence at the column of the mapping that holds it. -/
def flatSequence? (handles : Handles) : (fuel : Nat) → EventStream → Option EventStream
  | 0, _ => none
  | fuel + 1, s =>
    match s.peek with
    | some .blockEntry => do
      let s ← nodeUnless? handles true false [.blockEntry, .key, .value, .blockEnd] fuel s.skip
      flatSequence? handles fuel s
    | _ => some (s.emit .sequenceEnd)

def blockMapping? (handles : Handles) : (fuel : Nat) → EventStream → Option EventStream
  | 0, _ => none
  | fuel + 1, s =>
    match s.peek with
    | some .key => do
      let s ← nodeUnless? handles true true [.key, .value, .blockEnd] fuel s.skip
      let s ←
        if s.isAt [.value] then nodeUnless? handles true true [.key, .value, .blockEnd] fuel s.skip
        else some s.emitEmpty
      blockMapping? handles fuel s
    | some .blockEnd => some (s.skip.emit .mappingEnd)
    | _ => none

/-- The entries of a sequence in brackets; all but the first follow a comma.  A key makes its entry a mapping of one
pair. -/
def flowSequence? (handles : Handles) (first : Bool) : (fuel : Nat) → EventStream → Option EventStream
  | 0, _ => none
  | fuel + 1, s =>
    if s.isAt [.flowSequenceEnd] then some (s.skip.emit .sequenceEnd)
    else do
      let s ← if first then some s else if s.isAt [.flowEntry] then some s.skip else none
      match s.peek with
      | some .key =>
        let s ← flowPair? handles fuel (s.skip.emit (.mappingStart ⟨none, none⟩))
        flowSequence? handles false fuel s
      | some .flowSequenceEnd => some (s.skip.emit .sequenceEnd)
      | _ =>
        let s ← node? handles false false fuel s
        flowSequence? handles false fuel s

/-- A pair in brackets.  What follows a key that is left out is dropped. -/
def flowPair? (handles : Handles) : (fuel : Nat) → EventStream → Option EventStream
  | 0, _ => none
  | fuel + 1, s => do
    let s ←
      if s.isAt [.value, .flowEntry, .flowSequenceEnd] then some s.skip.emitEmpty
      else node? handles false false fuel s
    let s ←
      if s.isAt [.value] then nodeUnless? handles false false [.flowEntry, .flowSequenceEnd] fuel s.skip
      else some s.emitEmpty
    some (s.emit .mappingEnd)

def flowMapping? (handles : Handles) (first : Bool) : (fuel : Nat) → EventStream → Option EventStream
  | 0, _ => none
  | fuel + 1, s =>
    if s.isAt [.flowMappingEnd] then some (s.skip.emit .mappingEnd)
    else do
      let s ← if first then some s else if s.isAt [.flowEntry] then some s.skip else none
      match s.peek with
      | some .key =>
        let s ← nodeUnless? handles false false [.value, .flowEntry, .flowMappingEnd] fuel s.skip
        let s ←
          if s.isAt [.value] then nodeUnless? handles false false [.flowEntry, .flowMappingEnd] fuel s.skip
          else some s.emitEmpty
        flowMapping? handles false fuel s
      | some .flowMappingEnd => some (s.skip.emit .mappingEnd)
      | _ =>
        let s ← node? handles false false fuel s
        flowMapping? handles false fuel s.emitEmpty

end

/-- Reads the directives before a document.  At most one version is given, which must be 1.1 or 1.2, and no handle
twice. -/
def directives? : (version : Bool) → Handles → List Token → Option (Handles × List Token)
  | version, handles, .version major minor :: r =>
    if version || major ≠ 1 || (minor ≠ 1 && minor ≠ 2) then none else directives? true handles r
  | version, handles, .handle name expansion :: r =>
    if handles.any fun h => h.1 = name then none else directives? version ((name, expansion) :: handles) r
  | _, handles, r => some (handles ++ defaultHandles, r)

def isDirective : Token → Bool
  | .version _ _ | .handle _ _ => true
  | _ => false

/-- Whether a document that starts with a marker has no content. -/
def endsDocument : List Token → Bool
  | [] => true
  | t :: _ => isDirective t || t == .documentStart || t == .documentEnd

/-- The events of the document in the tokens, and `none` if they are malformed or hold a second document. -/
def Event.ofTokens? (ts : List Token) : Option (List Event) :=
  match ts with
  | [] => some []
  | t :: _ => do
    let size := 4 * ts.length + 4
    let s ←
      if isDirective t || t == .documentStart then do
        let (handles, r) ← directives? false [] ts
        match r with
        | .documentStart :: r =>
          if endsDocument r then some (EventStream.emitEmpty ⟨r, []⟩) else node? handles true false size ⟨r, []⟩
        | _ => none
      else node? defaultHandles true false size ⟨ts, []⟩
    if (s.tokens.dropWhile (· == .documentEnd)).isEmpty then some s.events.reverse else none

end FlowScript.Yaml

import FlowScript.Yaml.Scalar

/-!
# YAML tokens

`Token.scan?` cuts a YAML text into tokens.  Indentation becomes explicit: a deeper column opens a block, and a line
further left closes the blocks it leaves.  A key before a colon is found late, only when the colon is reached; its
`key` token, and the start of a block mapping if one begins there, are then put in front of the key's own tokens.
-/

namespace FlowScript.Yaml

inductive Token where
  | version (major minor : Nat)
  | handle (name expansion : String)
  | documentStart
  | documentEnd
  | blockSequence
  | blockMapping
  | blockEnd
  | flowSequence
  | flowSequenceEnd
  | flowMapping
  | flowMappingEnd
  | blockEntry
  | flowEntry
  | key
  | value
  | alias (name : String)
  | anchor (name : String)
  | tag (handle suffix : String)
  | scalar (text : String) (plain : Bool)
deriving DecidableEq

/-- A place where a key without question mark may have started. -/
structure KeyStart where
  /-- How many tokens come before the key. -/
  position : Nat
  /-- Whether the line is malformed if no colon follows. -/
  required : Bool
  mark : Mark

/-- A key stands on one line and is at most 1024 bytes long. -/
def KeyStart.isStale (k : KeyStart) (now : Mark) : Bool :=
  k.mark.line < now.line || k.mark.index + 1024 < now.index

structure Scanner where
  cursor : Cursor
  /-- The tokens read so far, the last one first. -/
  tokens : List Token
  count : Nat
  /-- The column of the innermost block, and of the blocks around it. -/
  indents : List Nat
  /-- The possible key of the innermost collection, and of those around it up to the block at the bottom. -/
  keys : List (Option KeyStart)
  /-- Whether a key may start here. -/
  keyAllowed : Bool
  ended : Bool

namespace Scanner

def start (cs : List Char) : Scanner := ⟨Cursor.start cs, [], 0, [], [none], true, false⟩

/-- Whether the scanner is inside brackets or braces. -/
def inFlow (s : Scanner) : Bool := 1 < s.keys.length

def push (s : Scanner) (t : Token) : Scanner := { s with tokens := t :: s.tokens, count := s.count + 1 }

/-- Puts a token in front of all tokens but the first `position`. -/
def insert (s : Scanner) (position : Nat) (t : Token) : Scanner :=
  let later := s.count - position
  { s with tokens := s.tokens.take later ++ t :: s.tokens.drop later, count := s.count + 1 }

def moveTo (s : Scanner) (c : Cursor) : Scanner := { s with cursor := c }

def allowKey (s : Scanner) (allowed : Bool) : Scanner := { s with keyAllowed := allowed }

/-- Whether column `n` lies deeper than the innermost block. -/
def isDeeper (s : Scanner) (n : Nat) : Bool :=
  match s.indents with
  | [] => true
  | i :: _ => i < n

/-- Opens a block at a column that is deeper than the innermost block; `position` is where its token belongs. -/
def indent (s : Scanner) (column position : Nat) (t : Token) : Scanner :=
  if !s.inFlow && s.isDeeper column then
    { s.insert position t with indents := column :: s.indents }
  else s

/-- Closes the blocks with a column for which `p` holds. -/
def closeBlocks (p : Nat → Bool) (s : Scanner) : Scanner :=
  let closed := s.indents.takeWhile p
  { s with
    tokens := closed.map (fun _ => Token.blockEnd) ++ s.tokens
    count := s.count + closed.length
    indents := s.indents.drop closed.length }

/-- Closes the blocks that a token at column `n` leaves. -/
def dedentTo (s : Scanner) (n : Nat) : Scanner := if s.inFlow then s else s.closeBlocks fun i => n < i

/-- Closes all blocks. -/
def dedentAll (s : Scanner) : Scanner := if s.inFlow then s else s.closeBlocks fun _ => true

/-- Gives up the possible key of the innermost collection. -/
def dropKey? (s : Scanner) : Option Scanner :=
  match s.keys with
  | some k :: r => if k.required then none else some { s with keys := none :: r }
  | _ => some s

/-- Notes that a key may start at the cursor. -/
def saveKey? (s : Scanner) : Option Scanner :=
  if s.keyAllowed then do
    let required := !s.inFlow && s.indents.head? == some s.cursor.column
    let s ← s.dropKey?
    some { s with keys := some ⟨s.count, required, s.cursor.mark⟩ :: s.keys.tail }
  else some s

/-- Gives up the possible keys that the cursor has left behind. -/
def dropStaleKeys? (s : Scanner) : Option Scanner := do
  let keys ← s.keys.mapM fun
    | some k => if k.isStale s.cursor.mark then (if k.required then none else some none) else some (some k)
    | none => some none
  some { s with keys }

/-- Skips blanks, comments and line endings, and a byte order mark at the front of a line, which takes a column of that
line.  A tab is skipped only where no key can start. -/
def skipToToken : (fuel : Nat) → Scanner → Scanner
  | 0, s => s
  | fuel + 1, s =>
    let c := if s.cursor.column == 0 && s.cursor.startsWith byteOrderMark then s.cursor.forward 1 else s.cursor
    let tabs := s.inFlow || !s.keyAllowed
    let c := (c.skipWhile fun x => x == ' ' || (tabs && x == '\t')).skipComment
    if c.atBreak then
      skipToToken fuel { s with cursor := c.skipBreak, keyAllowed := s.keyAllowed || !s.inFlow }
    else s.moveTo c

/-- Reads a name after an anchor or alias sign. -/
def name? (c : Cursor) : Option (String × Cursor) :=
  let (name, c) := (c.forward 1).takeWhile isWordChar
  let follows := fun x => x == '?' || x == ':' || x == ',' || x == ']' || x == '\x7d' || x == '%' || x == '@' ||
    x.toNat == 0x60
  if !name.isEmpty && (endsWord c.rest || c.rest.head?.any follows) then some (String.ofList name, c) else none

/-- Reads a tag handle: an exclamation mark, a name, and a second exclamation mark if there is one. -/
def handle? (c : Cursor) : Option (List Char × Cursor) :=
  if c.startsWith '!' then
    let (name, d) := (c.forward 1).takeWhile isWordChar
    if d.startsWith '!' then some ('!' :: name ++ ['!'], d.forward 1) else some ('!' :: name, d)
  else none

/-- The characters of a tag; commas and square brackets only where `wide` says so. -/
def isTagChar (wide : Bool) (c : Char) : Bool :=
  isWordChar c || c == ';' || c == '/' || c == '?' || c == ':' || c == '@' || c == '&' || c == '=' || c == '+' ||
    c == '$' || c == '.' || c == '!' || c == '~' || c == '*' || c == '\x27' || c == '(' || c == ')' ||
    (wide && (c == ',' || c == '[' || c == ']'))

/-- How many octets a character has whose first octet is `n`. -/
def octetWidth? (n : Nat) : Option Nat :=
  if n < 0x80 then some 1
  else if 0xC0 ≤ n ∧ n < 0xE0 then some 2
  else if 0xE0 ≤ n ∧ n < 0xF0 then some 3
  else if 0xF0 ≤ n ∧ n < 0xF8 then some 4
  else none

/-- One octet written as a percent sign and two digits. -/
def octet? (cs : List Char) : Option Nat :=
  match cs with
  | '%' :: a :: b :: _ => readDigits? 16 [a, b]
  | _ => none

/-- Checks the `n` octets that continue a character. -/
def octetsFollow : (n : Nat) → List Char → Bool
  | 0, _ => true
  | n + 1, cs =>
    match octet? cs with
    | some x => 0x80 ≤ x && x < 0xC0 && octetsFollow n (cs.drop 3)
    | none => false

/-- Reads the characters of a tag, with escaped octets undone one by one. -/
def tagText? (wide : Bool) : (fuel : Nat) → (acc : List Char) → Cursor → Option (List Char × Cursor)
  | 0, _, _ => none
  | fuel + 1, acc, c =>
    match c.rest with
    | [] => some (acc.reverse, c)
    | x :: _ =>
      if x == '%' then do
        let n ← octet? c.rest
        let width ← octetWidth? n
        if octetsFollow (width - 1) (c.rest.drop 3) then
          let octets := (List.range width).map fun i => Char.ofNat ((octet? (c.rest.drop (3 * i))).getD 0)
          tagText? wide fuel (octets.reverse ++ acc) (c.forward (3 * width))
        else none
      else if isTagChar wide x then tagText? wide fuel (x :: acc) (c.forward 1)
      else some (acc.reverse, c)

def tagText (wide : Bool) (c : Cursor) : Option (List Char × Cursor) := tagText? wide (c.rest.length + 1) [] c

/-- Reads a tag: verbatim between angle brackets, with a handle, or local. -/
def tag? (flow : Bool) (c : Cursor) : Option (Token × Cursor) := do
  let (token, c) ←
    if (c.forward 1).startsWith '<' then do
      let (text, c) ← tagText true (c.forward 2)
      if text.isEmpty || !c.startsWith '>' then none
      some (Token.tag "" (String.ofList text), c.forward 1)
    else do
      let (handle, c) ← handle? c
      if 1 < handle.length && handle.getLast? == some '!' then
        let (text, c) ← tagText false c
        if text.isEmpty then none
        some (Token.tag (String.ofList handle) (String.ofList text), c)
      else
        let (text, c) ← tagText false c
        let suffix := handle.tail ++ text
        some (if suffix.isEmpty then Token.tag "" "!" else Token.tag "!" (String.ofList suffix), c)
  if endsWord c.rest || (flow && c.startsWith ',') then some (token, c) else none

/-- Reads one part of a version number, which has one to nine digits. -/
def versionPart? (c : Cursor) : Option (Nat × Cursor) :=
  let (digits, c) := c.takeWhile Char.isDigit
  if digits.isEmpty || 9 < digits.length then none else some (numberOf 10 digits, c)

/-- Reads a directive line. -/
def directive? (c : Cursor) : Option (Token × Cursor) := do
  let (name, c) := (c.forward 1).takeWhile isWordChar
  if name.isEmpty || !endsWord c.rest then none
  let c := c.skipWhile isGap
  let (token, c) ←
    if String.ofList name = "YAML" then do
      let (major, c) ← versionPart? c
      if !c.startsWith '.' then none
      let (minor, c) ← versionPart? (c.forward 1)
      some (Token.version major minor, c)
    else if String.ofList name = "TAG" then do
      let (handle, c) ← handle? c
      if handle ≠ ['!'] && handle.getLast? ≠ some '!' then none
      if !c.atGap then none
      let (expansion, c) ← tagText true (c.skipWhile isGap)
      if expansion.isEmpty || !endsWord c.rest then none
      some (Token.handle (String.ofList handle) (String.ofList expansion), c)
    else none
  let c ← c.restOfLine?
  some (token, c)

/-- Ends the blocks before a line that belongs to no block. -/
def leaveBlocks? (s : Scanner) : Option Scanner :=
  (s.dedentAll.dropKey?).map (·.allowKey false)

def documentMarker? (s : Scanner) (t : Token) : Option Scanner :=
  s.leaveBlocks?.map fun s => (s.moveTo (s.cursor.forward 3)).push t

def directiveLine? (s : Scanner) : Option Scanner := do
  let s ← s.leaveBlocks?
  let (t, c) ← directive? s.cursor
  some ((s.moveTo c).push t)

def openFlow? (s : Scanner) (t : Token) : Option Scanner :=
  s.saveKey?.map fun s =>
    { s.push t with keys := none :: s.keys, keyAllowed := true, cursor := s.cursor.forward 1 }

def closeFlow? (s : Scanner) (t : Token) : Option Scanner :=
  s.dropKey?.map fun s =>
    { s.push t with
      keys := if s.inFlow then s.keys.tail else s.keys
      keyAllowed := false
      cursor := s.cursor.forward 1 }

def flowEntry? (s : Scanner) : Option Scanner :=
  s.dropKey?.map fun s => ((s.allowKey true).moveTo (s.cursor.forward 1)).push .flowEntry

/-- Opens a block at the cursor if it lies deeper.  In a block the cursor must be where a key could start. -/
def openBlock? (s : Scanner) (t : Token) : Option Scanner :=
  if s.inFlow then some s
  else if s.keyAllowed then some (s.indent s.cursor.column s.count t)
  else none

def blockEntry? (s : Scanner) : Option Scanner := do
  let s ← s.openBlock? .blockSequence
  let s ← s.dropKey?
  some (((s.allowKey true).moveTo (s.cursor.forward 1)).push .blockEntry)

def keySign? (s : Scanner) : Option Scanner := do
  let s ← s.openBlock? .blockMapping
  let s ← s.dropKey?
  some (((s.allowKey !s.inFlow).moveTo (s.cursor.forward 1)).push .key)

def valueSign? (s : Scanner) : Option Scanner := do
  let s ← match s.keys with
    | some k :: r =>
      let s := (s.insert k.position .key).indent k.mark.column k.position .blockMapping
      some { s with keys := none :: r, keyAllowed := false }
    | _ => do
      let s ← s.openBlock? .blockMapping
      some (s.allowKey !s.inFlow)
  some ((s.moveTo (s.cursor.forward 1)).push .value)

/-- Adds a token that may be part of a key. -/
def keyPart? (s : Scanner) (read : Cursor → Option (Token × Cursor)) : Option Scanner := do
  let s ← s.saveKey?
  let (t, c) ← read s.cursor
  some (((s.allowKey false).moveTo c).push t)

def quotedScalar? (s : Scanner) (single : Bool) : Option Scanner :=
  s.keyPart? fun c => (quoted? single c).map fun r => (.scalar r.text false, r.after)

def plainScalar? (s : Scanner) : Option Scanner := do
  let s ← s.saveKey?
  let indent := match s.indents with
    | [] => 0
    | i :: _ => i + 1
  let r ← plain? s.inFlow indent s.cursor
  some (((s.allowKey r.lineEnded).moveTo r.after).push (.scalar r.text true))

def blockScalar? (s : Scanner) (literal : Bool) : Option Scanner := do
  let s ← s.dropKey?
  let r ← block? literal s.indents.head? s.cursor
  some (((s.allowKey true).moveTo r.after).push (.scalar r.text false))

/-- The characters that start no plain scalar. -/
def isIndicator (c : Char) : Bool :=
  isFlowIndicator c || c == '-' || c == '?' || c == ':' || c == '#' || c == '&' || c == '*' || c == '!' || c == '|' ||
    c == '>' || c == '\x27' || c == '"' || c == '%' || c == '@' || c.toNat == 0x60

/-- Whether a plain scalar starts with `c`, the text going on with `r`. -/
def startsPlain (flow : Bool) (c : Char) (r : List Char) : Bool :=
  !(isGap c || isBreak c || isIndicator c) || (c == '-' && !r.head?.any isGap) ||
    (!flow && (c == '?' || c == ':') && !endsWord r)

/-- Reads the token at the cursor, after blanks and comments. -/
def token? (s : Scanner) : Option Scanner :=
  match s.cursor.rest with
  | [] => (s.dedentAll.dropKey?).map fun s => { s with keyAllowed := false, ended := true }
  | c :: r =>
    if s.cursor.column == 0 && c == '%' then s.directiveLine?
    else if s.cursor.atTriple '-' then s.documentMarker? .documentStart
    else if s.cursor.atTriple '.' then s.documentMarker? .documentEnd
    else if c == '[' then s.openFlow? .flowSequence
    else if c == '\x7b' then s.openFlow? .flowMapping
    else if c == ']' then s.closeFlow? .flowSequenceEnd
    else if c == '\x7d' then s.closeFlow? .flowMappingEnd
    else if c == ',' then s.flowEntry?
    else if c == '-' && endsWord r then s.blockEntry?
    else if c == '?' && (s.inFlow || endsWord r) then s.keySign?
    else if c == ':' && (s.inFlow || endsWord r) then s.valueSign?
    else if c == '*' then s.keyPart? fun c => (name? c).map fun (n, c) => (.alias n, c)
    else if c == '&' then s.keyPart? fun c => (name? c).map fun (n, c) => (.anchor n, c)
    else if c == '!' then s.keyPart? (tag? s.inFlow)
    else if c == '|' && !s.inFlow then s.blockScalar? true
    else if c == '>' && !s.inFlow then s.blockScalar? false
    else if c == '\x27' then s.quotedScalar? true
    else if c == '"' then s.quotedScalar? false
    else if startsPlain s.inFlow c r then s.plainScalar?
    else none

/-- Goes on to the next token. -/
def step? (size : Nat) (s : Scanner) : Option Scanner := do
  let s ← (skipToToken size s).dropStaleKeys?
  (s.dedentTo s.cursor.column).token?

/-- Reads tokens to the end of the text; each takes at least one character. -/
def run? (size : Nat) : (fuel : Nat) → Scanner → Option Scanner
  | 0, _ => none
  | fuel + 1, s => do
    let s ← step? size s
    if s.ended then some s else run? size fuel s

end Scanner

/-- The tokens of a text, and `none` if it is malformed. -/
def Token.scan? (text : String) : Option (List Token) :=
  let cs := text.toList
  if cs.all isAllowed then
    (Scanner.run? (cs.length + 1) (cs.length + 2) (Scanner.start cs)).map (·.tokens.reverse)
  else none

end FlowScript.Yaml

import FlowScript.Text.Basic
import FlowScript.Yaml.Cursor

/-!
# Scalars in a YAML text

The five ways to write a text in YAML: plain, between apostrophes, between quotes, and as a literal or folded block.
Each reader takes a cursor and gives the text with the cursor after it, or `none` if it is malformed.  Line endings
inside a scalar that runs over several lines are folded: a single one becomes a space, and of several the first is
dropped.
-/

namespace FlowScript.Yaml

/-- What stands between two words of a scalar: the blanks before the first line ending, that line ending, and the
line endings after it. -/
structure Spacing where
  blanks : List Char
  first : List Char
  more : List Char
  broken : Bool

namespace Spacing

/-- A first line ending that is LF is folded, any other is kept. -/
def fold (first more : List Char) : List Char :=
  if first = ['\n'] then (if more.isEmpty then [' '] else more) else first ++ more

/-- The characters that the spacing stands for. -/
def text (s : Spacing) : List Char :=
  if s.broken then fold s.first s.more else s.blanks

/-- Reads blanks and line endings.  After a line ending a tab left of column `indent` is refused. -/
def read (indent : Nat) : (fuel : Nat) → Spacing → Cursor → Option (Spacing × Cursor)
  | 0, s, c => some (s, c)
  | fuel + 1, s, c =>
    match c.rest with
    | [] => some (s, c)
    | x :: _ =>
      if isGap x then
        if s.broken && c.column < indent && x == '\t' then none
        else read indent fuel (if s.broken then s else { s with blanks := s.blanks ++ [x] }) (c.forward 1)
      else if isBreak x then
        let (b, d) := c.takeBreak
        read indent fuel
          (if s.broken then { s with more := s.more ++ b } else { s with blanks := [], first := b, broken := true }) d
      else some (s, c)

end Spacing

/-- The characters that end a plain scalar inside brackets and braces. -/
def isFlowIndicator (c : Char) : Bool :=
  c == ',' || c == '[' || c == ']' || c == '\x7b' || c == '\x7d'

/-- A word of a plain scalar, and the rest.  Inside brackets a colon right before a flow indicator is refused. -/
def plainWord? (flow : Bool) : List Char → Option (List Char × List Char)
  | [] => some ([], [])
  | c :: r =>
    if isGap c || isBreak c then some ([], c :: r)
    else if flow && c == ':' && r.head?.any (fun x => isFlowIndicator x || x == '?') then none
    else if (c == ':' && endsWord r) || (flow && isFlowIndicator c) then some ([], c :: r)
    else (plainWord? flow r).map fun (w, r) => (c :: w, r)

/-- A scalar that has been read. -/
structure Reading where
  text : String
  after : Cursor
  /-- Whether line endings were skipped after the text. -/
  lineEnded : Bool

/-- Reads a plain scalar from column `indent` on; `acc` holds what was read, in reverse, and `s` the spacing since. -/
def plainWords? (flow : Bool) (indent : Nat) : (fuel : Nat) → (acc : List Char) → Spacing → Cursor → Option Reading
  | 0, _, _, _ => none
  | fuel + 1, acc, s, c =>
    let done := some ⟨String.ofList acc.reverse, c, s.broken⟩
    if c.atDocumentMarker || c.startsWith '#' then done
    else do
      let (word, r) ← plainWord? flow c.rest
      if word.isEmpty then done
      else
        let acc := word.reverse ++ (s.text.reverse ++ acc)
        let c := c.forward word.length
        if r.isEmpty || !endsWord r then some ⟨String.ofList acc.reverse, c, false⟩
        else
          let (s, d) ← Spacing.read indent (r.length + 1) ⟨[], [], [], false⟩ c
          if !flow && d.column < indent then some ⟨String.ofList acc.reverse, d, s.broken⟩
          else plainWords? flow indent fuel acc s d

def plain? (flow : Bool) (indent : Nat) (c : Cursor) : Option Reading :=
  plainWords? flow indent (c.rest.length + 1) [] ⟨[], [], [], false⟩ c

def apostrophe : Char := '\x27'

/-- The character that an escape of one letter stands for. -/
def letterEscape? (c : Char) : Option Char :=
  match c with
  | '0' => some '\x00'
  | 'a' => some '\x07'
  | 'b' => some '\x08'
  | 't' => some '\t'
  | '\t' => some '\t'
  | 'n' => some '\n'
  | 'v' => some '\x0b'
  | 'f' => some '\x0c'
  | 'r' => some '\r'
  | 'e' => some '\x1b'
  | ' ' => some ' '
  | '"' => some '"'
  | '/' => some '/'
  | '\\' => some '\\'
  | 'N' => some (Char.ofNat 0x85)
  | '_' => some (Char.ofNat 0xA0)
  | 'L' => some (Char.ofNat 0x2028)
  | 'P' => some (Char.ofNat 0x2029)
  | _ => none

/-- How many hexadecimal digits follow the letter of a numeric escape. -/
def escapeWidth? (c : Char) : Option Nat :=
  match c with
  | 'x' => some 2
  | 'u' => some 4
  | 'U' => some 8
  | _ => none

/-- The character that the escape after a backslash stands for, and the length of the escape without the backslash.
A number that is no character is refused. -/
def escape? (cs : List Char) : Option (Char × Nat) :=
  match cs with
  | [] => none
  | e :: r =>
    match escapeWidth? e with
    | none => (letterEscape? e).map fun c => (c, 1)
    | some width => do
      let digits := r.take width
      if digits.length < width then none
      let n ← readDigits? 16 digits
      if n.isValidChar then some (Char.ofNat n, width + 1) else none

/-- A run of characters of a quoted scalar without blanks and line endings, added in reverse to `acc`.  The flag says
that the run ended with a backslash before a line ending, which is dropped with it. -/
def quotedRun? (single : Bool) : (fuel : Nat) → (acc : List Char) → Cursor → Option (List Char × Bool × Cursor)
  | 0, _, _ => none
  | fuel + 1, acc, c =>
    match c.rest with
    | [] => some (acc, false, c)
    | x :: r =>
      if isGap x || isBreak x then some (acc, false, c)
      else if single && x == apostrophe then
        if r.head? = some apostrophe then quotedRun? single fuel (apostrophe :: acc) (c.forward 2)
        else some (acc, false, c)
      else if !single && x == '"' then some (acc, false, c)
      else if !single && x == '\\' then
        if r.head?.any isBreak then some (acc, true, (c.forward 1).skipBreak)
        else do
          let (z, n) ← escape? r
          quotedRun? single fuel (z :: acc) (c.forward (n + 1))
      else quotedRun? single fuel (x :: acc) (c.forward 1)

/-- Reads a quoted scalar from behind its opening quote to behind its closing one. -/
def quotedBody? (single : Bool) : (fuel : Nat) → (acc : List Char) → Cursor → Option Reading
  | 0, _, _ => none
  | fuel + 1, acc, c =>
    if c.atDocumentMarker || c.rest.isEmpty then none
    else do
      let (acc, joined, c) ← quotedRun? single (c.rest.length + 1) acc c
      if c.startsWith (if single then apostrophe else '"') then
        some ⟨String.ofList acc.reverse, c.forward 1, false⟩
      else
        let (s, c) ← Spacing.read 0 (c.rest.length + 1) ⟨[], [], [], joined⟩ c
        quotedBody? single fuel (s.text.reverse ++ acc) c

def quoted? (single : Bool) (c : Cursor) : Option Reading :=
  quotedBody? single (c.rest.length + 1) [] (c.forward 1)

/-- What happens to the line endings after a block scalar: all are dropped, one is kept, or all are kept. -/
inductive Chomping where
  | strip
  | clip
  | keep
deriving DecidableEq

def chomping? (c : Cursor) : Option Chomping :=
  match c.rest.head? with
  | some '+' => some .keep
  | some '-' => some .strip
  | _ => none

/-- An indentation digit; zero is refused by the caller. -/
def indentDigit? (c : Cursor) : Option Nat :=
  match c.rest.head? with
  | some x => if x.isDigit then some (x.toNat - '0'.toNat) else none
  | none => none

/-- The header of a block scalar after its indicator: chomping, indentation (zero if it is left open) and the rest of
the line.  The two may stand in either order. -/
def blockHeader? (c : Cursor) : Option (Chomping × Nat × Cursor) := do
  let (chomping, indent, c) ← match chomping? c with
    | some ch =>
      let c := c.forward 1
      match indentDigit? c with
      | some 0 => none
      | some n => some (ch, n, c.forward 1)
      | none => some (ch, 0, c)
    | none =>
      match indentDigit? c with
      | some 0 => none
      | some n =>
        let c := c.forward 1
        match chomping? c with
        | some ch => some (ch, n, c.forward 1)
        | none => some (.clip, n, c)
      | none => some (.clip, 0, c)
  let c ← c.restOfLine?
  some (chomping, indent, c)

/-- Skips empty lines and the indentation of the next line, which has `indent` columns, or as many as there are if
`indent` is zero.  Gives the line endings, the largest column reached, and the cursor. -/
def blockBreaks? (indent : Nat) : (fuel : Nat) → (breaks : List Char) → (widest : Nat) → Cursor →
    Option (List Char × Nat × Cursor)
  | 0, _, _, _ => none
  | fuel + 1, breaks, widest, c =>
    let spaces := (c.takeWhile (· == ' ')).1.length
    let c := c.forward (if indent = 0 then spaces else min spaces (indent - c.column))
    let widest := max widest c.column
    if (indent = 0 || c.column < indent) && c.startsWith '\t' then none
    else if c.atBreak then
      let (b, d) := c.takeBreak
      blockBreaks? indent fuel (breaks ++ b) widest d
    else some (breaks, widest, c)

/-- The lines of a block scalar, each at column `indent`.  `ending` is the ending of the last line, `breaks` are the
empty lines after it, and `blank` says that the last line began with a blank: the ending of such a line is not
folded, nor is the one before it. -/
def blockLines? (literal : Bool) (indent : Nat) : (fuel : Nat) → (acc ending breaks : List Char) → (blank : Bool) →
    Cursor → Option (List Char × List Char × List Char × Cursor)
  | 0, _, _, _, _, _ => none
  | fuel + 1, acc, ending, breaks, blank, c =>
    if c.column != indent || c.rest.isEmpty then some (acc, ending, breaks, c)
    else do
      let indented := c.atGap
      let joint :=
        if !literal && ending == ['\n'] && !blank && !indented then (if breaks.isEmpty then [' '] else [])
        else ending
      let (line, c) := c.takeWhile fun x => !isBreak x
      let acc := line.reverse ++ (breaks.reverse ++ (joint.reverse ++ acc))
      let (ending, c) := c.takeBreak
      let (breaks, _, c) ← blockBreaks? indent (c.rest.length + 1) [] 0 c
      blockLines? literal indent fuel acc ending breaks indented c

/-- Reads a block scalar whose parent is indented by `parent` columns, `none` at the top. -/
def block? (literal : Bool) (parent : Option Nat) (c : Cursor) : Option Reading := do
  let (chomping, width, c) ← blockHeader? (c.forward 1)
  let fixed := if width = 0 then 0 else parent.getD 0 + width
  let (breaks, widest, c) ← blockBreaks? fixed (c.rest.length + 1) [] 0 c
  let least := match parent with
    | some p => p + 1
    | none => 0
  let indent := if fixed = 0 then max (max widest least) 1 else fixed
  let (acc, ending, breaks, c) ← blockLines? literal indent (c.rest.length + 1) [] [] breaks false c
  let tail := match chomping with
    | .strip => []
    | .clip => ending
    | .keep => ending ++ breaks
  some ⟨String.ofList (acc.reverse ++ tail), c, true⟩

end FlowScript.Yaml

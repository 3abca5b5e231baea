/-!
# A place in a YAML text

A cursor is the rest of the text and the mark of its first character.  A mark counts the bytes of the text before it,
the lines before it, and the characters before it on its line.  Lines end at LF, CR, CR LF, NEL, LS or PS;
`Cursor.takeBreak` reads one such ending, which stands for LF unless it is LS or PS.
-/

namespace FlowScript.Yaml

structure Mark where
  /-- How many bytes of UTF-8 come before. -/
  index : Nat
  line : Nat
  column : Nat

structure Cursor where
  rest : List Char
  mark : Mark

/-- The characters a text may hold: tab, line endings, and everything printable. -/
def isAllowed (c : Char) : Bool :=
  let n := c.toNat
  n == 0x09 || n == 0x0A || n == 0x0D || (0x20 ≤ n && n ≤ 0x7E) || n == 0x85 || (0xA0 ≤ n && n ≤ 0xFFFD) ||
    0x10000 ≤ n

def byteOrderMark : Char := Char.ofNat 0xFEFF

def isBreak (c : Char) : Bool :=
  c == '\n' || c == '\r' || c.toNat == 0x85 || c.toNat == 0x2028 || c.toNat == 0x2029

/-- The characters that separate words on a line. -/
def isGap (c : Char) : Bool := c == ' ' || c == '\t'

/-- Whether a text ends, or goes on with a line ending. -/
def endsLine : List Char → Bool
  | [] => true
  | c :: _ => isBreak c

/-- Whether a text ends, or goes on with a blank or a line ending. -/
def endsWord : List Char → Bool
  | [] => true
  | c :: _ => isGap c || isBreak c

/-- The characters of names in anchors, directives and tags. -/
def isWordChar (c : Char) : Bool := c.isAlphanum || c == '_' || c == '-'

/-- The length of a text in UTF-8. -/
def byteLength (cs : List Char) : Nat := cs.foldl (fun n c => n + c.utf8Size) 0

namespace Cursor

def start (cs : List Char) : Cursor := ⟨cs, ⟨0, 0, 0⟩⟩

def column (c : Cursor) : Nat := c.mark.column

def startsWith (c : Cursor) (x : Char) : Bool := c.rest.head? == some x

def atBreak (c : Cursor) : Bool :=
  match c.rest with
  | [] => false
  | x :: _ => isBreak x

def atGap (c : Cursor) : Bool :=
  match c.rest with
  | [] => false
  | x :: _ => isGap x

/-- Goes `n` characters on, none of which ends a line. -/
def forward (c : Cursor) (n : Nat) : Cursor :=
  ⟨c.rest.drop n,
    { c.mark with index := c.mark.index + byteLength (c.rest.take n), column := c.mark.column + n }⟩

/-- Takes the characters that satisfy `p`, none of which ends a line. -/
def takeWhile (c : Cursor) (p : Char → Bool) : List Char × Cursor :=
  let taken := c.rest.takeWhile p
  (taken, c.forward taken.length)

def skipWhile (c : Cursor) (p : Char → Bool) : Cursor := (c.takeWhile p).2

/-- The mark after a line ending of `n` characters. -/
def newLine (c : Cursor) (n : Nat) : Cursor :=
  ⟨c.rest.drop n, ⟨c.mark.index + byteLength (c.rest.take n), c.mark.line + 1, 0⟩⟩

/-- Reads the line ending at the cursor, if there is one. -/
def takeBreak (c : Cursor) : List Char × Cursor :=
  match c.rest with
  | '\r' :: '\n' :: _ => (['\n'], c.newLine 2)
  | x :: _ =>
    if x.toNat == 0x2028 || x.toNat == 0x2029 then ([x], c.newLine 1)
    else if isBreak x then (['\n'], c.newLine 1)
    else ([], c)
  | [] => ([], c)

def skipBreak (c : Cursor) : Cursor := c.takeBreak.2

/-- Skips a comment, if one starts here. -/
def skipComment (c : Cursor) : Cursor :=
  if c.startsWith '#' then c.skipWhile fun x => !isBreak x else c

/-- Skips blanks, a comment and the line ending; there must be nothing else on the line. -/
def restOfLine? (c : Cursor) : Option Cursor :=
  let c := (c.skipWhile isGap).skipComment
  if endsLine c.rest then some c.skipBreak else none

/-- Whether the line begins with three times the character `x` as a word of its own. -/
def atTriple (c : Cursor) (x : Char) : Bool :=
  c.column == 0 &&
    match c.rest with
    | a :: b :: d :: r => a == x && b == x && d == x && endsWord r
    | _ => false

/-- Whether the line begins with a document marker. -/
def atDocumentMarker (c : Cursor) : Bool := c.atTriple '-' || c.atTriple '.'

end Cursor

end FlowScript.Yaml

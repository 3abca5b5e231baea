import FlowScript.Decimal.Reader
import FlowScript.Tree.Basic

/-!
# Reading JSON text

`Tree.ofJson?` reads a JSON text.  A number without point and exponent that fits 64 bits, signed or not, is a whole
number, and any other number is a double; `-0` is the double.  A repeated key keeps its last value.
-/

namespace FlowScript

namespace Json

def isSpace (c : Char) : Bool := c == ' ' || c == '\n' || c == '\r' || c == '\t'

def skipSpace (cs : List Char) : List Char := cs.dropWhile isSpace

/-- Whole numbers keep to the ranges of signed and unsigned words of 64 bits. -/
def fitsWord (n : Int) : Bool := -(Int.pow 2 63) ≤ n && n < Int.pow 2 64

/-- The number written in `cs`, which is an optional minus sign and an unsigned decimal. -/
def number? (cs : List Char) : Option Number :=
  let (negative, body) := match cs with
    | '-' :: r => (true, r)
    | r => (false, r)
  match readDigits? 10 body with
  | some n =>
    let value : Int := if negative then -n else n
    if fitsWord value && !(negative && n == 0) then some (.int value)
    else (Double.ofDecimal? negative n 0).map .real
  | none => do
    let parts ← Decimal.Parts.split? body
    if parts.whole.isEmpty then none
    (parts.toDouble? negative).map .real

def isNumberChar (c : Char) : Bool :=
  isDigitIn 10 c || c == '-' || c == '+' || c == '.' || c == 'e' || c == 'E'

/-- The value of four hexadecimal digits, and the rest. -/
def hex4? (cs : List Char) : Option (Nat × List Char) :=
  (readDigits? 16 (cs.take 4)).bind fun n => if cs.length < 4 then none else some (n, cs.drop 4)

def shortEscape? : Char → Option Char
  | '"' => some '"'
  | '\\' => some '\\'
  | '/' => some '/'
  | 'b' => some '\x08'
  | 'f' => some '\x0c'
  | 'n' => some '\n'
  | 'r' => some '\r'
  | 't' => some '\t'
  | _ => none

/-- The character that `\u` and four digits stand for, two such escapes together if the first is half a pair. -/
def unicodeEscape? (cs : List Char) : Option (Char × List Char) := do
  let (hi, r) ← hex4? cs
  if 0xD800 ≤ hi ∧ hi < 0xDC00 then
    let r ← dropWord? ['\\', 'u'] r
    let (lo, r) ← hex4? r
    if 0xDC00 ≤ lo ∧ lo < 0xE000 then
      some (Char.ofNat (0x10000 + (hi - 0xD800) * 0x400 + (lo - 0xDC00)), r)
    else none
  else if 0xDC00 ≤ hi ∧ hi < 0xE000 then none
  else some (Char.ofNat hi, r)

/-- The characters up to the closing quote, added in reverse to `acc`, and the rest after the quote. -/
def stringBody? : (fuel : Nat) → (acc cs : List Char) → Option (String × List Char)
  | 0, _, _ => none
  | fuel + 1, acc, cs =>
    match cs with
    | [] => none
    | '"' :: r => some (String.ofList acc.reverse, r)
    | '\\' :: 'u' :: r => do
      let (c, r) ← unicodeEscape? r
      stringBody? fuel (c :: acc) r
    | '\\' :: e :: r => do
      let c ← shortEscape? e
      stringBody? fuel (c :: acc) r
    | c :: r => if c.toNat < 0x20 then none else stringBody? fuel (c :: acc) r

mutual

/-- A value at the front of `cs`, and the rest. -/
def value? (fuel : Nat) (cs : List Char) : Option (Tree × List Char) :=
  match fuel with
  | 0 => none
  | fuel + 1 =>
    match skipSpace cs with
    | '"' :: r => (stringBody? (r.length + 1) [] r).map fun (s, r) => (.str s, r)
    | '[' :: r =>
      match skipSpace r with
      | ']' :: r => some (.arr [], r)
      | r => (items? fuel r).map fun (ts, r) => (.arr ts, r)
    | '\x7b' :: r =>
      match skipSpace r with
      | '\x7d' :: r => some (.obj [], r)
      | r => (fields? fuel r).map fun (fs, r) => (Tree.object fs, r)
    | 'n' :: r => (dropWord? ['u', 'l', 'l'] r).map fun r => (.null, r)
    | 't' :: r => (dropWord? ['r', 'u', 'e'] r).map fun r => (.bool true, r)
    | 'f' :: r => (dropWord? ['a', 'l', 's', 'e'] r).map fun r => (.bool false, r)
    | r =>
      let (digits, r) := splitWhile isNumberChar r
      (number? digits).map fun n => (.num n, r)

/-- Values separated by commas, up to the closing bracket. -/
def items? (fuel : Nat) (cs : List Char) : Option (List Tree × List Char) :=
  match fuel with
  | 0 => none
  | fuel + 1 => do
    let (t, r) ← value? fuel cs
    match skipSpace r with
    | ']' :: r => some ([t], r)
    | ',' :: r =>
      let (ts, r) ← items? fuel r
      some (t :: ts, r)
    | _ => none

/-- Keys and values separated by commas, up to the closing brace. -/
def fields? (fuel : Nat) (cs : List Char) : Option (List (String × Tree) × List Char) :=
  match fuel with
  | 0 => none
  | fuel + 1 => do
    let r ← dropWord? ['"'] (skipSpace cs)
    let (key, r) ← stringBody? (r.length + 1) [] r
    let r ← dropWord? [':'] (skipSpace r)
    let (t, r) ← value? fuel r
    match skipSpace r with
    | '\x7d' :: r => some ([(key, t)], r)
    | ',' :: r =>
      let (ts, r) ← fields? fuel r
      some ((key, t) :: ts, r)
    | _ => none

end

end Json

/-- The tree that a JSON text writes, and `none` if it is no JSON text. -/
def Tree.ofJson? (text : String) : Option Tree :=
  let cs := text.toList
  match Json.value? (2 * cs.length + 1) cs with
  | some (t, r) => if (Json.skipSpace r).isEmpty then some t else none
  | none => none

end FlowScript

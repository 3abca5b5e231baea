import FlowScript.Text.Printable

/-!
# Texts

What the rest of the library asks of texts, over lists of characters.

* `isBlank` is the Unicode property White_Space, and `dropEndWhile` trims by such a property.
* `dropWord?` takes a word off the front of a text (`dropWord?_eq_some`).
* `readDigits?` reads a run of digits in a given base.
* `pieces` cuts a text at every element of a class and keeps the empty pieces.  `lines` ends a line at LF, and takes one
  CR before that LF as part of the ending; the text after the last LF is a line only if it is not empty.
* `showText` puts a text that a message repeats between quotes, with the quote, the backslash and everything that does
  not print escaped.
-/

namespace FlowScript

/-! ### Blanks -/

/-- The characters with the Unicode property White_Space. -/
def isBlank (c : Char) : Bool :=
  let n := c.toNat
  (0x09 ≤ n && n ≤ 0x0D) || n == 0x20 || n == 0x85 || n == 0xA0 || n == 0x1680 || (0x2000 ≤ n && n ≤ 0x200A) ||
    n == 0x2028 || n == 0x2029 || n == 0x202F || n == 0x205F || n == 0x3000

/-- The list without its longest suffix of elements that satisfy `p`. -/
def dropEndWhile {α : Type} (p : α → Bool) (l : List α) : List α :=
  (l.reverse.dropWhile p).reverse

/-- The text without its blank characters at the end. -/
def trimEnd (s : String) : String :=
  String.ofList (dropEndWhile isBlank s.toList)

/-- Whether the text has a character that is not blank. -/
def hasInk (s : String) : Bool :=
  s.toList.any fun c => !isBlank c

/-! ### Words -/

/-- Removes `word` from the front of a text. -/
def dropWord? : (word cs : List Char) → Option (List Char)
  | [], cs => some cs
  | w :: ws, c :: cs => if w = c then dropWord? ws cs else none
  | _ :: _, [] => none

theorem dropWord?_eq_some {w cs rest : List Char} : dropWord? w cs = some rest ↔ cs = w ++ rest := by
  induction w generalizing cs with
  | nil => simp [dropWord?]
  | cons d w ih =>
    cases cs with
    | nil => simp [dropWord?]
    | cons c cs =>
      unfold dropWord?
      split
      · next h => simp [h, ih]
      · next h => simp [Ne.symm h]

/-! ### Digits -/

/-- The value of a digit or letter as a digit, up to thirty-five. -/
def digitValue? (c : Char) : Option Nat :=
  let n := c.toNat
  if '0'.toNat ≤ n ∧ n ≤ '9'.toNat then some (n - '0'.toNat)
  else if 'a'.toNat ≤ n ∧ n ≤ 'z'.toNat then some (n - 'a'.toNat + 10)
  else if 'A'.toNat ≤ n ∧ n ≤ 'Z'.toNat then some (n - 'A'.toNat + 10)
  else none

/-- Whether `c` is a digit in the given base. -/
def isDigitIn (base : Nat) (c : Char) : Bool :=
  match digitValue? c with
  | some d => d < base
  | none => false

/-- The number that digits write in a base; a character that is no digit counts zero. -/
def numberOf (base : Nat) (cs : List Char) : Nat :=
  cs.foldl (fun n c => n * base + (digitValue? c).getD 0) 0

/-- The number that a non-empty run of digits writes, and `none` for anything else. -/
def readDigits? (base : Nat) (cs : List Char) : Option Nat :=
  if cs ≠ [] ∧ cs.all (isDigitIn base) then some (numberOf base cs) else none

/-- The longest leading part whose elements satisfy `p`, and the rest. -/
def splitWhile {α : Type} (p : α → Bool) (l : List α) : List α × List α := (l.takeWhile p, l.dropWhile p)

/-! ### Lines -/

/-- The pieces between the elements that satisfy `p`; there is always at least one. -/
def pieces {α : Type} (p : α → Bool) : List α → List (List α)
  | [] => [[]]
  | c :: r =>
    if p c then [] :: pieces p r
    else match pieces p r with
      | [] => [[c]]
      | q :: qs => (c :: q) :: qs

theorem pieces_ne_nil {α : Type} (p : α → Bool) (l : List α) : pieces p l ≠ [] := by
  cases l with
  | nil => simp [pieces]
  | cons c r =>
    unfold pieces
    split
    · simp
    · split <;> simp

/-- A line without one CR at its end. -/
def dropCarriage (l : List Char) : List Char :=
  if l.getLast? = some '\r' then l.dropLast else l

/-- The lines of a text, without their endings. -/
def lines (cs : List Char) : List (List Char) :=
  let ps := pieces (· == '\n') cs
  let body := ps.dropLast.map dropCarriage
  match ps.getLast? with
  | none | some [] => body
  | some last => body ++ [last]

/-! ### Texts in messages -/

def showChar (c : Char) : List Char :=
  if c = '\x00' then ['\\', '0']
  else if c = '\t' then ['\\', 't']
  else if c = '\r' then ['\\', 'r']
  else if c = '\n' then ['\\', 'n']
  else if c = '"' then ['\\', '"']
  else if c = '\\' then ['\\', '\\']
  else if isPrintable c then [c]
  else '\\' :: 'u' :: '\x7b' :: (Nat.toDigits 16 c.toNat ++ ['\x7d'])

def showText (s : String) : String := "\"" ++ String.ofList (s.toList.flatMap showChar) ++ "\""

end FlowScript

import FlowScript.Text.Basic

/-!
# Layout

A script is laid out by a list of edits.  An edit adds text at the current level of indentation and may change the
level; what it adds depends on nothing but that level.  So the text of a list of edits is the concatenation of the
texts of its parts, each at the level where it starts (`Edit.text_append`).
-/

namespace FlowScript

inductive Edit where
  /-- A line at the current level. -/
  | line (text : String)
  | blank
  /-- Lines of any text, each at the current level and otherwise as they are. -/
  | verbatim (text : String)
  /-- Comment lines. -/
  | comment (text : String)
  | indent
  | dedent
  /-- A line that opens a level. -/
  | opening (text : String)
  /-- A line that opens a level with a brace. -/
  | block (text : String)
  /-- A line that closes a level. -/
  | closing (text : String)
  /-- A brace that closes a level. -/
  | blockEnd

namespace Edit

/-- Two spaces for each level. -/
def indentation (level : Nat) : String := String.ofList (List.replicate (2 * level) ' ')

/-- A line with its ending; an empty line has no indentation. -/
def lineText (level : Nat) (text : String) : String :=
  if text = "" then "\n" else indentation level ++ text ++ "\n"

def linesText (level : Nat) (texts : List String) : String := String.join (texts.map (lineText level))

def isLineEnd (c : Char) : Bool := c == '\n' || c == '\r'

/-- The lines of a text without the line endings at its very end. -/
def verbatimLines (text : String) : List String :=
  (lines (dropEndWhile isLineEnd text.toList)).map String.ofList

/-- One line of a comment, without blanks at its end. -/
def commentLine (text : String) : String :=
  let body := trimEnd text
  if body = "" then "//" else "// " ++ body

def commentLines (text : String) : List String :=
  (lines (dropEndWhile isBlank text.toList)).map fun l => commentLine (String.ofList l)

/-- What an edit adds at a level. -/
def added (level : Nat) : Edit → String
  | line text | opening text => lineText level text
  | blank => "\n"
  | verbatim text => linesText level (verbatimLines text)
  | comment text => linesText level (commentLines text)
  | indent | dedent => ""
  | block text => lineText level (text ++ " \x7b")
  | closing text => lineText (level - 1) text
  | blockEnd => lineText (level - 1) "\x7d"

/-- The level after an edit; there is none below zero. -/
def next (level : Nat) : Edit → Nat
  | indent | opening _ | block _ => level + 1
  | dedent | closing _ | blockEnd => level - 1
  | line _ | blank | verbatim _ | comment _ => level

/-- The text that a list of edits adds, from a level on. -/
def text (level : Nat) : List Edit → String
  | [] => ""
  | e :: r => e.added level ++ text (e.next level) r

/-- The level after a list of edits. -/
def level (start : Nat) (es : List Edit) : Nat := es.foldl next start

theorem level_append (n : Nat) (es fs : List Edit) : level n (es ++ fs) = level (level n es) fs :=
  List.foldl_append

theorem text_append (n : Nat) (es fs : List Edit) :
    text n (es ++ fs) = text n es ++ text (level n es) fs := by
  induction es generalizing n with
  | nil => simp [text, level]
  | cons e es ih => simp [text, level, ih, String.append_assoc]

end Edit

end FlowScript

import FlowScript.Program.Interpolation
import FlowScript.Tree.Compact

/-!
# Literals of a script

How values are written in the generated script: texts as double-quoted strings, templates between backticks, other
values as JSON, references by their name.  `Script.value` writes an expression, and `Script.guard` a condition.
-/

namespace FlowScript

namespace Script

/-- How a character stands in a double-quoted string. -/
def escapeChar (c : Char) : List Char :=
  if c = '\\' then ['\\', '\\']
  else if c = '"' then ['\\', '"']
  else if c = '\n' then ['\\', 'n']
  else if c = '\r' then ['\\', 'r']
  else if c = '\t' then ['\\', 't']
  else [c]

/-- A text as a double-quoted string. -/
def quote (s : String) : String := "\"" ++ String.ofList (s.toList.flatMap escapeChar) ++ "\""

def backtick : Char := '\x60'

/-- How text stands in a template: backslashes, backticks and the openings of holes are escaped. -/
def escapeTemplate : List Char → List Char
  | [] => []
  | '$' :: '\x7b' :: r => '\\' :: '$' :: '\x7b' :: escapeTemplate r
  | c :: r =>
    if c = '\\' ∨ c = backtick then '\\' :: c :: escapeTemplate r else c :: escapeTemplate r

def part : Part → String
  | .lit s => String.ofList (escapeTemplate s.toList)
  | .var r => "$\x7b" ++ r.text ++ "\x7d"

def template (ps : List Part) : String := "`" ++ String.join (ps.map part) ++ "`"

/-- A value of a document: texts are quoted, everything else is JSON. -/
def literal : Tree → String
  | .str s => quote s
  | v => v.compact

def value : Expr → String
  | .literal v => literal v
  | .ref r => r.text
  | .template ps => template ps

/-- The expression that a text of a workflow stands for. -/
def interpolate (raw : String) : String := value (Expr.ofText raw)

/-- An operator of a workflow as the script writes it; what is not known stays as it is. -/
def operator (symbol : String) : String :=
  match Comparison.ofSymbol? symbol with
  | some c => c.operator
  | none => symbol

def test (t : Test) : String := t.field ++ " " ++ t.comparison.operator ++ " " ++ literal t.value

def joiner : Junction → String
  | .and => " && "
  | .or => " || "

def guard (g : Guard) : String := (joiner g.junction).intercalate (g.tests.map test)

end Script

end FlowScript

import FlowScript.Tree.Basic

/-!
# Compact JSON text

`Tree.compact` writes a tree as JSON without any blanks.  In a text the quote, the backslash and the characters below
U+0020 are escaped, with the short escapes where JSON has one; everything else stands as it is.
-/

namespace FlowScript

namespace Json

/-- The lower-case hexadecimal digit of a number below sixteen. -/
def hexDigit (n : Nat) : Char := Nat.digitChar n

def escape (c : Char) : List Char :=
  if c = '"' then ['\\', '"']
  else if c = '\\' then ['\\', '\\']
  else if c = '\x08' then ['\\', 'b']
  else if c = '\x0c' then ['\\', 'f']
  else if c = '\n' then ['\\', 'n']
  else if c = '\r' then ['\\', 'r']
  else if c = '\t' then ['\\', 't']
  else if c.toNat < 0x20 then ['\\', 'u', '0', '0', hexDigit (c.toNat / 16), hexDigit (c.toNat % 16)]
  else [c]

/-- A text as a JSON string. -/
def quote (s : String) : String :=
  "\"" ++ String.ofList (s.toList.flatMap escape) ++ "\""

end Json

namespace Tree

mutual

/-- The compact JSON text of a tree. -/
def compact : Tree → String
  | null => "null"
  | bool true => "true"
  | bool false => "false"
  | num n => n.text
  | str s => Json.quote s
  | arr items => "[" ++ compactItems items ++ "]"
  | obj fields => "\x7b" ++ compactFields fields ++ "\x7d"

def compactItems : List Tree → String
  | [] => ""
  | [t] => compact t
  | t :: r => compact t ++ "," ++ compactItems r

def compactFields : List (String × Tree) → String
  | [] => ""
  | [(k, t)] => Json.quote k ++ ":" ++ compact t
  | (k, t) :: r => Json.quote k ++ ":" ++ compact t ++ "," ++ compactFields r

end

end Tree

end FlowScript

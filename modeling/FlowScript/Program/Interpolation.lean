import FlowScript.Program.Basic

/-!
# References in texts

In a text, `${scope.identifier}` stands for a value that is known at run time.  `Part.split` cuts a text into such
references and the literal text between them, and `Part.render` puts the parts together again.  Whatever only looks
like a reference is literal text.
-/

namespace FlowScript

def isIdentifierStart (c : Char) : Bool := c.isAlpha || c == '_'

def isIdentifierChar (c : Char) : Bool := c.isAlphanum || c == '_'

/-- A letter or underscore, followed by letters, digits and underscores. -/
def isIdentifier : List Char → Bool
  | [] => false
  | c :: r => isIdentifierStart c && r.all isIdentifierChar

namespace Reference

/-- The reference that stands between the braces, if it is one. -/
def ofInner? (cs : List Char) : Option Reference :=
  match cs.dropWhile (· != '.') with
  | [] => none
  | _ :: identifier =>
    match Scope.ofName? (String.ofList (cs.takeWhile (· != '.'))) with
    | some scope => if isIdentifier identifier then some ⟨scope, String.ofList identifier⟩ else none
    | none => none

/-- The reference right after an opening brace, and what follows its closing brace. -/
def read? (cs : List Char) : Option (Reference × List Char) :=
  match cs.dropWhile (· != '\x7d') with
  | [] => none
  | _ :: rest => (ofInner? (cs.takeWhile (· != '\x7d'))).map fun r => (r, rest)

theorem length_read? {cs : List Char} {r : Reference} {rest : List Char} (h : read? cs = some (r, rest)) :
    rest.length < cs.length := by
  unfold read? at h
  split at h
  · simp at h
  · next c tail heq =>
    simp only [Option.map_eq_some_iff, Prod.mk.injEq] at h
    obtain ⟨_, _, _, rfl⟩ := h
    have := (List.dropWhile_suffix (l := cs) (· != '\x7d')).length_le
    rw [heq] at this
    simp only [List.length_cons] at this
    omega

/-- The text of a reference in the script. -/
def text (r : Reference) : String := r.scope.name ++ "." ++ r.identifier

end Reference

namespace Part

/-- A literal part, unless the text is empty. -/
def literal? (cs : List Char) : List Part := if cs.isEmpty then [] else [lit (String.ofList cs)]

/-- Cuts `cs` into parts; `acc` is the literal text before it, in reverse. -/
def splitFrom (acc : List Char) (cs : List Char) : List Part :=
  match cs with
  | [] => literal? acc.reverse
  | '$' :: '\x7b' :: inner =>
    match h : Reference.read? inner with
    | some (ref, rest) =>
      have : rest.length < inner.length := Reference.length_read? h
      literal? acc.reverse ++ var ref :: splitFrom [] rest
    | none => splitFrom ('\x7b' :: '$' :: acc) inner
  | c :: r => splitFrom (c :: acc) r
termination_by cs.length

def split (raw : String) : List Part := splitFrom [] raw.toList

/-- The text of a part in a workflow. -/
def source : Part → String
  | lit s => s
  | var r => "$\x7b" ++ r.text ++ "\x7d"

def render (ps : List Part) : String := String.join (ps.map source)

end Part

/-- A text without references is a literal, a single reference is itself, and everything else is a template. -/
def Expr.ofText (raw : String) : Expr :=
  match Part.split raw with
  | [] => .literal (.str "")
  | [.lit s] => .literal (.str s)
  | [.var r] => .ref r
  | ps => .template ps

end FlowScript

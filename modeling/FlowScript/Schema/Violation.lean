import FlowScript.Problem
import FlowScript.Text.Basic
import FlowScript.Tree.Compact

/-!
# Violations

What a schema finds wrong with a tree: where, by which rule, and in words.  A report lists violations in the order of
their paths, rules and messages, each of them once.
-/

namespace FlowScript

structure Violation where
  /-- A pointer from the root; the root itself is empty. -/
  path : String
  message : String
  keyword : String
  params : Tree
deriving DecidableEq

namespace Violation

/-- A step of a pointer, in which `~` and `/` are escaped. -/
def pointerStep (key : String) : String :=
  String.ofList (key.toList.flatMap fun c => if c = '~' then ['~', '0'] else if c = '/' then ['~', '1'] else [c])

def pathTo (path key : String) : String := path ++ "/" ++ pointerStep key

/-- A decimal number below `2 ^ 64`, with or without a plus sign. -/
def wordIndex? (cs : List Char) : Option Nat :=
  let digits := match cs with
    | '+' :: r => r
    | r => r
  if digits.isEmpty || !digits.all Char.isDigit then none
  else
    let n := digits.foldl (fun n c => n * 10 + (c.toNat - '0'.toNat)) 0
    if n < Nat.pow 2 64 then some n else none

/-- The step that the violation is in, if its path leads into one. -/
def stepIndex? (v : Violation) : Option Nat := do
  let rest ← dropWord? "/steps/".toList v.path.toList
  wordIndex? (rest.takeWhile (· != '/'))

def display (v : Violation) : String :=
  (if v.path = "" then "/" else v.path) ++ ": " ++ v.message ++ " [" ++ v.keyword ++ "]"

def encode (v : Violation) : Tree :=
  Tree.object [
    ("path", .str v.path),
    ("message", .str v.message),
    ("keyword", .str v.keyword),
    ("params", v.params)]

def problem (v : Violation) : Problem := ⟨"S001", .validate, v.message, v.stepIndex?, some v.path⟩

/-- Whether `a` may come before `b` in a report. -/
def le (a b : Violation) : Bool :=
  if a.path ≠ b.path then a.path < b.path
  else if a.keyword ≠ b.keyword then a.keyword < b.keyword
  else a.message ≤ b.message

/-- Drops each violation that equals the one before it. -/
def dropRepeats : List Violation → List Violation
  | a :: b :: r => if a = b then dropRepeats (a :: r) else a :: dropRepeats (b :: r)
  | l => l

def report (vs : List Violation) : List Violation := dropRepeats (vs.mergeSort le)

end Violation

end FlowScript

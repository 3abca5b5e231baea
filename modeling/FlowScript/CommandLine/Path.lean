/-!
# Paths

Paths as texts, with steps separated by slashes.  Empty steps do not count, nor does `.` except in front.
-/

namespace FlowScript

namespace Path

def isAbsolute (path : String) : Bool := path.toList.head? == some '/'

/-- The steps of a path, each with the number of characters up to its end.  `n` characters come before `cs`, of which
`word` are part of the current step, in reverse. -/
def stepsFrom (n : Nat) (word : List Char) : List Char → List (List Char × Nat)
  | [] => if word.isEmpty then [] else [(word.reverse, n)]
  | c :: r =>
    if c = '/' then (if word.isEmpty then [] else [(word.reverse, n)]) ++ stepsFrom (n + 1) [] r
    else stepsFrom (n + 1) (c :: word) r

/-- Whether a step counts; `.` does only as the first characters of a path. -/
def counts (step : List Char × Nat) : Bool := step.1 ≠ ['.'] || step.2 == 1

def steps (path : String) : List (List Char × Nat) := (stepsFrom 0 [] path.toList).filter counts

/-- The path without its last step, if it has one. -/
def parent? (path : String) : Option String :=
  match (steps path).reverse with
  | [] => none
  | [_] => some (if isAbsolute path then "/" else "")
  | _ :: (_, n) :: _ => some (String.ofList (path.toList.take n))

/-- Whether the path ends with a slash. -/
def endsWithSlash (path : String) : Bool := path.toList.getLast? == some '/'

/-- A path that starts in a directory.  An absolute path starts at the root all the same. -/
def join (dir path : String) : String :=
  if isAbsolute path then path
  else if dir = "" ∨ endsWithSlash dir then dir ++ path
  else dir ++ "/" ++ path

/-- All steps that are not empty, also those that do not count. -/
def walk (path : String) : List String := (stepsFrom 0 [] path.toList).map fun s => String.ofList s.1

end Path

end FlowScript

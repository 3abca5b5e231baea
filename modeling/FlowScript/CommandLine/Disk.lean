import FlowScript.CommandLine.Path

/-!
# File access

What the command line needs of a file system: to read a file, to make directories, and to write a file.  `Disk` is a
file system as a value, with directories and files but without links and permissions.
-/

namespace FlowScript

inductive FileError where
  | notFound
  | occupied
  | notDirectory
  | isDirectory
  | nameTooLong
  | zeroInName
  | notText
  /-- Anything else that the system reports. -/
  | other (text : String)
deriving DecidableEq

def FileError.message : FileError → String
  | notFound => "No such file or directory (os error 2)"
  | occupied => "File exists (os error 17)"
  | notDirectory => "Not a directory (os error 20)"
  | isDirectory => "Is a directory (os error 21)"
  | nameTooLong => "File name too long (os error 36)"
  | zeroInName => "file name contained an unexpected NUL byte"
  | notText => "stream did not contain valid UTF-8"
  | other text => text

structure FileAccess (m : Type → Type) where
  read : (path : String) → m (Except FileError String)
  /-- Makes a directory and those above it, as far as they are missing. -/
  makeDirectories : (path : String) → m (Except FileError Unit)
  /-- Makes or replaces a file. -/
  write : (path text : String) → m (Except FileError Unit)

inductive Entry where
  | file (bytes : List UInt8)
  | directory
deriving DecidableEq

/-- Where something is on a disk: the steps from the root. -/
abbrev Place := List String

structure Disk where
  /-- What is on the disk, apart from its root. -/
  entries : List (Place × Entry)
  /-- Where relative paths start. -/
  current : Place

namespace Disk

def entry? (d : Disk) (p : Place) : Option Entry := if p = [] then some .directory else d.entries.lookup p

def put (d : Disk) (p : Place) (e : Entry) : Disk :=
  { d with entries := (p, e) :: d.entries.filter fun x => x.1 ≠ p }

/-- The longest name that a file may have, in bytes. -/
def maxName : Nat := 255

/-- The length from which a path is too long, in bytes. -/
def maxPath : Nat := 4096

/-- One step from a place, which must be a directory. -/
def enter (d : Disk) (p : Place) (step : String) : Except FileError Place :=
  if d.entry? p ≠ some .directory then .error .notDirectory
  else if step = "." then .ok p
  else if step = ".." then .ok p.dropLast
  else if maxName < step.utf8ByteSize then .error .nameTooLong
  else .ok (p ++ [step])

/-- A step to something that is there. -/
def enterExisting (d : Disk) (p : Place) (step : String) : Except FileError Place := do
  let q ← d.enter p step
  if (d.entry? q).isSome then return q else .error .notFound

def start (d : Disk) (path : String) : Place := if Path.isAbsolute path then [] else d.current

def checkPath (path : String) : Except FileError Unit :=
  if path.toList.contains '\x00' then .error .zeroInName
  else if maxPath ≤ path.utf8ByteSize then .error .nameTooLong
  else if path = "" then .error .notFound
  else .ok ()

/-- The place of something that is there. -/
def locate (d : Disk) (path : String) : Except FileError Place := do
  checkPath path
  let p ← (Path.walk path).foldlM d.enterExisting (d.start path)
  if Path.endsWithSlash path && d.entry? p != some .directory then .error .notDirectory else return p

/-- The directory that holds the last step of a path, and that step; a path that is only the root has none. -/
def locateParent (d : Disk) (path : String) : Except FileError (Place × Option String) := do
  checkPath path
  let steps := Path.walk path
  let p ← steps.dropLast.foldlM d.enterExisting (d.start path)
  return (p, steps.getLast?)

def isDirectory (d : Disk) (path : String) : Bool :=
  match d.locate path with
  | .ok p => d.entry? p = some .directory
  | .error _ => false

def read (d : Disk) (path : String) : Except FileError String := do
  let p ← d.locate path
  match d.entry? p with
  | some (.file bytes) =>
    match String.fromUTF8? ⟨bytes.toArray⟩ with
    | some text => return text
    | none => .error .notText
  | some .directory => .error .isDirectory
  | none => .error .notFound

/-- Makes one directory. -/
def makeDirectory (d : Disk) (path : String) : Except FileError Disk := do
  let (p, last) ← d.locateParent path
  match last with
  | none => .error .occupied
  | some step =>
    let q ← d.enter p step
    if (d.entry? q).isSome then .error .occupied else return d.put q .directory

/-- Makes a directory, after those above it if they are missing.  Gives the disk as it is in the end, also if
something failed. -/
def makeDirectoriesFrom (d : Disk) (path : String) : (fuel : Nat) → Except FileError Unit × Disk
  | 0 => (.error .notFound, d)
  | fuel + 1 =>
    if path = "" then (.ok (), d)
    else match d.makeDirectory path with
      | .ok d => (.ok (), d)
      | .error .notFound =>
        match Path.parent? path with
        | none => (.error (.other "failed to create whole tree"), d)
        | some above =>
          match makeDirectoriesFrom d above fuel with
          | (.error e, d) => (.error e, d)
          | (.ok (), d) =>
            match d.makeDirectory path with
            | .ok d => (.ok (), d)
            | .error e => (if d.isDirectory path then .ok () else .error e, d)
      | .error e => (if d.isDirectory path then .ok () else .error e, d)

def makeDirectories (d : Disk) (path : String) : Except FileError Unit × Disk :=
  d.makeDirectoriesFrom path (path.length + 1)

def write (d : Disk) (path text : String) : Except FileError Disk := do
  let (p, last) ← d.locateParent path
  match last with
  | none => .error .isDirectory
  | some step =>
    if Path.endsWithSlash path then .error .isDirectory
    else
      let q ← d.enter p step
      if d.entry? q = some .directory then .error .isDirectory
      else return d.put q (.file text.toUTF8.toList)

/-- Access to a disk that is passed along. -/
def access : FileAccess (StateM Disk) where
  read path := do return (← get).read path
  makeDirectories path := modifyGet fun d => d.makeDirectories path
  write path text := modifyGet fun d =>
    match d.write path text with
    | .ok d => (.ok (), d)
    | .error e => (.error e, d)

end Disk

end FlowScript

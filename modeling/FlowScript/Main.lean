import FlowScript.CommandLine.Execute

/-!
# The program

Runs the command line on the real file system.
-/

namespace FlowScript

/-- What the system says about a failure. -/
def systemError (e : IO.Error) : FileError :=
  match e with
  | .noFileOrDirectory _ _ _ => .notFound
  | .inappropriateType _ 21 _ => .isDirectory
  | .inappropriateType _ _ _ => .notDirectory
  | .alreadyExists _ _ _ => .occupied
  | .invalidArgument _ 36 _ => .nameTooLong
  | e => .other (toString e)

/-- Runs an action, and gives its failure as a value. -/
def attempt {α : Type} (act : IO α) : IO (Except FileError α) :=
  try
    return .ok (← act)
  catch e =>
    return .error (systemError e)

def systemFiles : FileAccess IO where
  read path := do
    match ← attempt (IO.FS.readBinFile path) with
    | .error e => return .error e
    | .ok bytes =>
      match String.fromUTF8? bytes with
      | some text => return .ok text
      | none => return .error .notText
  makeDirectories path := attempt (IO.FS.createDirAll path)
  write path text := attempt (IO.FS.writeFile path text)

end FlowScript

open FlowScript in
def main (args : List String) : IO UInt32 := do
  let env ← IO.getEnv "WORKFLOW_OUTPUT_DIR"
  let exit ← (Invocation.ofArgs env args).execute systemFiles env
  exit.out.forM IO.println
  exit.err.forM IO.eprintln
  return exit.code.toUInt32

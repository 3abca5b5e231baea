import FlowScript.Compile
import FlowScript.CommandLine.Disk
import FlowScript.CommandLine.Invocation

/-!
# Running commands

`Command.execute` carries out a command with whatever access to files it is given, and says what to print and how to
exit.  A command that fails exits with code one, arguments that make no sense with code two.
-/

namespace FlowScript

/-- How a command ends: its exit code and the lines it prints. -/
structure Exit where
  code : Nat
  out : List String
  err : List String
deriving DecidableEq

namespace Exit

def success (line : String) : Exit := ⟨0, [line], []⟩

/-- A failure, after a list of what is wrong. -/
def failure (details : List String) (summary : String) : Exit :=
  ⟨1, [], details.map ("  " ++ ·) ++ ["Error: " ++ summary]⟩

def fileFailure (what path : String) (e : FileError) : Exit :=
  failure [] ("failed to " ++ what ++ " " ++ path ++ ": " ++ e.message)

def problems (input : String) (ps : List Problem) : Exit :=
  failure (ps.map Problem.display) (input ++ " has " ++ toString ps.length ++ " error(s)")

end Exit

namespace Command

/-- Writes a compiled script, after making the directory that is to hold it. -/
def store {m : Type → Type} [Monad m] (files : FileAccess m) (path : String) (c : Compiled) : m Exit := do
  let made ← match Path.parent? path with
    | some dir => if dir = "" then pure (.ok ()) else files.makeDirectories dir
    | none => pure (.ok ())
  match made with
  | .error e => return .fileFailure "create directory" ((Path.parent? path).getD "") e
  | .ok () =>
    match ← files.write path c.text with
    | .error e => return .fileFailure "write" path e
    | .ok () =>
      return .success
        ("Compiled '" ++ c.workflow ++ "' (" ++ toString c.stepCount ++ " steps) -> " ++ path)

def execute {m : Type → Type} [Monad m] (files : FileAccess m) (command : Command)
    (complaint : Complaint := .silent) : m Exit :=
  match command with
  | compile input output outputDir => do
    match ← files.read input with
    | .error e => return .fileFailure "read" input e
    | .ok text =>
      match compileText text input Workflow.schema complaint with
      | .error ps => return .problems input ps
      | .ok c => store files (output.getD (defaultOutput outputDir c.workflow)) c
  | validate input => do
    match ← files.read input with
    | .error e => return .fileFailure "read" input e
    | .ok text =>
      match validateText text Workflow.schema complaint with
      | .error ps => return .problems input ps
      | .ok [] => return .success (input ++ " is valid")
      | .ok vs =>
        return .failure (vs.map Violation.display)
          (input ++ " is invalid (" ++ toString vs.length ++ " schema violation(s))")

end Command

namespace Topic

/-- How wide help is. -/
def width : Nat := 100

/-- Lines of at most `room` characters, as far as single words allow; `line` is the line so far. -/
def fill (room : Nat) (line : String) : List String → List String
  | [] => [line]
  | word :: words =>
    if line.length + 1 + word.length ≤ room then fill room (line ++ " " ++ word) words
    else line :: fill room word words

/-- A text beside a label, with its further lines below its first one. -/
def hanging (label text : String) : List String :=
  match text.splitOn " " with
  | [] => [label]
  | word :: words =>
    match fill (width - label.length) word words with
    | [] => [label]
    | first :: more => (label ++ first) :: more.map (String.ofList (List.replicate label.length ' ') ++ ·)

/-- The help on a topic. -/
def text (env : Option String) : Topic → List String
  | program => [
      "Compiles YAML browser-automation workflows into self-contained Playwright programs",
      "",
      "Usage: workflow-compiler <COMMAND>",
      "",
      "Commands:",
      "  compile   Validate and compile a workflow into a JavaScript program",
      "  validate  Check a workflow against the schema without generating code",
      "  help      Print this message or the help of the given subcommand(s)",
      "",
      "Options:",
      "  -h, --help     Print help",
      "  -V, --version  Print version"]
  | compile =>
    let directory := "Directory for programs written under their workflow name [env: WORKFLOW_OUTPUT_DIR=" ++
      env.getD "" ++ "] [default: generated]"
    [
      "Validate and compile a workflow into a JavaScript program",
      "",
      "Usage: workflow-compiler compile [OPTIONS] <INPUT>",
      "",
      "Arguments:",
      "  <INPUT>  Path to the workflow YAML file",
      "",
      "Options:",
      "  -o, --output <OUTPUT>          Write the program here instead of `<output-dir>/<name>.js`"] ++
      hanging "      --output-dir <OUTPUT_DIR>  " directory ++
      ["  -h, --help                     Print help"]
  | validate => [
      "Check a workflow against the schema without generating code",
      "",
      "Usage: workflow-compiler validate <INPUT>",
      "",
      "Arguments:",
      "  <INPUT>  Path to the workflow YAML file",
      "",
      "Options:",
      "  -h, --help  Print help"]
  | help => [
      "Print this message or the help of the given subcommand(s)",
      "",
      "Usage: workflow-compiler help [COMMAND]...",
      "",
      "Arguments:",
      "  [COMMAND]...  Print help for the subcommand(s)"]

end Topic

/-- Carries out what arguments ask for. -/
def Invocation.execute {m : Type → Type} [Monad m] (files : FileAccess m) (env : Option String) :
    Invocation → m Exit
  | run command => command.execute files
  | version => return ⟨0, ["workflow-compiler 0.1.0"], []⟩
  | help topic => return ⟨0, topic.text env, []⟩
  | misuse => return ⟨2, [], ["Error: the arguments make no sense; see workflow-compiler --help"]⟩

end FlowScript

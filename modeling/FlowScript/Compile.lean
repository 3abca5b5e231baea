import FlowScript.CommandLine.Path
import FlowScript.Program.OfWorkflow
import FlowScript.Script.OfProgram
import FlowScript.Text.Basic
import FlowScript.Workflow.Grammar
import FlowScript.Yaml.Document

/-!
# Compiling workflows

The way from the text of a workflow to a script: the text is read as a tree, the tree is checked against the schema
and read as a workflow, the workflow becomes a program, and the program is written as a script.  Each stage reports
all the problems it finds, and nothing is produced unless every stage succeeds.  The schema is that of workflows unless
another one is given.  What is said about a text that cannot be read at all is left to whoever reads it (`Complaint`).
-/

namespace FlowScript

/-- A compiled workflow. -/
structure Compiled where
  workflow : String
  stepCount : Nat
  text : String
deriving DecidableEq

def Compiled.encode (c : Compiled) : Tree :=
  Tree.object [("workflowName", .str c.workflow), ("stepCount", .nat c.stepCount), ("text", .str c.text)]

/-- What is said about a text that is malformed, if anything. -/
abbrev Complaint := String → Option String

/-- Nothing is said but that the text is malformed. -/
def Complaint.silent : Complaint := fun _ => none

namespace Problem

def malformedText (detail : Option String) : Problem :=
  .unplaced "P001" .parse ("Failed to parse workflow YAML" ++ (detail.map (": " ++ ·)).getD "")

def wrongShape (e : DecodeError) : Problem :=
  .unplaced "P002" .parse ("Workflow does not match the expected shape: " ++ e.message)

end Problem

/-- The tree of a text. -/
def readDocument (text : String) (complaint : Complaint := .silent) : Except (List Problem) Tree :=
  match Tree.ofYaml? text with
  | some t => .ok t
  | none => .error [.malformedText (complaint text)]

/-- The workflow that a tree describes; the schema is not asked. -/
def readWorkflow (document : Tree) : Except (List Problem) Workflow :=
  match Workflow.decode document with
  | .ok w => .ok w
  | .error e => .error [.wrongShape e]

/-- The report on a tree. -/
def validate (document : Tree) (schema : SchemaDocument := Workflow.schema) : List Violation := schema.check document

/-- What checking a tree reports. -/
def checkEvents (vs : List Violation) : List Event := if vs.isEmpty then [] else [.rejected vs.length]

/-- The label of a workflow that came from nowhere in particular. -/
def inlineSource : String := "<inline>"

def compileTree (document : Tree) (source : String) (schema : SchemaDocument := Workflow.schema) :
    Except (List Problem) Compiled :=
  match validate document schema with
  | [] => do
    let w ← readWorkflow document
    let p ← Program.ofWorkflow w source
    return ⟨p.header.workflow, p.tasks.length, p.script⟩
  | vs => .error (vs.map Violation.problem)

def compileText (text source : String) (schema : SchemaDocument := Workflow.schema)
    (complaint : Complaint := .silent) : Except (List Problem) Compiled := do
  let document ← readDocument text complaint
  compileTree document source schema

def validateText (text : String) (schema : SchemaDocument := Workflow.schema)
    (complaint : Complaint := .silent) : Except (List Problem) (List Violation) := do
  let document ← readDocument text complaint
  return validate document schema

/-- What `compileTree` reports on its way. -/
def compileEvents (document : Tree) (source : String) (schema : SchemaDocument := Workflow.schema) : List Event :=
  .validating source ::
    match validate document schema with
    | [] =>
      match readWorkflow document with
      | .error _ => []
      | .ok w =>
        .lowering w.name :: w.warnings ++
          match Program.ofWorkflow w source with
          | .ok p => [.compiled p.header.workflow p.tasks.length]
          | .error _ => []
    | vs => checkEvents vs

/-- A character of a file name: separators and blanks become hyphens. -/
def fileChar (c : Char) : Char := if c = '/' ∨ c = '\\' ∨ isBlank c then '-' else c

/-- A workflow's name as a file name. -/
def fileName (name : String) : String := String.ofList (name.toList.map fileChar) ++ ".js"

/-- Where the script of a workflow goes if nobody says otherwise. -/
def defaultOutput (dir name : String) : String := Path.join dir (fileName name)

end FlowScript

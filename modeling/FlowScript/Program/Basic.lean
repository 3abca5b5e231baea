import FlowScript.Workflow.Basic

/-!
# Programs

A program is what a workflow means: a header and a list of tasks, each with exactly one action that carries the fields
it needs.  Values given to the browser are literals, references to what the script knows at run time, or templates
that mix text and references.
-/

namespace FlowScript

/-- Where a reference reads from. -/
inductive Scope where
  | extract
  | input
  | constants
deriving DecidableEq

namespace Scope

def name : Scope → String
  | extract => "extract"
  | input => "input"
  | constants => "constants"

def all : List Scope := [extract, input, constants]

def ofName? (s : String) : Option Scope := all.find? fun n => n.name = s

end Scope

structure Reference where
  scope : Scope
  identifier : String
deriving DecidableEq

/-- A part of a template. -/
inductive Part where
  | lit (text : String)
  | var (ref : Reference)
deriving DecidableEq

inductive Expr where
  | literal (value : Tree)
  | ref (ref : Reference)
  | template (parts : List Part)
deriving DecidableEq

inductive Action where
  | navigate (url : Expr)
  | fill (selector : String) (value : Expr)
  | click (selector : String)
  | press (selector key : String)
  | wait (selector : String) (milliseconds : Nat)
  /-- Code of the author, taken over as it is. -/
  | rawCode (code : String)
deriving DecidableEq

namespace Action

/-- The action's name in a workflow definition. -/
def kind : Action → String
  | navigate _ => "navigate"
  | fill _ _ => "fill"
  | click _ => "click"
  | press _ _ => "press"
  | wait _ _ => "wait"
  | rawCode _ => "playwright_code"

def selector? : Action → Option String
  | fill s _ | click s | press s _ | wait s _ => some s
  | navigate _ | rawCode _ => none

/-- How long to wait if the definition does not say. -/
def defaultWait : Nat := 30000

end Action

inductive Comparison where
  | equals
  | notEquals
  | gt
  | gte
  | lt
  | lte
deriving DecidableEq

namespace Comparison

def all : List Comparison := [equals, notEquals, gt, gte, lt, lte]

/-- The operator as a workflow definition writes it. -/
def symbol : Comparison → String
  | equals => "=="
  | notEquals => "!="
  | gt => ">"
  | gte => ">="
  | lt => "<"
  | lte => "<="

/-- The operator as the script writes it; equality is strict. -/
def operator : Comparison → String
  | equals => "==="
  | notEquals => "!=="
  | gt => ">"
  | gte => ">="
  | lt => "<"
  | lte => "<="

/-- The name under which a comparison is encoded. -/
def name : Comparison → String
  | equals => "Equals"
  | notEquals => "NotEquals"
  | gt => "Gt"
  | gte => "Gte"
  | lt => "Lt"
  | lte => "Lte"

def ofSymbol? (s : String) : Option Comparison := all.find? fun c => c.symbol = s

end Comparison

inductive Junction where
  | and
  | or
deriving DecidableEq

def Junction.name : Junction → String
  | and => "And"
  | or => "Or"

structure Test where
  field : String
  comparison : Comparison
  value : Tree
deriving DecidableEq

/-- Tests, and whether all of them or any of them must hold. -/
structure Guard where
  tests : List Test
  junction : Junction
deriving DecidableEq

structure Task where
  /-- Its position in the workflow. -/
  index : Nat
  name : String
  action : Action
  guard : Option Guard
  /-- The key under which its result is kept. -/
  output : Option String
  hint : Option String
deriving DecidableEq

def Task.selector? (t : Task) : Option String := t.action.selector?

structure Header where
  workflow : String
  /-- Where the workflow came from. -/
  source : String
  description : Option String
deriving DecidableEq

structure Program where
  header : Header
  tasks : List Task
deriving DecidableEq

end FlowScript

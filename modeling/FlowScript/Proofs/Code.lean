import FlowScript.Run.Loop
import FlowScript.Script.Layout
import FlowScript.Script.Literal

/-!
# Code of a script

The part of the language of scripts that the loop of a script is written in.  `Stmt.edits` lays a statement out as it
stands in a script, and `Stmt.run` performs it: a variable that is not bound, a key of something that has no keys, or a
call of something that is no function has no result.

An object is what its keys have; a key that it lacks has `undefined`.  Objects are held by the variables that they are
reached through, so a place inside one is changed by changing the variable.  The functions of the tasks are the host's
(`Host`).  A loop may take as many turns as there is fuel for.
-/

namespace FlowScript

namespace Code

inductive Value where
  | undefined
  /-- Null, a boolean, a number, a text, or whatever else a task can give. -/
  | data (t : Tree)
  | error (message : String)
  /-- The function that performs a task. -/
  | function (t : Task)
  | list (items : List Value)
  | object (get : String → Value)

namespace Value

def text (s : String) : Value := data (.str s)

def number (n : Nat) : Value := data (.nat n)

/-- What a task gives, if it gives anything. -/
def ofOption : Option Tree → Value
  | some t => data t
  | none => undefined

def nat? : Value → Option Nat
  | data (.num (.int (.ofNat n))) => some n
  | _ => none

def text? : Value → Option String
  | data (.str s) => some s
  | _ => none

/-- Whether a value counts as true in a condition. -/
def truthy : Value → Bool
  | undefined | data .null => false
  | data (.bool b) => b
  | data (.num x) => !x.same (.int 0)
  | data (.str s) => s != ""
  | _ => true

def isDefined : Value → Bool
  | undefined => false
  | _ => true

def isError : Value → Bool
  | error _ => true
  | _ => false

def get? : Value → (key : String) → Option Value
  | object get, key => some (get key)
  | list items, "length" => some (number items.length)
  | error message, "message" => some (text message)
  | _, _ => none

/-- The value under a key that is itself a value; beyond the end of a list there is `undefined`. -/
def item? : Value → (key : Value) → Option Value
  | list items, key => key.nat?.map fun n => items.getD n undefined
  | object get, key => key.text?.map get
  | _, _ => none

/-- An object with another value under a key. -/
def put (get : String → Value) (key : String) (v : Value) : String → Value := fun k => if k = key then v else get k

def set? : Value → (key : String) → Value → Option Value
  | object get, key, v => some (object (put get key v))
  | _, _, _ => none

def push? : Value → Value → Option Value
  | list items, v => some (list (items ++ [v]))
  | _, _ => none

/-- The object that an object literal stands for. -/
def ofEntries (entries : List (String × Value)) : Value :=
  object (entries.foldl (fun get e => put get e.1 e.2) fun _ => undefined)

end Value

/-- The variables in scope, the innermost first. -/
abbrev Env := List (String × Value)

/-- Gives a variable another value. -/
def Env.set? (env : Env) (x : String) (v : Value) : Option Env :=
  match env with
  | [] => none
  | (y, w) :: r => if y = x then some ((y, v) :: r) else (Env.set? r x v).map ((y, w) :: ·)

/-- A variable, or a place inside the value of one. -/
inductive Place where
  | var (name : String)
  | field (object : Place) (key : String)
  | item (object key : Place)

namespace Place

def text : Place → String
  | var x => x
  | field p key => p.text ++ "." ++ key
  | item p k => p.text ++ "[" ++ k.text ++ "]"

def read? (env : Env) : Place → Option Value
  | var x => env.lookup x
  | field p key => do (← p.read? env).get? key
  | item p k => do (← p.read? env).item? (← k.read? env)

def write? (env : Env) : Place → Value → Option Env
  | var x, v => env.set? x v
  | field p key, v => do p.write? env (← (← p.read? env).set? key v)
  | item p k, v => do p.write? env (← (← p.read? env).set? (← (← k.read? env).text?) v)

variable {env : Env} {p k : Place} {key : String} {object object' v : Value}

theorem write?_field (hp : p.read? env = some object) (h : object.set? key v = some object') :
    (field p key).write? env v = p.write? env object' := by
  simp [write?, hp, h]

theorem write?_item (hp : p.read? env = some object) (hk : k.read? env = some (.text key))
    (h : object.set? key v = some object') : (item p k).write? env v = p.write? env object' := by
  simp [write?, hp, hk, Value.text, Value.text?, h]

end Place

inductive Term where
  | read (p : Place)
  /-- A constant: true, false, null. -/
  | constant (value : Tree)
  | emptyList
  | emptyObject
  | defined (p : Place)
  | isError (p : Place)
  /-- A value as a text. -/
  | asText (p : Place)
  | both (a b : Term)
  | choose (test yes no : Term)

namespace Term

def text : Term → String
  | read p => p.text
  | constant value => Script.literal value
  | emptyList => "[]"
  | emptyObject => "\x7b\x7d"
  | defined p => p.text ++ " !== undefined"
  | isError p => p.text ++ " instanceof Error"
  | asText p => "String(" ++ p.text ++ ")"
  | both a b => a.text ++ " && " ++ b.text
  | choose test yes no => test.text ++ " ? " ++ yes.text ++ " : " ++ no.text

def eval? (env : Env) : Term → Option Value
  | read p => p.read? env
  | constant value => some (.data value)
  | emptyList => some (.list [])
  | emptyObject => some (.ofEntries [])
  | defined p => (p.read? env).map fun v => .data (.bool v.isDefined)
  | isError p => (p.read? env).map fun v => .data (.bool v.isError)
  | asText p => do return .text (← (← p.read? env).text?)
  | both a b => do
    let v ← a.eval? env
    if v.truthy then b.eval? env else return v
  | choose test yes no => do if (← test.eval? env).truthy then yes.eval? env else no.eval? env

/-- The object literal with the given keys. -/
def record? (env : Env) (fields : List (String × Term)) : Option Value := do
  return .ofEntries (← fields.mapM fun f => do return (f.1, ← f.2.eval? env))

/-- A key of an object literal. -/
def entry (f : String × Term) : String := f.1 ++ ": " ++ f.2.text

def recordText (fields : List (String × Term)) : String := "\x7b " ++ ", ".intercalate (fields.map entry) ++ " \x7d"

/-- The keys of an object literal, each on its line. -/
def recordLines (fields : List (String × Term)) : List Edit := fields.map fun f => .line (entry f ++ ",")

end Term

inductive Stmt where
  | const (x : String) (p : Place)
  | constRecord (x : String) (fields : List (String × Term))
  /-- Calls a function and waits for what it gives. -/
  | await (x : String) (function : Place)
  | push (list : Place) (fields : List (String × Term))
  | assign (p : Place) (e : Term)
  | assignRecord (p : Place) (fields : List (String × Term))
  | ifThen (test : Term) (body : List Stmt)
  /-- Does something and, if it throws, handles what it has thrown. -/
  | attempt (body : List Stmt) (x : String) (handler : List Stmt)
  /-- Counts a variable up from a number, as long as it is below another. -/
  | countUp (x : String) (start limit : Place) (body : List Stmt)
  /-- Leaves the loop. -/
  | stop

/-- How a statement ends. -/
inductive Completion where
  | normal
  | stopped
  | thrown (v : Value)

/-- What a function of a task throws: an error object, or just a text. -/
inductive Thrown where
  | error (message : String)
  | text (s : String)

namespace Thrown

def value : Thrown → Value
  | error message => .error message
  | text s => .text s

def message : Thrown → String
  | error message => message
  | text s => s

end Thrown

/-- What the functions of the tasks do. -/
abbrev Host (σ : Type) := σ → Task → Except Thrown (Option Tree) × σ

/-- The executor that performs a task by its function. -/
def Host.executor {σ : Type} (host : Host σ) : Executor σ :=
  fun s t => ((host s t).1.mapError Thrown.message, (host s t).2)

/-- How a statement ends, and what it leaves. -/
abbrev Ending (σ : Type) := Completion × Env × σ

/-- Leaves a block, and with it the variables that are not among the outer ones. -/
def leave {σ : Type} (outer : Nat) : Ending σ → Ending σ
  | (c, env, s) => (c, env.drop (env.length - outer), s)

/-- Takes turns as long as the test holds. -/
def repeated {σ : Type} (test : Env → Option Bool) (next : Env → Option Env) (body : Env → σ → Option (Ending σ)) :
    (fuel : Nat) → Env → σ → Option (Ending σ)
  | 0, _, _ => none
  | fuel + 1, env, s => do
    if ← test env then
      match ← body env s with
      | (.normal, env, s) => repeated test next body fuel (← next env) s
      | (.stopped, env, s) => return (.normal, env, s)
      | (.thrown v, env, s) => return (.thrown v, env, s)
    else return (.normal, env, s)

namespace Stmt

def below? (x : String) (limit : Place) (env : Env) : Option Bool := do
  return (← (← (Place.var x).read? env).nat?) < (← (← limit.read? env).nat?)

def countOn? (x : String) (env : Env) : Option Env := do
  env.set? x (.number ((← (← (Place.var x).read? env).nat?) + 1))

mutual

def run {σ : Type} (host : Host σ) (fuel : Nat) : Stmt → Env → σ → Option (Ending σ)
  | const x p, env, s => do return (.normal, (x, ← p.read? env) :: env, s)
  | constRecord x fields, env, s => do return (.normal, (x, ← Term.record? env fields) :: env, s)
  | await x p, env, s => do
    match ← p.read? env with
    | .function t =>
      match host s t with
      | (.ok value, s) => return (.normal, (x, .ofOption value) :: env, s)
      | (.error e, s) => return (.thrown e.value, env, s)
    | _ => none
  | push p fields, env, s => do
    let items ← (← p.read? env).push? (← Term.record? env fields)
    return (.normal, ← p.write? env items, s)
  | assign p e, env, s => do return (.normal, ← p.write? env (← e.eval? env), s)
  | assignRecord p fields, env, s => do return (.normal, ← p.write? env (← Term.record? env fields), s)
  | ifThen test body, env, s => do
    if (← test.eval? env).truthy then return leave env.length (← runAll host fuel body env s)
    else return (.normal, env, s)
  | attempt body x handler, env, s => do
    match leave env.length (← runAll host fuel body env s) with
    | (.thrown v, env, s) => return leave env.length (← runAll host fuel handler ((x, v) :: env) s)
    | ended => return ended
  | countUp x start limit body, env, s => do
    let v ← start.read? env
    let turn := fun (env : Env) s => (runAll host fuel body env s).map (leave env.length)
    return leave env.length (← repeated (below? x limit) (countOn? x) turn fuel ((x, v) :: env) s)
  | stop, env, s => some (.stopped, env, s)

/-- Performs statements one after the other, up to the first that does not end normally. -/
def runAll {σ : Type} (host : Host σ) (fuel : Nat) : List Stmt → Env → σ → Option (Ending σ)
  | [], env, s => some (.normal, env, s)
  | c :: cs, env, s => do
    match ← run host fuel c env s with
    | (.normal, env, s) => runAll host fuel cs env s
    | ended => return ended

end

section

variable {σ : Type} {host : Host σ} {fuel : Nat} {c : Stmt} {cs : List Stmt} {env env' : Env} {s s' : σ} {v : Value}

theorem runAll_of_normal (h : run host fuel c env s = some (.normal, env', s')) :
    runAll host fuel (c :: cs) env s = runAll host fuel cs env' s' := by
  simp [runAll, h]

theorem runAll_of_thrown (h : run host fuel c env s = some (.thrown v, env', s')) :
    runAll host fuel (c :: cs) env s = some (.thrown v, env', s') := by
  simp [runAll, h]

theorem runAll_singleton : runAll host fuel [c] env s = run host fuel c env s := by
  rw [runAll]
  cases run host fuel c env s with
  | none => rfl
  | some ended =>
    obtain ⟨_ | _ | _, _, _⟩ := ended <;> simp [runAll]

variable {body handler : List Stmt} {x : String}

theorem run_attempt_of_normal (h : runAll host fuel body env s = some (.normal, env', s')) :
    run host fuel (attempt body x handler) env s = some (leave env.length (.normal, env', s')) := by
  simp [run, h, leave]

theorem run_attempt_of_thrown (h : runAll host fuel body env s = some (.thrown v, env, s')) {ended : Ending σ}
    (hhandler : runAll host fuel handler ((x, v) :: env) s' = some ended) :
    run host fuel (attempt body x handler) env s = some (leave env.length ended) := by
  simp [run, h, leave, hhandler]

end

mutual

def edits : Stmt → List Edit
  | const x p => [.line ("const " ++ x ++ " = " ++ p.text ++ ";")]
  | constRecord x fields => .opening ("const " ++ x ++ " = \x7b") :: Term.recordLines fields ++ [.closing "\x7d;"]
  | await x p => [.line ("const " ++ x ++ " = await " ++ p.text ++ "();")]
  | push p fields => [.line (p.text ++ ".push(" ++ Term.recordText fields ++ ");")]
  | assign p e => [.line (p.text ++ " = " ++ e.text ++ ";")]
  | assignRecord p fields => .opening (p.text ++ " = \x7b") :: Term.recordLines fields ++ [.closing "\x7d;"]
  | ifThen test body => .block ("if (" ++ test.text ++ ")") :: allEdits body ++ [.blockEnd]
  | attempt body x handler =>
    .block "try" :: allEdits body ++ [.dedent, .block ("\x7d catch (" ++ x ++ ")")] ++ allEdits handler ++ [.blockEnd]
  | countUp x start limit body =>
    .block ("for (let " ++ x ++ " = " ++ start.text ++ "; " ++ x ++ " < " ++ limit.text ++ "; " ++ x ++ "++)") ::
      allEdits body ++ [.blockEnd]
  | stop => [.line "break;"]

def allEdits : List Stmt → List Edit
  | [] => []
  | c :: cs => c.edits ++ allEdits cs

end

end Stmt

end Code

end FlowScript

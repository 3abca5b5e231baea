/-!
# Command lines

The two commands and their arguments.  An option's value follows it, as the next argument or after an equals sign; two
hyphens end the options.
-/

namespace FlowScript

inductive Command where
  | compile (input : String) (output : Option String) (outputDir : String)
  | validate (input : String)
deriving DecidableEq

/-- What help is asked for. -/
inductive Topic where
  | program
  | compile
  | validate
  | help
deriving DecidableEq

inductive Invocation where
  | run (command : Command)
  | version
  | help (topic : Topic)
  /-- The arguments make no sense. -/
  | misuse
deriving DecidableEq

/-- What the arguments of `compile` have said so far. -/
structure CompileArgs where
  input : Option String
  output : Option String
  outputDir : Option String

namespace Invocation

/-- An argument, by its form. -/
inductive Arg where
  | separator
  | long (name : String) (value : Option String)
  /-- A hyphen and a letter, and what follows it. -/
  | short (letter : Char) (rest : List Char)
  | operand (text : String)

def Arg.of (s : String) : Arg :=
  match s.toList with
  | ['-', '-'] => .separator
  | '-' :: '-' :: r =>
    match r.dropWhile (· != '=') with
    | [] => .long (String.ofList r) none
    | _ :: value => .long (String.ofList (r.takeWhile (· != '='))) (some (String.ofList value))
  | '-' :: c :: r => .short c r
  | _ => .operand s

/-- The value of a short option that is written right after it. -/
def attached : List Char → String
  | '=' :: r => String.ofList r
  | r => String.ofList r

/-- Whether an argument can be the value of the option before it. -/
def isValue (s : String) : Bool :=
  match Arg.of s with
  | .operand s => s ≠ ""
  | _ => false

def setInput (a : CompileArgs) (s : String) : Option CompileArgs :=
  if a.input.isSome || s = "" then none else some { a with input := some s }

def setOutput (a : CompileArgs) (s : String) : Option CompileArgs :=
  if a.output.isSome || s = "" then none else some { a with output := some s }

def setOutputDir (a : CompileArgs) (s : String) : Option CompileArgs :=
  if a.outputDir.isSome || s = "" then none else some { a with outputDir := some s }

/-- The command that complete arguments give.  The directory comes from the arguments, from the environment, or is
`generated`. -/
def finishCompile (env : Option String) (a : CompileArgs) : Invocation :=
  match a.input, a.outputDir.or env with
  | none, _ => .misuse
  | some input, some dir => if dir = "" then .misuse else .run (.compile input a.output dir)
  | some input, none => .run (.compile input a.output "generated")

/-- Takes over operands only. -/
def operands (finish : CompileArgs → Invocation) : CompileArgs → List String → Invocation
  | a, [] => finish a
  | a, s :: r =>
    match setInput a s with
    | some a => operands finish a r
    | none => .misuse

/-- An option that takes a value: it stands in `inline`, or is the next argument. -/
def compileArgs (env : Option String) : CompileArgs → List String → Invocation
  | a, [] => finishCompile env a
  | a, s :: r =>
    match Arg.of s with
    | .separator => operands (finishCompile env) a r
    | .operand s =>
      match setInput a s with
      | some a => compileArgs env a r
      | none => .misuse
    | .long "help" none => .help .compile
    | .short 'h' _ => .help .compile
    | .long "output" (some v) =>
      match setOutput a v with
      | some a => compileArgs env a r
      | none => .misuse
    | .long "output-dir" (some v) =>
      match setOutputDir a v with
      | some a => compileArgs env a r
      | none => .misuse
    | .short 'o' (c :: cs) =>
      match setOutput a (attached (c :: cs)) with
      | some a => compileArgs env a r
      | none => .misuse
    | .long "output" none | .short 'o' [] =>
      match r with
      | v :: r =>
        match isValue v, setOutput a v with
        | true, some a => compileArgs env a r
        | _, _ => .misuse
      | [] => .misuse
    | .long "output-dir" none =>
      match r with
      | v :: r =>
        match isValue v, setOutputDir a v with
        | true, some a => compileArgs env a r
        | _, _ => .misuse
      | [] => .misuse
    | _ => .misuse

def finishValidate (a : CompileArgs) : Invocation :=
  match a.input with
  | some input => .run (.validate input)
  | none => .misuse

def validateArgs : CompileArgs → List String → Invocation
  | a, [] => finishValidate a
  | a, s :: r =>
    match Arg.of s with
    | .separator => operands finishValidate a r
    | .operand s =>
      match setInput a s with
      | some a => validateArgs a r
      | none => .misuse
    | .long "help" none => .help .validate
    | .short 'h' _ => .help .validate
    | _ => .misuse

def helpArgs : List String → Invocation
  | [] => .help .program
  | ["compile"] => .help .compile
  | ["validate"] => .help .validate
  | ["help"] => .help .help
  | _ => .misuse

/-- What arguments ask for, given the directory that the environment names. -/
def ofArgs (env : Option String) : List String → Invocation
  | [] => .misuse
  | "compile" :: r => compileArgs env ⟨none, none, none⟩ r
  | "validate" :: r => validateArgs ⟨none, none, none⟩ r
  | "help" :: r => helpArgs r
  | s :: _ =>
    match Arg.of s with
    | .long "version" none => .version
    | .short 'V' _ => .version
    | .long "help" none => .help .program
    | .short 'h' _ => .help .program
    | _ => .misuse

end Invocation

end FlowScript

import WorkflowLint.CommandLine.Argument
import WorkflowLint.CommandLine.Basic
import WorkflowLint.CommandLine.Stop

/-! Reading the arguments. A parameter stays open until something behind it is understood: only then has it
to have a value, and only then does a second use of it count. -/

set_option autoImplicit false

namespace WorkflowLint.CommandLine

structure Given where
  verbosity : Nat := 0
  strict : Bool := false
  offline : Bool := false
  output : Option String := none
  root : Option String := none
  inputs : List String := []
  /-- The parameter that is open, and its value if that has come. -/
  pending : Option (Parameter × Option String) := none
  deriving DecidableEq, Repr

/-- Asking for more than this asks for no more. -/
def verbosityLimit : Nat := 255

namespace Given

variable (scope : Scope)

def assign (given : Given) (value : String) (parameter : Parameter) : Except Stop Given :=
  match parameter, given.output, given.root with
  | .output, none, _ => .ok { given with output := some value }
  | .root, _, none => .ok { given with root := some value }
  | _, _, _ => .error (.mistake (.repeated parameter.name))

def settle (given : Given) : Except Stop Given :=
  match given.pending with
  | none => .ok given
  | some (parameter, none) => .error (.mistake (.noValue parameter))
  | some (parameter, some value) => assign { given with pending := none } value parameter

def turnOn (given : Given) : Switch → Except Stop Given
  | .verbose => .ok { given with verbosity := min (given.verbosity + 1) verbosityLimit }
  | .strict =>
    if given.strict then .error (.mistake (.repeated Switch.strict.name))
    else .ok { given with strict := true }
  | .offline =>
    if given.offline then .error (.mistake (.repeated Switch.offline.name))
    else .ok { given with offline := true }
  | .help => .error (.help scope)
  | .version => .error .version

def useSwitch (given : Given) (switch : Switch) : Except Stop Given := do
  (← given.settle).turnOn scope switch

def useParameter (given : Given) (parameter : Parameter) (value : Option String) :
    Except Stop Given := do
  let given ← given.settle
  match value with
  | some value => given.assign value parameter
  | none => .ok { given with pending := some (parameter, none) }

def long (given : Given) (name : String) (value : Option String) : Except Stop Given :=
  match scope.switch? name, scope.parameter? name, value with
  | some switch, _, none => given.useSwitch scope switch
  | some switch, _, some value => .error (.mistake (.unexpectedValue switch value))
  | none, some parameter, value => given.useParameter parameter value
  | none, none, _ => .error (.mistake (.unknownArgument ("--" ++ name)))

def short : List Char → Given → Except Stop Given
  | [], given => .ok given
  | letter :: rest, given =>
    match scope.letter? letter with
    | some switch => do short rest (← given.useSwitch scope switch)
    | none => .error (.mistake (.unknownArgument (String.ofList ['-', letter])))

/-- Only linting has inputs. -/
def addInput (given : Given) (text : String) : Except Stop Given :=
  if scope = .lint then do
    let given ← given.settle
    return { given with inputs := given.inputs ++ [text] }
  else .error (.mistake (.unknownArgument text))

/-- A plain argument is the value of a parameter that waits for one, and else an input. -/
def plain (given : Given) (text : String) : Except Stop Given :=
  match given.pending with
  | some (parameter, none) => .ok { given with pending := some (parameter, some text) }
  | _ => given.addInput scope text

def readInputs : List String → Given → Except Stop Given
  | [], given => given.settle
  | text :: rest, given => do readInputs rest (← given.addInput scope text)

def read : List String → Given → Except Stop Given
  | [], given => given.settle
  | text :: rest, given =>
    match Argument.ofString text with
    | .separator => readInputs scope rest given
    | .long name value => do read rest (← given.long scope name value)
    | .short letters => do read rest (← short scope letters given)
    | .plain text => do read rest (← given.plain scope text)

end Given

/-- Where help leads: nothing stands behind the name of a command. -/
def helpOn : List String → Stop
  | [] => .help .program
  | name :: rest =>
    match Scope.ofCommand? name, rest with
    | none, _ => .mistake (.unknownCommand name)
    | some scope, [] => .help scope
    | some _, other :: _ => .mistake (.unknownCommand other)

/-- How much to log: what is said behind the command counts, and else what is said before it. -/
def verbosityOf (before behind : Given) : Nat :=
  if behind.verbosity = 0 then before.verbosity else behind.verbosity

def ofCommand (before : Given) (name : String) (arguments : List String) :
    Except Stop CommandLine :=
  match Scope.ofCommand? name with
  | some .version => do
    let given ← Given.read .version arguments {}
    return ⟨verbosityOf before given, .version⟩
  | some .lint => do
    let given ← Given.read .lint arguments {}
    if given.inputs.isEmpty then .error (.mistake .noInput)
    else
      return {
        verbosity := verbosityOf before given
        command := .lint ⟨given.inputs, given.strict, given.output, given.root, given.offline⟩ }
  | some .help => .error (helpOn arguments)
  | _ => .error (.mistake (.unknownCommand name))

def withoutCommand (given : Given) : Stop :=
  if given.verbosity = 0 then .noArguments else .mistake .noCommand

/-- The first argument behind a separator that comes before any command, where none can be named. -/
def misplaced (text : String) : Stop :=
  match Scope.ofCommand? text with
  | some _ => .mistake (.unknownArgument text)
  | none => .mistake (.unknownCommand text)

def readFrom : List String → Given → Except Stop CommandLine
  | [], given => .error (withoutCommand given)
  | text :: rest, given =>
    match Argument.ofString text with
    | .separator => .error (rest.head?.elim (withoutCommand given) misplaced)
    | .long name value => do readFrom rest (← given.long .program name value)
    | .short letters => do readFrom rest (← Given.short .program letters given)
    | .plain name => ofCommand given name rest

def read (arguments : List String) : Except Stop CommandLine := readFrom arguments {}

end WorkflowLint.CommandLine

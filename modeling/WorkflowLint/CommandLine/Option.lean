/-! The options and where they are known: before a command, or behind it. -/

set_option autoImplicit false

namespace WorkflowLint.CommandLine

inductive Scope where
  | program
  | version
  | lint
  | help
  deriving DecidableEq, Repr

def Scope.ofCommand? (name : String) : Option Scope :=
  [("version", .version), ("lint", .lint), ("help", .help)].lookup name

inductive Switch where
  | verbose
  | strict
  | offline
  | help
  | version
  deriving DecidableEq, Repr

def Switch.name : Switch → String
  | .verbose => "verbose"
  | .strict => "strict"
  | .offline => "offline"
  | .help => "help"
  | .version => "version"

def Switch.letter? : Switch → Option Char
  | .verbose => some 'v'
  | .strict => some 's'
  | .offline => none
  | .help => some 'h'
  | .version => some 'V'

inductive Parameter where
  | output
  | root
  deriving DecidableEq, Repr

def Parameter.name : Parameter → String
  | .output => "output"
  | .root => "repo-root"

namespace Scope

def switches : Scope → List Switch
  | .program => [.verbose, .help, .version]
  | .version => [.verbose, .help]
  | .lint => [.verbose, .strict, .offline, .help]
  | .help => []

def parameters : Scope → List Parameter
  | .lint => [.output, .root]
  | _ => []

def switch? (scope : Scope) (name : String) : Option Switch :=
  scope.switches.find? fun switch => switch.name = name

def parameter? (scope : Scope) (name : String) : Option Parameter :=
  scope.parameters.find? fun parameter => parameter.name = name

def letter? (scope : Scope) (letter : Char) : Option Switch :=
  scope.switches.find? fun switch => switch.letter? = some letter

end Scope

end WorkflowLint.CommandLine

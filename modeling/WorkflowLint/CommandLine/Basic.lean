/-! What the program can be asked to do. -/

set_option autoImplicit false

namespace WorkflowLint

/-- A request to lint files; what it leaves open is for the configuration to say. -/
structure LintRequest where
  inputs : List String
  strict : Bool
  output : Option String
  /-- Where the configuration is looked for. -/
  root : Option String
  offline : Bool
  deriving DecidableEq, Repr

inductive Command where
  | version
  | lint (request : LintRequest)
  deriving DecidableEq, Repr

structure CommandLine where
  /-- How much is to be logged. -/
  verbosity : Nat
  command : Command
  deriving DecidableEq, Repr

end WorkflowLint

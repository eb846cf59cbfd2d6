import WorkflowLint.CommandLine.Option

/-! What arguments can come to instead of a command line. -/

set_option autoImplicit false

namespace WorkflowLint.CommandLine

inductive Mistake where
  | noCommand
  | unknownCommand (name : String)
  | unknownArgument (text : String)
  | noInput
  | noValue (parameter : Parameter)
  /-- A value for an option that takes none. -/
  | unexpectedValue (switch : Switch) (value : String)
  | repeated (name : String)
  deriving DecidableEq, Repr

def Mistake.message : Mistake → String
  | .noCommand => "a command is required but none was given"
  | .unknownCommand name => "unrecognized command '" ++ name ++ "'"
  | .unknownArgument text => "unexpected argument '" ++ text ++ "' found"
  | .noInput => "at least one input is required but none was given"
  | .noValue parameter => "a value is required for '--" ++ parameter.name ++ "' but none was given"
  | .unexpectedValue switch value =>
    "unexpected value '" ++ value ++ "' for '--" ++ switch.name ++ "' found"
  | .repeated name => "the argument '--" ++ name ++ "' cannot be used multiple times"

inductive Stop where
  | help (scope : Scope)
  | version
  | noArguments
  | mistake (cause : Mistake)
  deriving DecidableEq, Repr

end WorkflowLint.CommandLine

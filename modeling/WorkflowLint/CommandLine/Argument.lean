import WorkflowLint.Text.Split

/-! The shapes of an argument. -/

set_option autoImplicit false

namespace WorkflowLint.CommandLine

inductive Argument where
  /-- Behind it there are no options any more. -/
  | separator
  | long (name : String) (value : Option String)
  | short (letters : List Char)
  | plain (text : String)
  deriving DecidableEq, Repr

/-- A lone hyphen is no option. -/
def Argument.ofString (text : String) : Argument :=
  match text.toList with
  | ['-', '-'] => .separator
  | '-' :: '-' :: rest =>
    match Text.cutFirst '=' rest with
    | some (name, value) => .long (String.ofList name) (some (String.ofList value))
    | none => .long (String.ofList rest) none
  | '-' :: letter :: rest => .short (letter :: rest)
  | _ => .plain text

end WorkflowLint.CommandLine

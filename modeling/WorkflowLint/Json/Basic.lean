/-! JSON values. An object keeps its members in order; looking up a name finds the first member of
that name. A number is an integer of 64 bits, with or without a sign, or else a binary64. -/

set_option autoImplicit false

namespace WorkflowLint

inductive Json where
  | null
  | bool (value : Bool)
  | integer (value : Int)
  /-- A number that is not written as an integer of 64 bits, by the bits of its binary64. -/
  | real (bits : UInt64)
  | string (value : String)
  | array (items : List Json)
  | object (members : List (String × Json))

namespace Json

def member? (name : String) : Json → Option Json
  | .object members => members.lookup name
  | _ => none

def item? (index : Nat) : Json → Option Json
  | .array items => items[index]?
  | _ => none

def text? : Json → Option String
  | .string value => some value
  | _ => none

end Json

end WorkflowLint

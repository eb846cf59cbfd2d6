import WorkflowLint.Json.Basic
import WorkflowLint.Decimal.Binary64

/-! JSON as text: on one line without blanks, or with one item a line, two blanks deeper each level. -/

set_option autoImplicit false

namespace WorkflowLint.Json

def escapedControl (c : Char) : String :=
  "\\u00" ++ (if c.toNat < 16 then "0" else "") ++ String.ofList (Nat.toDigits 16 c.toNat)

def escapedChar (c : Char) : String :=
  if c = '"' then "\\\""
  else if c = '\\' then "\\\\"
  else if c = '\x08' then "\\b"
  else if c = '\t' then "\\t"
  else if c = '\n' then "\\n"
  else if c = '\x0c' then "\\f"
  else if c = '\r' then "\\r"
  else if c.toNat < 32 then escapedControl c
  else c.toString

def stringText (value : String) : String :=
  "\"" ++ value.toList.foldl (fun acc c => acc ++ escapedChar c) "" ++ "\""

/-- A number that is not finite has no JSON form and is written as `null`. -/
def realText (bits : UInt64) : String :=
  if Binary64.isFinite bits then Binary64.text Decimal.compact bits else "null"

def comma (rest : String) : String := if rest.isEmpty then "" else "," ++ rest

mutual

def compact : Json → String
  | .null => "null"
  | .bool true => "true"
  | .bool false => "false"
  | .integer value => toString value
  | .real bits => realText bits
  | .string value => stringText value
  | .array items => "[" ++ compactItems items ++ "]"
  | .object members => "\x7b" ++ compactMembers members ++ "\x7d"

def compactItems : List Json → String
  | [] => ""
  | item :: rest => compact item ++ comma (compactItems rest)

def compactMembers : List (String × Json) → String
  | [] => ""
  | (name, value) :: rest => stringText name ++ ":" ++ compact value ++ comma (compactMembers rest)

end

def lineAt (depth : Nat) : String := "\n" ++ String.ofList (List.replicate (2 * depth) ' ')

mutual

def indented (depth : Nat) : Json → String
  | .array [] => "[]"
  | .array (item :: rest) =>
    "[" ++ lineAt (depth + 1) ++ indented (depth + 1) item ++ indentedItems (depth + 1) rest ++
      lineAt depth ++ "]"
  | .object [] => "\x7b\x7d"
  | .object ((name, value) :: rest) =>
    "\x7b" ++ lineAt (depth + 1) ++ stringText name ++ ": " ++ indented (depth + 1) value ++
      indentedMembers (depth + 1) rest ++ lineAt depth ++ "\x7d"
  | .null => "null"
  | .bool true => "true"
  | .bool false => "false"
  | .integer value => toString value
  | .real bits => realText bits
  | .string value => stringText value

def indentedItems (depth : Nat) : List Json → String
  | [] => ""
  | item :: rest => "," ++ lineAt depth ++ indented depth item ++ indentedItems depth rest

def indentedMembers (depth : Nat) : List (String × Json) → String
  | [] => ""
  | (name, value) :: rest =>
    "," ++ lineAt depth ++ stringText name ++ ": " ++ indented depth value ++ indentedMembers depth rest

end

def pretty (value : Json) : String := indented 0 value

end WorkflowLint.Json

import WorkflowLint.Yaml.Node.Basic
import WorkflowLint.Yaml.Value

/-! Why a text is not the document that it should be, and how that is told. -/

set_option autoImplicit false

namespace WorkflowLint.Yaml

inductive PathStep where
  | key (text : String)
  /-- A key that is no scalar. -/
  | unnamed
  | item (index : Nat)
  deriving DecidableEq, Repr

/-- The way from the root to a node, the last step first. -/
abbrev Path := List PathStep

def Path.text : Path → String
  | [] => ""
  | .key text :: [] => text
  | .key text :: rest => Path.text rest ++ "." ++ text
  | .unnamed :: [] => "?"
  | .unnamed :: rest => Path.text rest ++ ".?"
  | .item index :: rest => Path.text rest ++ "[" ++ toString index ++ "]"

inductive Cause where
  | invalidType (found : Value) (expected : String)
  | invalidValue (text : String) (expected : String)
  | duplicateField (name : String)
  | duplicateEntry (key : Value)
  /-- A tag where none can be used. -/
  | taggedInput
  | emptyTag
  | noVariant (typeName : String)

def Cause.message : Cause → String
  | .invalidType found expected => "invalid type: " ++ found.description ++ ", expected " ++ expected
  | .invalidValue text expected =>
    "invalid value: string " ++ Text.quoted text ++ ", expected " ++ expected
  | .duplicateField name => "duplicate field `" ++ name ++ "`"
  | .duplicateEntry key => "duplicate entry " ++ key.asKey
  | .taggedInput => "untagged and internally tagged enums do not support enum input"
  | .emptyTag => "empty YAML tag is not allowed"
  | .noVariant typeName => "data did not match any variant of untagged enum " ++ typeName

structure Place where
  mark : Mark
  path : Path
  deriving DecidableEq, Repr

inductive Error where
  | data (cause : Cause) (place : Option Place)
  | fault (fault : Fault)
  | tooDeep (mark : Mark)
  | tooManyRepetitions
  | moreDocuments

/-- Where a mark stands, counted from one; nothing at the very start. -/
def Mark.text (mark : Mark) : String :=
  if mark.line = 0 && mark.column = 0 then ""
  else " at line " ++ toString (mark.line + 1) ++ " column " ++ toString (mark.column + 1)

def Error.message : Error → String
  | .data cause none => cause.message
  | .data cause (some ⟨mark, path⟩) =>
    (if path.isEmpty then "" else path.text ++ ": ") ++ cause.message ++ mark.text
  | .fault .malformed => "malformed YAML text"
  | .fault (.unknownAnchor mark) => "unknown anchor" ++ mark.text
  | .tooDeep mark => "recursion limit exceeded" ++ mark.text
  | .tooManyRepetitions => "repetition limit exceeded"
  | .moreDocuments =>
    "deserializing from YAML containing more than one document is not supported"

end WorkflowLint.Yaml

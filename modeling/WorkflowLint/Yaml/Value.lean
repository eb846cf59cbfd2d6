import WorkflowLint.Decimal.Binary64
import WorkflowLint.Text.Quoted

/-! Values of YAML nodes, and when two of them are the same key. -/

set_option autoImplicit false

namespace WorkflowLint.Yaml

inductive Value where
  | null
  | bool (value : Bool)
  | integer (value : Int)
  /-- A number with a fraction or an exponent, by the bits of its binary64. -/
  | real (bits : UInt64)
  | string (value : String)
  | sequence (items : List Value)
  | mapping (entries : List (Value × Value))
  | tagged (tag : String) (value : Value)

namespace Value

def sameReal (a b : UInt64) : Bool :=
  a = b || (Binary64.isNaN a && Binary64.isNaN b) || (Binary64.isZero a && Binary64.isZero b)

mutual

/-- Whether two values are the same. The order of the entries of a mapping does not count. -/
def same : Value → Value → Bool
  | .null, .null => true
  | .bool a, .bool b => a = b
  | .integer a, .integer b => a = b
  | .real a, .real b => sameReal a b
  | .string a, .string b => a = b
  | .sequence as, .sequence bs => sameItems as bs
  | .mapping as, .mapping bs => as.length = bs.length && entriesIn as bs
  | .tagged s a, .tagged t b => s = t && same a b
  | _, _ => false

def sameItems : List Value → List Value → Bool
  | [], [] => true
  | a :: as, b :: bs => same a b && sameItems as bs
  | _, _ => false

def entriesIn : List (Value × Value) → List (Value × Value) → Bool
  | [], _ => true
  | (key, value) :: rest, others =>
    (others.any fun other => same key other.1 && same value other.2) && entriesIn rest others

end

def hasKey (key : Value) (entries : List (Value × Value)) : Bool :=
  entries.any fun entry => same key entry.1

mutual

def keysAreUnique : Value → Bool
  | .sequence items => allKeysAreUnique items
  | .mapping entries => entryKeysAreUnique entries
  | .tagged _ value => keysAreUnique value
  | _ => true

def allKeysAreUnique : List Value → Bool
  | [] => true
  | value :: rest => keysAreUnique value && allKeysAreUnique rest

def entryKeysAreUnique : List (Value × Value) → Bool
  | [] => true
  | (key, value) :: rest =>
    !hasKey key rest && keysAreUnique key && keysAreUnique value && entryKeysAreUnique rest

end

/-- Integers have 64 bits, with or without a sign. -/
def isOrdinary (n : Int) : Bool := -(Nat.pow 2 63) ≤ n && n < Nat.pow 2 64

def realText (bits : UInt64) : String :=
  if Binary64.isNaN bits then "NaN"
  else if Binary64.isFinite bits then Binary64.text Decimal.positional bits
  else if Binary64.isNegative bits then "-inf" else "inf"

def description : Value → String
  | .null => "unit value"
  | .bool value => "boolean `" ++ toString value ++ "`"
  | .integer n =>
    "integer `" ++ toString n ++ "`" ++
      (if isOrdinary n then "" else if n < 0 then " as i128" else " as u128")
  | .real bits => "floating point `" ++ realText bits ++ "`"
  | .string text => "string " ++ Text.quoted text
  | .sequence _ => "sequence"
  | .mapping _ => "map"
  | .tagged .. => "enum"

def keyRealText (bits : UInt64) : String :=
  if Binary64.isNaN bits then ".nan"
  else if Binary64.isFinite bits then Binary64.text Decimal.compact bits
  else if Binary64.isNegative bits then "-.inf" else ".inf"

def asKey : Value → String
  | .null => "with null key"
  | .bool value => "with key `" ++ toString value ++ "`"
  | .integer n => "with key " ++ toString n
  | .real bits => "with key " ++ keyRealText bits
  | .string text => "with key " ++ Text.quoted text
  | _ => "in YAML map"

end Value

end WorkflowLint.Yaml

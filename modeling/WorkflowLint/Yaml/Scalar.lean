import WorkflowLint.Yaml.Character
import WorkflowLint.Yaml.Token.Basic
import WorkflowLint.Yaml.Value

/-! The values of scalars. A plain scalar is read as null, a truth value or a number where it looks like
one; a tag may ask for one of these. -/

set_option autoImplicit false

namespace WorkflowLint.Yaml.Scalar

def isNull (text : String) : Bool := ["null", "Null", "NULL", "~"].contains text

def readBool (text : String) : Option Bool :=
  if ["true", "True", "TRUE"].contains text then some true
  else if ["false", "False", "FALSE"].contains text then some false
  else none

def isSign (c : Char) : Bool := c = '+' || c = '-'

def digitsValue (base : Nat) (digits : List Char) : Option Nat :=
  if digits.isEmpty then none
  else
    digits.foldlM (fun n c => do
      let d ← hexDigit c
      if d < base then some (n * base + d) else none) 0

/-- Digits behind a needless zero are no number. -/
def hasNeedlessZero (text : List Char) : Bool :=
  let digits := if text.head?.any isSign then text.tail else text
  match digits with
  | '0' :: c :: rest => (c :: rest).all Char.isDigit
  | _ => false

def cutBase : List Char → Option (Nat × List Char)
  | '0' :: 'x' :: rest => some (16, rest)
  | '0' :: 'o' :: rest => some (8, rest)
  | '0' :: 'b' :: rest => some (2, rest)
  | _ => none

def withoutPlus : List Char → List Char
  | '+' :: rest => rest
  | text => text

def readNatural (text : List Char) : Option Nat :=
  match cutBase (withoutPlus text) with
  | some (base, digits) => digitsValue base digits
  | none => if hasNeedlessZero text then none else digitsValue 10 (withoutPlus text)

/-- An integer of at most 128 bits. -/
def readInteger (text : List Char) : Option Int :=
  match text with
  | '-' :: rest =>
    let value := match cutBase rest with
      | some (base, digits) => digitsValue base digits
      | none => if hasNeedlessZero text then none else digitsValue 10 rest
    match value with
    | some n => if n ≤ Nat.pow 2 127 then some (-n) else none
    | none => none
  | _ =>
    match readNatural text with
    | some n => if n < Nat.pow 2 128 then some n else none
    | none => none

def readExponent : List Char → Option Int
  | [] => some 0
  | e :: rest =>
    if e = 'e' || e = 'E' then
      match rest with
      | '-' :: digits => (digitsValue 10 digits).map fun n => -(n : Int)
      | '+' :: digits => (digitsValue 10 digits).map fun n => (n : Int)
      | digits => (digitsValue 10 digits).map fun n => (n : Int)
    else none

/-- A decimal number without a sign, with digits on at least one side of its point. -/
def readDecimal (text : List Char) : Option Decimal := do
  let whole := text.takeWhile Char.isDigit
  let rest := text.drop whole.length
  let (fraction, rest) := match rest with
    | '.' :: behind => (behind.takeWhile Char.isDigit, behind.dropWhile Char.isDigit)
    | _ => ([], rest)
  let digits ← digitsValue 10 (whole ++ fraction)
  let exponent ← readExponent rest
  return ⟨digits, exponent - fraction.length⟩

def readFinite (text : List Char) : Option UInt64 := do
  let decimal ← readDecimal (if text.head?.any isSign then text.tail else text)
  let bits := Binary64.ofDecimal decimal
  if Binary64.isFinite bits then
    some (if text.head? = some '-' then Binary64.negate bits else bits)
  else none

def readReal (text : List Char) : Option UInt64 :=
  let isOne (words : List String) (text : List Char) : Bool := words.contains (String.ofList text)
  if isOne [".inf", ".Inf", ".INF"] (withoutPlus text) then some Binary64.positiveInfinity
  else if isOne ["-.inf", "-.Inf", "-.INF"] text then some Binary64.negativeInfinity
  else if isOne [".nan", ".NaN", ".NAN"] text then some Binary64.notANumber
  else readFinite text

def resolve (text : String) : Value :=
  let chars := text.toList
  if text.isEmpty || isNull text then .null
  else
    match readBool text, readInteger chars with
    | some b, _ => .bool b
    | none, some n => .integer n
    | none, none =>
      if hasNeedlessZero chars then .string text
      else
        match readReal chars with
        | some bits => .real bits
        | none => .string text

def boolTag : String := "tag:yaml.org,2002:bool"

def integerTag : String := "tag:yaml.org,2002:int"

def realTag : String := "tag:yaml.org,2002:float"

def nullTag : String := "tag:yaml.org,2002:null"

def isLocalTag (tag : String) : Bool := tag.toList.head? = some '!'

/-- The value of a scalar, or what its tag asks for and it is not. -/
def value (tag : Option String) (style : ScalarStyle) (text : String) : Except String Value :=
  let untagged := if style = .plain then resolve text else .string text
  match tag with
  | none => .ok untagged
  | some tag =>
    if tag = boolTag then
      match readBool text with
      | some b => .ok (.bool b)
      | none => .error "a boolean"
    else if tag = integerTag then
      match readInteger text.toList with
      | some n => .ok (.integer n)
      | none => .error "an integer"
    else if tag = realTag then
      match readReal text.toList with
      | some bits => .ok (.real bits)
      | none => .error "a float"
    else if tag = nullTag then
      if isNull text then .ok .null else .error "null"
    else if isLocalTag tag then .ok untagged
    else .ok (.string text)

end WorkflowLint.Yaml.Scalar

import WorkflowLint.Decimal.Binary64
import WorkflowLint.Json.Basic

/-! JSON numbers as they are read. The digits are gathered into an integer of 64 bits and a power of
ten, which are put together in one step of rounding each; digits for which the integer has no room only
count as places. -/

set_option autoImplicit false

namespace WorkflowLint.Json

def digitValue (c : Char) : Nat := c.toNat - '0'.toNat

/-- Appends digits to a number while it has room for them: the number, and the digits left. -/
def gather : Nat → List Char → Nat × List Char
  | n, [] => (n, [])
  | n, c :: rest => if n * 10 + digitValue c < Nat.pow 2 64 then gather (n * 10 + digitValue c) rest else (n, c :: rest)

def powerOfTen (exponent : Nat) : UInt64 := Binary64.ofDecimal ⟨1, exponent⟩

/-- The number over `10 ^ exponent`, in steps of powers that are numbers themselves. -/
def dividedByTens (value : UInt64) (exponent : Nat) : UInt64 :=
  if exponent ≤ 308 then Binary64.quotient value (powerOfTen exponent)
  else if Binary64.isZero value then value
  else dividedByTens (Binary64.quotient value (powerOfTen 308)) (exponent - 308)
termination_by exponent

def scaled (significand : Nat) (exponent : Int) : Option UInt64 :=
  let value := Binary64.ofRatio significand 1
  if exponent < 0 then some (dividedByTens value exponent.natAbs)
  else if significand = 0 then some value
  else if 308 < exponent then none
  else
    let bits := Binary64.product value (powerOfTen exponent.natAbs)
    if Binary64.isFinite bits then some bits else none

def takeDigits (cs : List Char) : Option (List Char × List Char) :=
  match cs.takeWhile Char.isDigit with
  | [] => none
  | digits => some (digits, cs.dropWhile Char.isDigit)

/-- The digits before the point: a zero stands alone. -/
def takeWhole (cs : List Char) : Option (List Char × List Char) :=
  match takeDigits cs with
  | some ('0' :: _ :: _, _) => none
  | other => other

def takeFraction : List Char → Option (Option (List Char) × List Char)
  | '.' :: rest => (takeDigits rest).map fun (digits, rest) => (some digits, rest)
  | rest => some (none, rest)

def exponentValue (digits : List Char) : Nat :=
  digits.foldl (fun n c => n * 10 + digitValue c) 0

def takeExponent : List Char → Option (Option Int × List Char)
  | c :: rest =>
    if c = 'e' || c = 'E' then
      match rest with
      | '-' :: rest => (takeDigits rest).map fun (digits, rest) => (some (-(exponentValue digits : Int)), rest)
      | '+' :: rest => (takeDigits rest).map fun (digits, rest) => (some (exponentValue digits : Int), rest)
      | rest => (takeDigits rest).map fun (digits, rest) => (some (exponentValue digits : Int), rest)
    else some (none, c :: rest)
  | [] => some (none, [])

def ofParts (negative : Bool) (whole : List Char) (fraction : Option (List Char)) (exponent : Option Int) :
    Option Json :=
  let signed (bits : UInt64) : Json := .real (if negative then Binary64.negate bits else bits)
  let (n, unread) := gather 0 whole
  if fraction.isNone && exponent.isNone && unread.isEmpty then
    if !negative then some (.integer n)
    else if 0 < n && n ≤ Nat.pow 2 63 then some (.integer (-n))
    else some (signed (Binary64.ofRatio n 1))
  else
    let places := fraction.getD []
    let (m, dropped) := gather n places
    let shift : Int := (unread.length : Int) - (places.length - dropped.length : Nat)
    (scaled m (shift + exponent.getD 0)).map signed

def takeUnsigned (negative : Bool) (cs : List Char) : Option (Json × List Char) := do
  let (whole, cs) ← takeWhole cs
  let (fraction, cs) ← takeFraction cs
  let (exponent, cs) ← takeExponent cs
  let number ← ofParts negative whole fraction exponent
  return (number, cs)

def takeNumber : List Char → Option (Json × List Char)
  | '-' :: rest => takeUnsigned true rest
  | cs => takeUnsigned false cs

end WorkflowLint.Json

/-! Binary floating point of 64 bits, over exact naturals: the decimal of fewest digits that reads back
as a given number, and the number nearest to a given decimal. A number is handled by its bits. -/

set_option autoImplicit false

namespace WorkflowLint

structure Decimal where
  digits : Nat
  exponent : Int
  deriving DecidableEq, Repr

namespace Binary64

def isNegative (bits : UInt64) : Bool := Nat.pow 2 63 ≤ bits.toNat

def exponentField (bits : UInt64) : Nat := bits.toNat / Nat.pow 2 52 % Nat.pow 2 11

def fraction (bits : UInt64) : Nat := bits.toNat % Nat.pow 2 52

def isFinite (bits : UInt64) : Bool := exponentField bits != 2047

def isNaN (bits : UInt64) : Bool := exponentField bits == 2047 && fraction bits != 0

/-- A finite number without its sign is `significand · 2 ^ (scale - 1074)`. -/
def significand (bits : UInt64) : Nat :=
  if exponentField bits = 0 then fraction bits else Nat.pow 2 52 + fraction bits

def scale (bits : UInt64) : Nat := exponentField bits - 1

def isZero (bits : UInt64) : Bool := isFinite bits && significand bits == 0

def positiveInfinity : UInt64 := 0x7FF0000000000000

def negativeInfinity : UInt64 := 0xFFF0000000000000

def notANumber : UInt64 := 0x7FF8000000000000

def digitCount (n : Nat) : Nat := if n = 0 then 0 else (Nat.toDigits 10 n).length

/-- Of the multiples of `10 ^ k` next to `value / unit`, the nearer one that lies in the interval from
`low / unit` to `high / unit`, ends included where `closed`. A tie goes to the even multiple. -/
def nearestOnGrid (low value high unit : Nat) (closed : Bool) (k : Int) : Option Nat :=
  let up := Nat.pow 10 (-k).toNat
  let step := unit * Nat.pow 10 k.toNat
  let within (q : Nat) : Bool :=
    if closed then low * up ≤ q * step && q * step ≤ high * up
    else low * up < q * step && q * step < high * up
  let below := value * up / step
  let rest := value * up % step
  match within below, within (below + 1) with
  | true, true =>
    if 2 * rest < step || (2 * rest == step && below % 2 == 0) then some below else some (below + 1)
  | true, false => some below
  | false, true => some (below + 1)
  | false, false => none

def firstOnGrids (low value high unit : Nat) (closed : Bool) : Nat → Int → Decimal
  | 0, k => ⟨value * Nat.pow 10 (-k).toNat / (unit * Nat.pow 10 k.toNat), k⟩
  | more + 1, k =>
    match nearestOnGrid low value high unit closed k with
    | some q => ⟨q, k⟩
    | none => firstOnGrids low value high unit closed more (k - 1)

/-- The decimal of fewest digits among those that round to the number, and of those the nearest to it.
The number is finite and its sign is left out. -/
def shortest (bits : UInt64) : Decimal :=
  let m := significand bits
  if m = 0 then ⟨0, 0⟩
  else
    -- The number, and the ends of the interval that rounds to it, in quarters of the last place.
    let shift := Nat.pow 2 (scale bits)
    let value := 4 * m * shift
    let high := (4 * m + 2) * shift
    let low := (if fraction bits = 0 && 1 < exponentField bits then 4 * m - 1 else 4 * m - 2) * shift
    let unit := Nat.pow 2 1076
    let top : Int :=
      if unit ≤ value then digitCount (value / unit) else 1 - (digitCount (unit / value) : Int)
    firstOnGrids low value high unit (m % 2 == 0) 20 (top + 1)

/-- The bits of the number nearest to `num / den`, without a sign; ties go to the even one. -/
def ofRatio (num den : Nat) : UInt64 :=
  if num = 0 || den = 0 then 0
  else
    -- The exponent of the last place, so that the quotient has 53 bits, or fewer below the least.
    let gap : Int := (Nat.log2 num : Int) - Nat.log2 den
    let place (p : Int) : Nat × Nat × Nat :=
      let n := num * Nat.pow 2 (-p).toNat
      let d := den * Nat.pow 2 p.toNat
      (n / d, n % d, d)
    let p₀ := max (gap - 53) (-1074)
    let p₁ := if (place p₀).1 < Nat.pow 2 53 then p₀ else p₀ + 1
    let p₂ := if (place p₁).1 < Nat.pow 2 53 then p₁ else p₁ + 1
    let (q, r, d) := place p₂
    let rounded := if 2 * r < d || (2 * r == d && q % 2 == 0) then q else q + 1
    -- Carrying into the exponent field is what the layout of the bits does by itself.
    let field := (p₂ + 1074).toNat
    let whole := if rounded < Nat.pow 2 52 then rounded else rounded + field * Nat.pow 2 52
    if 2047 * Nat.pow 2 52 ≤ whole then positiveInfinity else UInt64.ofNat whole

def ofDecimal (d : Decimal) : UInt64 :=
  let size : Int := digitCount d.digits + d.exponent
  if d.digits = 0 || size < -330 then 0
  else if 310 < size then positiveInfinity
  else ofRatio (d.digits * Nat.pow 10 d.exponent.toNat) (Nat.pow 10 (-d.exponent).toNat)

def negate (bits : UInt64) : UInt64 := bits ^^^ 0x8000000000000000

def units (bits : UInt64) : Nat := significand bits * Nat.pow 2 (scale bits)

def product (a b : UInt64) : UInt64 := ofRatio (units a * units b) (Nat.pow 2 2148)

def quotient (a b : UInt64) : UInt64 := ofRatio (units a) (units b)

end Binary64

namespace Decimal

def zeros (n : Nat) : String := String.ofList (List.replicate n '0')

def positional (d : Decimal) : String :=
  let text := toString d.digits
  if 0 ≤ d.exponent then
    (if d.digits = 0 then "0" else text ++ zeros d.exponent.toNat) ++ ".0"
  else
    let places := (-d.exponent).toNat
    if places < text.length then
      String.ofList (text.toList.take (text.length - places)) ++ "." ++
        String.ofList (text.toList.drop (text.length - places))
    else "0." ++ zeros (places - text.length) ++ text

/-- Positional notation from `0.00001` up to sixteen places before the point, else one digit before
the point and an exponent. -/
def compact (d : Decimal) : String :=
  let text := toString d.digits
  let point : Int := text.length + d.exponent
  if d.digits = 0 then "0.0"
  else if -5 < point && point ≤ 16 then positional d
  else
    let exponent := toString (point - 1)
    match text.toList with
    | [] => "0.0"
    | [c] => c.toString ++ "e" ++ exponent
    | c :: rest => c.toString ++ "." ++ String.ofList rest ++ "e" ++ exponent

end Decimal

namespace Binary64

def text (notationOf : Decimal → String) (bits : UInt64) : String :=
  (if isNegative bits then "-" else "") ++ notationOf (shortest bits)

end Binary64

end WorkflowLint

import WorkflowLint.Decimal.Binary64
import WorkflowLint.Toml.Text
import WorkflowLint.Toml.Value

/-! TOML values without quotes: truth values, numbers, dates and times. -/

set_option autoImplicit false

namespace WorkflowLint.Toml

/-- Digits to a base, which underscores may separate. -/
def digitsValue (base : Nat) (text : List Char) : Option Nat :=
  let rec go (afterDigit : Bool) (n : Nat) : List Char → Option Nat
    | [] => if afterDigit then some n else none
    | '_' :: rest => if afterDigit then go false n rest else none
    | c :: rest =>
      match hexDigit c with
      | some d => if d < base then go true (n * base + d) rest else none
      | none => none
  go false 0 text

def hasNeedlessZero : List Char → Bool
  | '0' :: _ :: _ => true
  | _ => false

def wholeValue (text : List Char) : Option Nat :=
  if hasNeedlessZero text then none else digitsValue 10 text

def cutSign : List Char → Bool × List Char
  | '-' :: rest => (true, rest)
  | '+' :: rest => (false, rest)
  | text => (false, text)

def readInteger (text : List Char) : Option Int :=
  match text with
  | '0' :: 'x' :: digits => (digitsValue 16 digits).map (↑·)
  | '0' :: 'o' :: digits => (digitsValue 8 digits).map (↑·)
  | '0' :: 'b' :: digits => (digitsValue 2 digits).map (↑·)
  | _ =>
    let (negative, digits) := cutSign text
    (wholeValue digits).map fun n => if negative then -(n : Int) else n

/-- No integer has more than 128 bits. -/
def isReadable (n : Int) : Bool := -(Nat.pow 2 127) ≤ n && n < Nat.pow 2 128

def cutAt (p : Char → Bool) (text : List Char) : List Char × Option (List Char) :=
  match text.dropWhile fun c => !p c with
  | [] => (text, none)
  | _ :: rest => (text.takeWhile (fun c => !p c), some rest)

def exponentValue (text : Option (List Char)) : Option Int :=
  match text with
  | none => some 0
  | some text =>
    let (negative, digits) := cutSign text
    (digitsValue 10 digits).map fun n => if negative then -(n : Int) else n

def isReal (text : List Char) : Bool :=
  let (_, text) := cutSign text
  if text = "inf".toList || text = "nan".toList then true
  else
    let (mantissa, exponent) := cutAt (fun c => c = 'e' || c = 'E') text
    let (whole, fraction) := cutAt (· = '.') mantissa
    let parts : Option (Nat × Int) := do
      let _ ← wholeValue whole
      let places ← match fraction with
        | none => some []
        | some digits => (digitsValue 10 digits).map fun _ => digits.filter (· ≠ '_')
      let digits ← digitsValue 10 (whole ++ places)
      let power ← exponentValue exponent
      return (digits, power - places.length)
    match parts with
    | some (digits, power) =>
      (fraction.isSome || exponent.isSome) && Binary64.isFinite (Binary64.ofDecimal ⟨digits, power⟩)
    | none => false

def isLeapYear (year : Nat) : Bool := (year % 4 = 0 && year % 100 ≠ 0) || year % 400 = 0

def daysIn (year month : Nat) : Nat :=
  if month = 2 then (if isLeapYear year then 29 else 28)
  else if [4, 6, 9, 11].contains month then 30
  else 31

def takeFixed (count : Nat) (text : List Char) : Option (Nat × List Char) :=
  let digits := text.take count
  if digits.length = count && digits.all Char.isDigit then
    some (digits.foldl (fun n c => n * 10 + (c.toNat - '0'.toNat)) 0, text.drop count)
  else none

def takeMark (mark : Char) : List Char → Option (List Char)
  | c :: rest => if c = mark then some rest else none
  | [] => none

def takeDate (text : List Char) : Option (List Char) := do
  let (year, text) ← takeFixed 4 text
  let (month, text) ← takeFixed 2 (← takeMark '-' text)
  let (day, text) ← takeFixed 2 (← takeMark '-' text)
  if 1 ≤ month && month ≤ 12 && 1 ≤ day && day ≤ daysIn year month then some text else none

def takeFraction : List Char → Option (List Char)
  | '.' :: rest => if (rest.head?.any Char.isDigit) then some (rest.dropWhile Char.isDigit) else none
  | text => some text

/-- A time of the day; its seconds may be left out. -/
def takeTime (text : List Char) : Option (List Char) := do
  let (hour, text) ← takeFixed 2 text
  let (minute, text) ← takeFixed 2 (← takeMark ':' text)
  if hour ≤ 23 && minute ≤ 59 then
    match text with
    | ':' :: rest =>
      let (second, rest) ← takeFixed 2 rest
      if second ≤ 60 then takeFraction rest else none
    | _ => some text
  else none

def takeOffset (text : List Char) : Option (List Char) :=
  match text with
  | c :: rest =>
    if c = 'Z' || c = 'z' then some rest
    else if c = '+' || c = '-' then do
      let (hour, rest) ← takeFixed 2 rest
      let (minute, rest) ← takeFixed 2 (← takeMark ':' rest)
      if hour ≤ 23 && minute ≤ 59 then some rest else none
    else some text
  | [] => some []

def isMoment (text : List Char) : Bool :=
  match takeDate text with
  | some [] => true
  | some (c :: rest) =>
    (c = 'T' || c = 't' || c = ' ') && ((takeTime rest).bind takeOffset) = some []
  | none => takeTime text = some []

def isBareChar (c : Char) : Bool :=
  c.isAlphanum || c = '+' || c = '-' || c = '_' || c = '.' || c = ':'

/-- The text of a value without quotes. A time may follow its date behind a blank. -/
def takeBare (cs : List Char) : List Char × List Char :=
  let text := cs.takeWhile isBareChar
  let rest := cs.drop text.length
  match rest with
  | ' ' :: behind =>
    if (takeDate text) = some [] && behind.head?.any Char.isDigit then
      let time := behind.takeWhile isBareChar
      (text ++ ' ' :: time, behind.drop time.length)
    else (text, rest)
  | _ => (text, rest)

def readBare (text : List Char) : Option Value :=
  if text = "true".toList then some (.bool true)
  else if text = "false".toList then some (.bool false)
  else
    match readInteger text with
    | some n => if isReadable n then some (.integer n) else none
    | none =>
      if isReal text then some .real
      else if isMoment text then some .moment
      else none

end WorkflowLint.Toml

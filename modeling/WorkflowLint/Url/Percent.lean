/-! Percent-encoding: each byte of the UTF-8 form of a character that may not stand as itself is
written as a percent sign and two hexadecimal digits. -/

set_option autoImplicit false

namespace WorkflowLint.Url

def hexDigit (n : Nat) : Char :=
  if n < 10 then Char.ofNat ('0'.toNat + n) else Char.ofNat ('A'.toNat + (n - 10))

def hexValue (c : Char) : Option Nat :=
  if '0' ≤ c ∧ c ≤ '9' then some (c.toNat - '0'.toNat)
  else if 'a' ≤ c ∧ c ≤ 'f' then some (c.toNat - 'a'.toNat + 10)
  else if 'A' ≤ c ∧ c ≤ 'F' then some (c.toNat - 'A'.toNat + 10)
  else none

def percentByte (b : UInt8) : List Char :=
  ['%', hexDigit (b.toNat / 16), hexDigit (b.toNat % 16)]

def percentChar (c : Char) : List Char :=
  (String.utf8EncodeChar c).flatMap percentByte

/-- Writes by its bytes each character that `keeps` does not let stand. -/
def percentEncode (keeps : Char → Bool) (text : List Char) : List Char :=
  text.flatMap fun c => if keeps c then [c] else percentChar c

/-- The bytes of a text, with each percent sign that two digits follow read as a byte. -/
def percentDecode : List Char → List UInt8
  | [] => []
  | '%' :: a :: b :: rest =>
    match hexValue a, hexValue b with
    | some x, some y => UInt8.ofNat (16 * x + y) :: percentDecode rest
    | _, _ => '%'.toUInt8 :: percentDecode (a :: b :: rest)
  | c :: rest => String.utf8EncodeChar c ++ percentDecode rest

def isPlain (c : Char) : Bool := 0x20 ≤ c.toNat && c.toNat ≤ 0x7E

def keptInHost (c : Char) : Bool := isPlain c

def keptInFragment (c : Char) : Bool :=
  isPlain c && !([' ', '"', '<', '>', '\x60'].contains c)

def keptInQuery (special : Bool) (c : Char) : Bool :=
  isPlain c && !([' ', '"', '#', '<', '>'].contains c) && !(special && c == '\x27')

def keptInPath (c : Char) : Bool :=
  keptInFragment c && !(['#', '?', '\x7b', '\x7d'].contains c)

/-- Inside one segment of a path nothing may stand that ends it or starts an escape. -/
def keptInSegment (special : Bool) (c : Char) : Bool :=
  keptInPath c && c != '/' && c != '%' && !(special && c == '\\')

def keptInUserinfo (c : Char) : Bool :=
  keptInPath c && !(['/', ':', ';', '=', '@', '[', '\\', ']', '^', '|'].contains c)

/-- A component of a form: letters, digits and `*-._` stand, a space is a plus sign. -/
def formEncode (text : List Char) : List Char :=
  text.flatMap fun c =>
    if c.isAlphanum || ['*', '-', '.', '_'].contains c then [c]
    else if c == ' ' then ['+']
    else percentChar c

end WorkflowLint.Url

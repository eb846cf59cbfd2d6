import WorkflowLint.Json.Number

/-! The tokens of JSON texts. -/

set_option autoImplicit false

namespace WorkflowLint.Json

inductive Token where
  | openArray
  | closeArray
  | openObject
  | closeObject
  | comma
  | colon
  | scalar (value : Json)

namespace Token

def isSpace (c : Char) : Bool := c = ' ' || c = '\t' || c = '\n' || c = '\r'

def hexDigit (c : Char) : Option Nat :=
  if c.isDigit then some (c.toNat - '0'.toNat)
  else if 'a' ≤ c && c ≤ 'f' then some (c.toNat - 'a'.toNat + 10)
  else if 'A' ≤ c && c ≤ 'F' then some (c.toNat - 'A'.toNat + 10)
  else none

def hexQuad (a b c d : Char) : Option Nat := do
  return (((← hexDigit a) * 16 + (← hexDigit b)) * 16 + (← hexDigit c)) * 16 + (← hexDigit d)

def simpleEscape : Char → Option Char
  | '"' => some '"'
  | '\\' => some '\\'
  | '/' => some '/'
  | 'b' => some '\x08'
  | 'f' => some '\x0c'
  | 'n' => some '\n'
  | 'r' => some '\r'
  | 't' => some '\t'
  | _ => none

def isLeading (unit : Nat) : Bool := 0xD800 ≤ unit && unit < 0xDC00

def isTrailing (unit : Nat) : Bool := 0xDC00 ≤ unit && unit < 0xE000

/-- The characters up to the closing quotation mark, and what follows it. A character outside the
basic plane may be escaped by a pair of units; a lone one is no character. -/
def takeString : List Char → Option (List Char × List Char)
  | [] => none
  | '"' :: rest => some ([], rest)
  | '\\' :: 'u' :: a :: b :: c :: d :: rest => do
    let unit ← hexQuad a b c d
    if isLeading unit then
      match rest with
      | '\\' :: 'u' :: e :: f :: g :: h :: rest =>
        let second ← hexQuad e f g h
        if isTrailing second then
          let (text, rest) ← takeString rest
          return (Char.ofNat (0x10000 + (unit - 0xD800) * 0x400 + (second - 0xDC00)) :: text, rest)
        else none
      | _ => none
    else if isTrailing unit then none
    else
      let (text, rest) ← takeString rest
      return (Char.ofNat unit :: text, rest)
  | '\\' :: e :: rest => do
    let c ← simpleEscape e
    let (text, rest) ← takeString rest
    return (c :: text, rest)
  | c :: rest =>
    if c.toNat < 0x20 || c = '\\' then none
    else (takeString rest).map fun (text, rest) => (c :: text, rest)

def take : List Char → Option (Token × List Char)
  | [] => none
  | '[' :: rest => some (.openArray, rest)
  | ']' :: rest => some (.closeArray, rest)
  | '\x7b' :: rest => some (.openObject, rest)
  | '\x7d' :: rest => some (.closeObject, rest)
  | ',' :: rest => some (.comma, rest)
  | ':' :: rest => some (.colon, rest)
  | '"' :: rest => (takeString rest).map fun (text, rest) => (.scalar (.string (String.ofList text)), rest)
  | 'n' :: 'u' :: 'l' :: 'l' :: rest => some (.scalar .null, rest)
  | 't' :: 'r' :: 'u' :: 'e' :: rest => some (.scalar (.bool true), rest)
  | 'f' :: 'a' :: 'l' :: 's' :: 'e' :: rest => some (.scalar (.bool false), rest)
  | cs => (takeNumber cs).map fun (number, rest) => (.scalar number, rest)

def takeAll : Nat → List Char → Option (List Token)
  | 0, _ => some []
  | fuel + 1, cs =>
    match cs.dropWhile isSpace with
    | [] => some []
    | cs => do
      let (token, rest) ← take cs
      let tokens ← takeAll fuel rest
      return token :: tokens

def ofText (text : String) : Option (List Token) :=
  takeAll (text.length + 1) text.toList

end Token

end WorkflowLint.Json

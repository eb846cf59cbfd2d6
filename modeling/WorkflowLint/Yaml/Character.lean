/-! The characters of YAML texts, by the parts that they play. -/

set_option autoImplicit false

namespace WorkflowLint.Yaml

def isAllowed (c : Char) : Bool :=
  let n := c.toNat
  c = '\t' || c = '\n' || c = '\r' || (0x20 ≤ n && n ≤ 0x7E) || n = 0x85 || (0xA0 ≤ n && n ≤ 0xD7FF) ||
    (0xE000 ≤ n && n ≤ 0xFFFD) || 0x10000 ≤ n

def isBreak (c : Char) : Bool :=
  c = '\n' || c = '\r' || c = '\u0085' || c = '\u2028' || c = '\u2029'

/-- A line break as it is kept: only the separators of lines and paragraphs stay themselves. -/
def keptBreak (c : Char) : Char :=
  if c = '\u2028' || c = '\u2029' then c else '\n'

def isBlank (c : Char) : Bool := c = ' ' || c = '\t'

def isBlankOrBreak (c : Char) : Bool := isBlank c || isBreak c

def isWordChar (c : Char) : Bool := c.isAlphanum || c = '_' || c = '-'

def byteOrderMark : Char := '\uFEFF'

def endsWord : List Char → Bool
  | [] => true
  | c :: _ => isBlankOrBreak c

def endsLine : List Char → Bool
  | [] => true
  | c :: _ => isBreak c

def hexDigit (c : Char) : Option Nat :=
  if c.isDigit then some (c.toNat - '0'.toNat)
  else if 'a' ≤ c && c ≤ 'f' then some (c.toNat - 'a'.toNat + 10)
  else if 'A' ≤ c && c ≤ 'F' then some (c.toNat - 'A'.toNat + 10)
  else none

end WorkflowLint.Yaml

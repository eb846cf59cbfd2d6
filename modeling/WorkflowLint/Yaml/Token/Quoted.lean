import WorkflowLint.Yaml.Token.Folded

/-! Quoted scalars. Between single quotes a quote is written twice; between double quotes there are
escapes. -/

set_option autoImplicit false

namespace WorkflowLint.Yaml.Quoted

/-- Reads characters up to white space or a single quote, the last one first. -/
def readSingleRun : List Char → Mark → List Char → List Char × Cursor
  | '\x27' :: '\x27' :: rest, m, run => readSingleRun rest m.right.right ('\x27' :: run)
  | c :: rest, m, run =>
    if c = '\x27' || isBlankOrBreak c then (run, ⟨c :: rest, m⟩)
    else readSingleRun rest m.right (c :: run)
  | [], m, run => (run, ⟨[], m⟩)

def escaped : Char → Option Char
  | '0' => some '\x00'
  | 'a' => some '\x07'
  | 'b' => some '\x08'
  | 't' => some '\t'
  | '\t' => some '\t'
  | 'n' => some '\n'
  | 'v' => some '\x0b'
  | 'f' => some '\x0c'
  | 'r' => some '\r'
  | 'e' => some '\x1b'
  | ' ' => some ' '
  | '"' => some '"'
  | '/' => some '/'
  | '\\' => some '\\'
  | 'N' => some '\u0085'
  | '_' => some '\u00a0'
  | 'L' => some '\u2028'
  | 'P' => some '\u2029'
  | _ => none

def digitCount : Char → Option Nat
  | 'x' => some 2
  | 'u' => some 4
  | 'U' => some 8
  | _ => none

def isScalarValue (n : Nat) : Bool := n < 0xD800 || (0xE000 ≤ n && n < 0x110000)

/-- Reads characters up to white space, a double quote or an escaped line break, the last one first.
`digits` are those still to come of a number that has been read up to `value`. The answer tells whether
the run ends at an escaped line break, which is passed. -/
def readDoubleRun (digits value : Nat) : List Char → Mark → List Char →
    Option (List Char × Cursor × Bool)
  | [], m, run => if digits = 0 then some (run, ⟨[], m⟩, false) else none
  | c :: rest, m, run =>
    if 0 < digits then
      match hexDigit c with
      | none => none
      | some d =>
        let value := value * 16 + d
        if digits = 1 then
          if isScalarValue value then readDoubleRun 0 0 rest m.right (Char.ofNat value :: run) else none
        else readDoubleRun (digits - 1) value rest m.right run
    else if c = '"' || isBlankOrBreak c then some (run, ⟨c :: rest, m⟩, false)
    else if c = '\\' then
      match rest with
      | [] => none
      | '\r' :: '\n' :: rest => some (run, ⟨rest, m.right.below 2⟩, true)
      | e :: rest =>
        if isBreak e then some (run, ⟨rest, m.right.below 1⟩, true)
        else
          match digitCount e, escaped e with
          | some n, _ => readDoubleRun n 0 rest m.right.right run
          | none, some x => readDoubleRun 0 0 rest m.right.right (x :: run)
          | none, none => none
    else readDoubleRun 0 0 rest m.right (c :: run)

def readRun (isDouble : Bool) (c : Cursor) : Option (List Char × Cursor × Bool) :=
  if isDouble then readDoubleRun 0 0 c.rest c.mark []
  else
    let (run, c) := readSingleRun c.rest c.mark []
    some (run, c, false)

def readLines (isDouble : Bool) : Nat → Cursor → Folded → Option (Folded × Cursor)
  | 0, _, _ => none
  | fuel + 1, c, f =>
    if c.atDocumentMark || c.rest.isEmpty then none
    else
      match readRun isDouble c with
      | none => none
      | some (run, c, endsEscaped) =>
        let f := f.append run
        if c.at? (if isDouble then '"' else '\x27') then some (f, c.next)
        else
          match Folded.readGap 0 c.rest c.mark { f with broken := endsEscaped } with
          | none => none
          | some (f, c) => readLines isDouble fuel c f.close

def read (isDouble : Bool) (size : Nat) (c : Cursor) : Option (Folded × Cursor) :=
  readLines isDouble size c.next .empty

end WorkflowLint.Yaml.Quoted

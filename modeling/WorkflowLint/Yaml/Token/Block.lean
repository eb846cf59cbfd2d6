import WorkflowLint.Yaml.Cursor

/-! Block scalars: indented lines behind a header, kept as they are or folded. -/

set_option autoImplicit false

namespace WorkflowLint.Yaml.Block

inductive Chomping where
  | strip
  | clip
  | keep
  deriving DecidableEq, Repr

structure Header where
  chomping : Chomping
  /-- How much deeper the text stands than the block around it; zero where its first line tells. -/
  increment : Nat
  deriving DecidableEq, Repr

def chompingOf : Char → Option Chomping
  | '+' => some .keep
  | '-' => some .strip
  | _ => none

/-- The digit of a header, if one stands here; zero is none. -/
def takeIncrement (c : Cursor) : Option (Nat × Cursor) :=
  match c.head? with
  | some d =>
    if d = '0' then none
    else if d.isDigit then some (d.toNat - '0'.toNat, c.next)
    else some (0, c)
  | none => some (0, c)

/-- The header behind the mark that opens the scalar; its two parts may come in either order. -/
def readHeader (c : Cursor) : Option (Header × Cursor) := do
  match c.head?.bind chompingOf with
  | some chomping =>
    let (increment, c) ← takeIncrement c.next
    return (⟨chomping, increment⟩, c)
  | none =>
    let (increment, c) ← takeIncrement c
    if increment = 0 then return (⟨.clip, 0⟩, c)
    else
      match c.head?.bind chompingOf with
      | some chomping => return (⟨chomping, increment⟩, c.next)
      | none => return (⟨.clip, increment⟩, c)

/-- Reads indentation and empty lines: the deepest column that was reached, and the line breaks, the
last one first. The indentation `indent` is zero while it is not known. -/
def readEmptyLines (indent : Nat) : List Char → Mark → Nat → List Char →
    Option (Nat × List Char × Cursor)
  | [], m, deepest, breaks => some (max deepest m.column, breaks, ⟨[], m⟩)
  | '\r' :: '\n' :: rest, m, deepest, breaks =>
    readEmptyLines indent rest (m.below 2) (max deepest m.column) ('\n' :: breaks)
  | c :: rest, m, deepest, breaks =>
    let inside := indent = 0 || m.column < indent
    if c = ' ' && inside then readEmptyLines indent rest m.right deepest breaks
    else if c = '\t' && inside then none
    else if isBreak c then
      readEmptyLines indent rest (m.below 1) (max deepest m.column) (keptBreak c :: breaks)
    else some (max deepest m.column, breaks, ⟨c :: rest, m⟩)

/-- The text that has been read, the last character first, and the line breaks behind it. -/
structure Lines where
  text : List Char
  /-- The break that ends the last line. -/
  ending : Option Char
  /-- The breaks of the empty lines that follow, the last one first. -/
  others : List Char
  /-- Whether the last line starts with a blank. -/
  blank : Bool

/-- Puts the line breaks between the text and the next line. Folding leaves those alone that stand
beside a line that starts with a blank. -/
def Lines.join (isFolded blank : Bool) (l : Lines) : List Char :=
  if isFolded && l.ending = some '\n' && !l.blank && !blank then
    if l.others.isEmpty then ' ' :: l.text else l.others ++ l.text
  else l.others ++ l.ending.toList ++ l.text

def readLines (isFolded : Bool) (indent : Nat) : Nat → Cursor → Lines → Option (Lines × Cursor)
  | 0, _, _ => none
  | fuel + 1, c, l =>
    if c.mark.column ≠ indent || c.rest.isEmpty then some (l, c)
    else
      let blank := c.head?.any isBlank
      let (line, c) := c.takeWhile fun x => !isBreak x
      let text := line.reverse ++ l.join isFolded blank
      let (ending, c) := match c.takeBreak with
        | some (b, c) => (some b, c)
        | none => (none, c)
      match readEmptyLines indent c.rest c.mark 0 [] with
      | none => none
      | some (_, others, c) => readLines isFolded indent fuel c ⟨text, ending, others, blank⟩

def Lines.chomp (chomping : Chomping) (l : Lines) : List Char :=
  match chomping with
  | .strip => l.text
  | .clip => l.ending.toList ++ l.text
  | .keep => l.others ++ l.ending.toList ++ l.text

/-- A block scalar, from its opening mark on, where `outer` is the column that its text has at least. It
has fewer than `size` lines. -/
def read (isFolded : Bool) (outer size : Nat) (c : Cursor) : Option (String × Cursor) := do
  let (header, c) ← readHeader c.next
  let c ← c.passRestOfLine
  let given := if header.increment = 0 then 0 else max outer 1 - 1 + header.increment
  let (deepest, others, c) ← readEmptyLines given c.rest c.mark 0 []
  let indent := if given = 0 then max (max deepest outer) 1 else given
  let (lines, c) ← readLines isFolded indent size c ⟨[], none, others, false⟩
  return (String.ofList (lines.chomp header.chomping).reverse, c)

end WorkflowLint.Yaml.Block

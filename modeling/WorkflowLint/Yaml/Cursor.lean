import WorkflowLint.Yaml.Character

/-! Positions in a YAML text, and moving through it. -/

set_option autoImplicit false

namespace WorkflowLint.Yaml

structure Mark where
  index : Nat
  line : Nat
  column : Nat
  deriving DecidableEq, Repr

namespace Mark

def start : Mark := ⟨0, 0, 0⟩

def right (m : Mark) : Mark := ⟨m.index + 1, m.line, m.column + 1⟩

def below (m : Mark) (width : Nat) : Mark := ⟨m.index + width, m.line + 1, 0⟩

end Mark

structure Cursor where
  rest : List Char
  mark : Mark
  deriving DecidableEq, Repr

namespace Cursor

def head? (c : Cursor) : Option Char := c.rest.head?

def at? (c : Cursor) (expected : Char) : Bool := c.rest.head? = some expected

def next (c : Cursor) : Cursor := ⟨c.rest.tail, c.mark.right⟩

def skip (c : Cursor) : Nat → Cursor
  | 0 => c
  | n + 1 => c.next.skip n

/-- Passes a line break, if there is one: what is kept of it, and where the next line starts. -/
def takeBreak (c : Cursor) : Option (Char × Cursor) :=
  match c.rest with
  | '\r' :: '\n' :: rest => some ('\n', ⟨rest, c.mark.below 2⟩)
  | b :: rest => if isBreak b then some (keptBreak b, ⟨rest, c.mark.below 1⟩) else none
  | [] => none

def passBreak (c : Cursor) : Cursor :=
  match c.takeBreak with
  | some (_, c) => c
  | none => c

def takeWhile (p : Char → Bool) (c : Cursor) : List Char × Cursor :=
  let taken := c.rest.takeWhile p
  (taken, ⟨c.rest.drop taken.length,
    ⟨c.mark.index + taken.length, c.mark.line, c.mark.column + taken.length⟩⟩)

def skipWhile (p : Char → Bool) (c : Cursor) : Cursor := (c.takeWhile p).2

def passComment (c : Cursor) : Cursor :=
  if c.at? '#' then c.skipWhile fun x => !isBreak x else c

/-- Passes blanks, a comment and the end of the line; nothing else may be left on it. -/
def passRestOfLine (c : Cursor) : Option Cursor :=
  let c := (c.skipWhile isBlank).passComment
  if endsLine c.rest then some c.passBreak else none

/-- Whether a document starts or ends here: three dashes or points open the line. -/
def atDocumentMark (c : Cursor) : Bool :=
  c.mark.column = 0 &&
    match c.rest with
    | '-' :: '-' :: '-' :: rest => endsWord rest
    | '.' :: '.' :: '.' :: rest => endsWord rest
    | _ => false

end Cursor

end WorkflowLint.Yaml

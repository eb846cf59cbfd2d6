import WorkflowLint.Yaml.Cursor

/-! Text that may go over several lines. Blanks around line breaks do not count; a single line break is
a space, and of several the first one does not count. -/

set_option autoImplicit false

namespace WorkflowLint.Yaml

structure Folded where
  /-- The characters, the last one first. -/
  text : List Char
  /-- The blanks of the gap, as long as it holds no line break, the last one first. -/
  blanks : List Char
  /-- Whether the gap holds a line break. -/
  broken : Bool
  /-- The first line break of the gap; an escaped one is not kept. -/
  first : Option Char
  /-- The other line breaks, the last one first. -/
  others : List Char
  deriving DecidableEq, Repr

namespace Folded

def empty : Folded := ⟨[], [], false, none, []⟩

def addBlank (f : Folded) (c : Char) : Folded :=
  if f.broken then f else { f with blanks := c :: f.blanks }

def addBreak (f : Folded) (b : Char) : Folded :=
  if f.broken then { f with others := b :: f.others }
  else { f with blanks := [], broken := true, first := some b }

def close (f : Folded) : Folded :=
  let text :=
    if !f.broken then f.blanks ++ f.text
    else
      match f.first with
      | some '\n' => if f.others.isEmpty then ' ' :: f.text else f.others ++ f.text
      | some b => f.others ++ b :: f.text
      | none => f.others ++ f.text
  { empty with text := text }

/-- The text with a run of characters behind it, which is given the last one first. -/
def append (f : Folded) (run : List Char) : Folded := { f with text := run ++ f.text }

def toString (f : Folded) : String := String.ofList f.text.reverse

/-- Reads a gap. In a line that starts inside it, no tab may stand before `column`. -/
def readGap (column : Nat) : List Char → Mark → Folded → Option (Folded × Cursor)
  | [], m, f => some (f, ⟨[], m⟩)
  | '\r' :: '\n' :: rest, m, f => readGap column rest (m.below 2) (f.addBreak '\n')
  | c :: rest, m, f =>
    if isBlank c then
      if f.broken && c = '\t' && m.column < column then none
      else readGap column rest m.right (f.addBlank c)
    else if isBreak c then readGap column rest (m.below 1) (f.addBreak (keptBreak c))
    else some (f, ⟨c :: rest, m⟩)

end Folded

end WorkflowLint.Yaml

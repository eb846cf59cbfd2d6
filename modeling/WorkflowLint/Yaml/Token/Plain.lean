import WorkflowLint.Yaml.Token.Folded

/-! Plain scalars: text without quotes, which ends before a comment, before a colon and a blank, and
where its lines are not indented enough. Inside flow collections it also ends before their marks. -/

set_option autoImplicit false

namespace WorkflowLint.Yaml.Plain

def isFlowMark (c : Char) : Bool := [',', '[', ']', '\x7b', '\x7d'].contains c

/-- Reads characters up to white space or the end of the scalar, the last one first. Inside flow
collections a colon may not stand before a mark of theirs or a question mark. -/
def readRun (inFlow : Bool) : List Char → Mark → List Char → Option (List Char × Cursor)
  | [], m, run => some (run, ⟨[], m⟩)
  | c :: rest, m, run =>
    if isBlankOrBreak c then some (run, ⟨c :: rest, m⟩)
    else if inFlow && c = ':' && rest.head?.any fun x => isFlowMark x || x = '?' then none
    else if (c = ':' && endsWord rest) || (inFlow && isFlowMark c) then some (run, ⟨c :: rest, m⟩)
    else readRun inFlow rest m.right (c :: run)

/-- Reads runs and gaps: the text, the end of the last run, and the cursor behind the last gap. -/
def readLines (inFlow : Bool) (column : Nat) : Nat → Cursor → Folded → Mark →
    Option (Folded × Mark × Cursor)
  | 0, _, _, _ => none
  | fuel + 1, c, f, stop =>
    if c.atDocumentMark || c.at? '#' then some (f, stop, c)
    else
      match readRun inFlow c.rest c.mark [] with
      | none => none
      | some (run, c) =>
        let (f, stop) := if run.isEmpty then (f, stop) else (f.close.append run, c.mark)
        if c.head?.any isBlankOrBreak then
          match Folded.readGap column c.rest c.mark f with
          | none => none
          | some (f, c) =>
            if !inFlow && c.mark.column < column then some (f, stop, c)
            else readLines inFlow column fuel c f stop
        else some (f, stop, c)

/-- A plain scalar whose further lines start at `column` or behind it. It has fewer than `size` lines. -/
def read (inFlow : Bool) (column size : Nat) (c : Cursor) : Option (Folded × Mark × Cursor) :=
  readLines inFlow column size c .empty c.mark

end WorkflowLint.Yaml.Plain

import WorkflowLint.Yaml.Token.Basic

/-! Anchors, aliases and tags. -/

set_option autoImplicit false

namespace WorkflowLint.Yaml.Property

def endsName (rest : List Char) : Bool :=
  endsWord rest || rest.head?.any fun c => ['?', ':', ',', ']', '\x7d', '%', '@', '\x60'].contains c

def readName (c : Cursor) : Option (String × Cursor) :=
  let (name, c) := c.next.takeWhile isWordChar
  if name.isEmpty || !endsName c.rest then none else some (String.ofList name, c)

def isTagChar (verbatim : Bool) (c : Char) : Bool :=
  isWordChar c ||
    [';', '/', '?', ':', '@', '&', '=', '+', '$', '.', '%', '!', '~', '*', '\x27', '(', ')'].contains c ||
    (verbatim && [',', '[', ']'].contains c)

def byteCount (byte : Nat) : Option Nat :=
  if byte < 0x80 then some 1
  else if byte / 0x20 = 6 then some 2
  else if byte / 0x10 = 14 then some 3
  else if byte / 8 = 30 then some 4
  else none

def firstBits (count byte : Nat) : Nat :=
  match count with
  | 1 => byte
  | 2 => byte % 0x20
  | 3 => byte % 0x10
  | _ => byte % 8

/-- Reads the characters of a tag, the last one first. Escaped bytes form characters: `missing` more of
them belong to the one that has been read up to `value`. -/
def readTagText (verbatim : Bool) (missing value : Nat) : List Char → Mark → List Char →
    Option (List Char × Cursor)
  | '%' :: a :: b :: rest, m, text => do
    let byte := (← hexDigit a) * 16 + (← hexDigit b)
    let m := m.right.right.right
    if missing = 0 then
      let count ← byteCount byte
      if count = 1 then readTagText verbatim 0 0 rest m (Char.ofNat byte :: text)
      else readTagText verbatim (count - 1) (firstBits count byte) rest m text
    else if byte / 0x40 = 2 then
      let value := value * 0x40 + byte % 0x40
      if missing = 1 then readTagText verbatim 0 0 rest m (Char.ofNat value :: text)
      else readTagText verbatim (missing - 1) value rest m text
    else none
  | c :: rest, m, text =>
    if 0 < missing || c = '%' then none
    else if isTagChar verbatim c then readTagText verbatim 0 0 rest m.right (c :: text)
    else some (text, ⟨c :: rest, m⟩)
  | [], m, text => if 0 < missing then none else some (text, ⟨[], m⟩)

def readSuffix (verbatim : Bool) (c : Cursor) : Option (List Char × Cursor) :=
  (readTagText verbatim 0 0 c.rest c.mark []).map fun (text, c) => (text.reverse, c)

/-- An exclamation mark and the word behind it, with the mark that may end it. -/
def readHandle (c : Cursor) : Option (List Char × Cursor) :=
  if c.at? '!' then
    let (word, c) := c.next.takeWhile isWordChar
    if c.at? '!' then some ('!' :: word ++ ['!'], c.next) else some ('!' :: word, c)
  else none

/-- The handle and suffix of a tag. What looks like the start of a handle may be the suffix of the
primary one; the tag that is only an exclamation mark has no handle. -/
def readTagParts (c : Cursor) : Option (List Char × List Char × Cursor) := do
  if c.next.at? '<' then
    let (suffix, c) ← readSuffix true c.next.next
    if suffix.isEmpty || !c.at? '>' then none else return ([], suffix, c.next)
  else
    let (handle, c) ← readHandle c
    let (suffix, c) ← readSuffix false c
    if 1 < handle.length && handle.getLast? = some '!' then
      if suffix.isEmpty then none else return (handle, suffix, c)
    else
      match handle.tail ++ suffix with
      | [] => return ([], ['!'], c)
      | suffix => return (['!'], suffix, c)

def readTag (inFlow : Bool) (c : Cursor) : Option (TokenKind × Cursor) := do
  let (handle, suffix, c) ← readTagParts c
  if endsWord c.rest || (inFlow && c.at? ',') then
    return (.tag (String.ofList handle) (String.ofList suffix), c)
  else none

end WorkflowLint.Yaml.Property

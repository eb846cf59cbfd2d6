import WorkflowLint.Yaml.Token.Property

/-! Directives: lines before a document that name the version or declare a handle for tags. -/

set_option autoImplicit false

namespace WorkflowLint.Yaml.Directive

def readNumber (c : Cursor) : Option (Nat × Cursor) :=
  let (digits, c) := c.takeWhile Char.isDigit
  if digits.isEmpty || 9 < digits.length then none
  else some (digits.foldl (fun n d => n * 10 + (d.toNat - '0'.toNat)) 0, c)

def readVersion (c : Cursor) : Option (TokenKind × Cursor) := do
  let (major, c) ← readNumber (c.skipWhile isBlank)
  if c.at? '.' then
    let (minor, c) ← readNumber c.next
    return (.version major minor, c)
  else none

/-- A handle that is declared ends in an exclamation mark. -/
def isDeclarable (handle : List Char) : Bool := handle.getLast? = some '!'

def readDeclaration (c : Cursor) : Option (TokenKind × Cursor) := do
  let (handle, c) ← Property.readHandle (c.skipWhile isBlank)
  if isDeclarable handle && c.head?.any isBlank then
    let (expansion, c) ← Property.readSuffix true (c.skipWhile isBlank)
    if expansion.isEmpty || !endsWord c.rest then none
    else return (.tagDirective (String.ofList handle) (String.ofList expansion), c)
  else none

def readBody (name : List Char) (c : Cursor) : Option (TokenKind × Cursor) :=
  if name = "YAML".toList then readVersion c
  else if name = "TAG".toList then readDeclaration c
  else none

def read (c : Cursor) : Option (Token × Cursor) := do
  let (name, afterName) := c.next.takeWhile isWordChar
  if name.isEmpty || !endsWord afterName.rest then none
  else
    let (kind, afterBody) ← readBody name afterName
    let c' ← afterBody.passRestOfLine
    return (⟨kind, c.mark, afterBody.mark⟩, c')

end WorkflowLint.Yaml.Directive

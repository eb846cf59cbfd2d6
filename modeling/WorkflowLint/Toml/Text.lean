/-! The texts inside TOML documents: blanks, comments, and strings of four kinds. -/

set_option autoImplicit false

namespace WorkflowLint.Toml

def isBlank (c : Char) : Bool := c = ' ' || c = '\t'

/-- Whether a character may stand inside a line; control characters may not, but for tabs. -/
def isInline (c : Char) : Bool := c = '\t' || (0x20 ≤ c.toNat && c.toNat ≠ 0x7F)

def skipBlanks (cs : List Char) : List Char := cs.dropWhile isBlank

def takeBreak : List Char → Option (List Char)
  | '\n' :: rest => some rest
  | '\r' :: '\n' :: rest => some rest
  | _ => none

def skipComment : List Char → List Char
  | '#' :: rest => rest.dropWhile isInline
  | cs => cs

def skipSpace : Nat → List Char → List Char
  | 0, cs => cs
  | fuel + 1, cs =>
    let cs := skipComment (skipBlanks cs)
    match takeBreak cs with
    | some rest => skipSpace fuel rest
    | none => cs

def endLine (cs : List Char) : Option (List Char) :=
  match skipComment (skipBlanks cs) with
  | [] => some []
  | cs => takeBreak cs

def hexDigit (c : Char) : Option Nat :=
  if c.isDigit then some (c.toNat - '0'.toNat)
  else if 'a' ≤ c && c ≤ 'f' then some (c.toNat - 'a'.toNat + 10)
  else if 'A' ≤ c && c ≤ 'F' then some (c.toNat - 'A'.toNat + 10)
  else none

def escaped : Char → Option Char
  | 'b' => some '\x08'
  | 't' => some '\t'
  | 'n' => some '\n'
  | 'f' => some '\x0c'
  | 'r' => some '\r'
  | 'e' => some '\x1b'
  | '"' => some '"'
  | '\\' => some '\\'
  | _ => none

def digitCount : Char → Option Nat
  | 'x' => some 2
  | 'u' => some 4
  | 'U' => some 8
  | _ => none

def isScalarValue (n : Nat) : Bool := n < 0xD800 || (0xE000 ≤ n && n < 0x110000)

def takeNumbered (count : Nat) (cs : List Char) : Option (Char × List Char) := do
  let digits := cs.take count
  if digits.length < count then none
  else
    let n ← digits.foldlM (fun n c => (hexDigit c).map (n * 16 + ·)) 0
    if isScalarValue n then some (Char.ofNat n, cs.drop count) else none

def takeEscape : List Char → Option (Char × List Char)
  | [] => none
  | e :: rest =>
    match digitCount e with
    | some count => takeNumbered count rest
    | none => (escaped e).map fun c => (c, rest)

/-- Passes the end of a line behind a backslash, with the blank lines after it. -/
def skipFolded (cs : List Char) : Option (List Char) :=
  (takeBreak (skipBlanks cs)).map fun rest =>
    rest.dropWhile fun c => isBlank c || c = '\n' || c = '\r'

def takeBasic : Nat → List Char → Option (List Char × List Char)
  | 0, _ => none
  | fuel + 1, cs =>
    match cs with
    | [] => none
    | '"' :: rest => some ([], rest)
    | '\\' :: rest => do
      let (c, rest) ← takeEscape rest
      let (text, rest) ← takeBasic fuel rest
      return (c :: text, rest)
    | c :: rest =>
      if isInline c then (takeBasic fuel rest).map fun (text, rest) => (c :: text, rest) else none

def takeLiteral : List Char → Option (List Char × List Char)
  | [] => none
  | '\x27' :: rest => some ([], rest)
  | c :: rest =>
    if isInline c then (takeLiteral rest).map fun (text, rest) => (c :: text, rest) else none

/-- Closes a string of several lines: up to two quotes before the closing three belong to the text. -/
def closeLines (quote : Char) (cs : List Char) : Option (List Char × List Char) :=
  let quotes := (cs.take 5).takeWhile (· = quote)
  if quotes.length < 3 then none else some (quotes.drop 3, cs.drop quotes.length)

def takeBasicLines : Nat → List Char → Option (List Char × List Char)
  | 0, _ => none
  | fuel + 1, cs =>
    match closeLines '"' cs with
    | some closed => some closed
    | none =>
      match cs with
      | [] => none
      | '\\' :: rest =>
        match skipFolded rest with
        | some rest => takeBasicLines fuel rest
        | none => do
          let (c, rest) ← takeEscape rest
          let (text, rest) ← takeBasicLines fuel rest
          return (c :: text, rest)
      | '\r' :: '\n' :: rest =>
        (takeBasicLines fuel rest).map fun (text, rest) => ('\r' :: '\n' :: text, rest)
      | c :: rest =>
        if isInline c || c = '\n' then
          (takeBasicLines fuel rest).map fun (text, rest) => (c :: text, rest)
        else none

def takeLiteralLines : Nat → List Char → Option (List Char × List Char)
  | 0, _ => none
  | fuel + 1, cs =>
    match closeLines '\x27' cs with
    | some closed => some closed
    | none =>
      match cs with
      | [] => none
      | '\r' :: '\n' :: rest =>
        (takeLiteralLines fuel rest).map fun (text, rest) => ('\r' :: '\n' :: text, rest)
      | c :: rest =>
        if isInline c || c = '\n' then
          (takeLiteralLines fuel rest).map fun (text, rest) => (c :: text, rest)
        else none

/-- A line break right behind the opening quotes does not count. -/
def skipFirstBreak (cs : List Char) : List Char := (takeBreak cs).getD cs

def takeString (cs : List Char) : Option (String × List Char) :=
  let taken := match cs with
    | '"' :: '"' :: '"' :: rest => takeBasicLines (rest.length + 1) (skipFirstBreak rest)
    | '\x27' :: '\x27' :: '\x27' :: rest => takeLiteralLines (rest.length + 1) (skipFirstBreak rest)
    | '"' :: rest => takeBasic (rest.length + 1) rest
    | '\x27' :: rest => takeLiteral rest
    | _ => none
  taken.map fun (text, rest) => (String.ofList text, rest)

def isBareKeyChar (c : Char) : Bool := c.isAlphanum || c = '_' || c = '-'

/-- A key without dots. Strings of several lines are no keys. -/
def takeSimpleKey (cs : List Char) : Option (String × List Char) :=
  match cs with
  | '"' :: '"' :: '"' :: _ => none
  | '\x27' :: '\x27' :: '\x27' :: _ => none
  | '"' :: _ => takeString cs
  | '\x27' :: _ => takeString cs
  | _ =>
    let key := cs.takeWhile isBareKeyChar
    if key.isEmpty then none else some (String.ofList key, cs.drop key.length)

def takeKey : Nat → List Char → Option (List String × List Char)
  | 0, _ => none
  | fuel + 1, cs => do
    let (key, cs) ← takeSimpleKey cs
    match skipBlanks cs with
    | '.' :: rest =>
      let (keys, rest) ← takeKey fuel (skipBlanks rest)
      return (key :: keys, rest)
    | _ => return ([key], cs)

end WorkflowLint.Toml

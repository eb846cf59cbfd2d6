import WorkflowLint.Toml.Scalar

/-! Reading TOML documents, line by line. -/

set_option autoImplicit false

namespace WorkflowLint.Toml

def depthLimit : Nat := 80

mutual

def takeValue : Nat → Nat → List Char → Option (Value × List Char)
  | 0, _, _ => none
  | fuel + 1, depth, cs =>
    match cs with
    | '[' :: rest =>
      match depth with
      | 0 => none
      | depth + 1 => (takeItems fuel depth rest).map fun (items, rest) => (.array items, rest)
    | '\x7b' :: rest =>
      match depth with
      | 0 => none
      | depth + 1 => (takeEntries fuel depth [] rest).map fun (entries, rest) => (.table .inline entries, rest)
    | '"' :: _ => (takeString cs).map fun (text, rest) => (.string text, rest)
    | '\x27' :: _ => (takeString cs).map fun (text, rest) => (.string text, rest)
    | _ =>
      let (text, rest) := takeBare cs
      (readBare text).map fun value => (value, rest)

/-- The items of an array up to its end. A comma may follow the last one. -/
def takeItems : Nat → Nat → List Char → Option (List Value × List Char)
  | 0, _, _ => none
  | fuel + 1, depth, cs =>
    match skipSpace (cs.length + 1) cs with
    | ']' :: rest => some ([], rest)
    | cs => do
      let (item, cs) ← takeValue fuel depth cs
      match skipSpace (cs.length + 1) cs with
      | ']' :: rest => return ([item], rest)
      | ',' :: rest =>
        let (items, rest) ← takeItems fuel depth rest
        return (item :: items, rest)
      | _ => none

def takeEntries : Nat → Nat → Entries → List Char → Option (Entries × List Char)
  | 0, _, _, _ => none
  | fuel + 1, depth, entries, cs =>
    match skipSpace (cs.length + 1) cs with
    | '\x7d' :: rest => some (entries, rest)
    | cs => do
      let (entries, cs) ← takeEntry fuel depth .inline entries cs
      match skipSpace (cs.length + 1) cs with
      | '\x7d' :: rest => return (entries, rest)
      | ',' :: rest => takeEntries fuel depth entries rest
      | _ => none

def takeEntry : Nat → Nat → Origin → Entries → List Char → Option (Entries × List Char)
  | 0, _, _, _, _ => none
  | fuel + 1, depth, origin, entries, cs => do
    let (keys, cs) ← takeKey (cs.length + 1) cs
    match keys.getLast?, skipBlanks cs with
    | some key, '=' :: cs =>
      let (value, cs) ← takeValue fuel depth (skipBlanks cs)
      let entries ← insertDotted keys.dropLast key value origin entries
      return (entries, cs)
    | _, _ => none

end

structure Reading where
  root : Entries
  here : List String

def takeHeader (closing : List Char) (cs : List Char) : Option (List String × List Char) := do
  let (keys, cs) ← takeKey (cs.length + 1) (skipBlanks cs)
  let cs := skipBlanks cs
  if closing.isPrefixOf cs then some (keys, cs.drop closing.length) else none

def openAt (isElement : Bool) (keys : List String) (root : Entries) : Option Entries := do
  let key ← keys.getLast?
  if isElement then openElement keys.dropLast key root else openTable keys.dropLast key root

def addEntry (reading : Reading) (cs : List Char) : Option (Reading × List Char) := do
  let (keys, cs) ← takeKey (cs.length + 1) cs
  match keys.getLast?, skipBlanks cs with
  | some key, '=' :: cs =>
    let (value, cs) ← takeValue (2 * cs.length + 2) depthLimit (skipBlanks cs)
    let root ← updateAt false reading.here
      (fun _ entries => insertDotted keys.dropLast key value .header entries) .header reading.root
    return ({ reading with root := root }, cs)
  | _, _ => none

def takeExpression (reading : Reading) (cs : List Char) : Option (Reading × List Char) :=
  match cs with
  | '[' :: '[' :: rest => do
    let (keys, rest) ← takeHeader [']', ']'] rest
    return (⟨← openAt true keys reading.root, keys⟩, rest)
  | '[' :: rest => do
    let (keys, rest) ← takeHeader [']'] rest
    return (⟨← openAt false keys reading.root, keys⟩, rest)
  | _ => addEntry reading cs

def readLines : Nat → Reading → List Char → Option Reading
  | 0, _, _ => none
  | fuel + 1, reading, cs =>
    match skipSpace (cs.length + 1) cs with
    | [] => some reading
    | cs => do
      let (reading, cs) ← takeExpression reading cs
      let cs ← endLine cs
      readLines fuel reading cs

def withoutMark : List Char → List Char
  | '\uFEFF' :: rest => rest
  | cs => cs

def read (text : String) : Option Entries := do
  let cs := withoutMark text.toList
  let reading ← readLines (cs.length + 1) ⟨[], []⟩ cs
  return reading.root

end WorkflowLint.Toml

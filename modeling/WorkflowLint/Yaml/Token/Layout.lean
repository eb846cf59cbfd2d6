import WorkflowLint.Yaml.Token.Block
import WorkflowLint.Yaml.Token.Directive
import WorkflowLint.Yaml.Token.Plain
import WorkflowLint.Yaml.Token.Quoted

/-! The tokens of a text. Indentation opens and closes blocks. That a token starts a key shows only at
the colon behind it; until then it is a candidate, and the key is put before it afterwards. -/

set_option autoImplicit false

namespace WorkflowLint.Yaml

/-- A token that may turn out to start a key. -/
structure Candidate where
  /-- Whether it has to: nothing else may stand where it stands. -/
  required : Bool
  /-- How many tokens stand before it. -/
  number : Nat
  mark : Mark
  deriving DecidableEq, Repr

structure Layout where
  /-- More than the characters of the whole text; no step passes as many. -/
  size : Nat
  cursor : Cursor
  /-- The column of the innermost block; -1 outside of all blocks. -/
  indent : Int
  /-- The columns of the blocks around it, the innermost one first. -/
  outerIndents : List Int
  /-- The candidate of the innermost flow collection, or of the blocks. -/
  candidate : Option Candidate
  /-- The candidates around it, one for each open flow collection. -/
  outerCandidates : List (Option Candidate)
  /-- Whether a key may start here. -/
  keyAllowed : Bool
  /-- The tokens so far, the last one first. -/
  tokens : List Token
  /-- How many they are. -/
  count : Nat
  /-- Whether the last token is the end. -/
  ended : Bool

namespace Layout

def start (text : List Char) : Layout := ⟨text.length + 1, ⟨text, .start⟩, -1, [], none, [], true, [], 0, false⟩

def inFlow (l : Layout) : Bool := !l.outerCandidates.isEmpty

def column (l : Layout) : Nat := l.cursor.mark.column

def add (l : Layout) (token : Token) : Layout :=
  { l with tokens := token :: l.tokens, count := l.count + 1 }

def emit (l : Layout) (kind : TokenKind) (start stop : Mark) : Layout := l.add ⟨kind, start, stop⟩

def insert (l : Layout) (number : Nat) (kind : TokenKind) (mark : Mark) : Layout :=
  let (later, earlier) := l.tokens.splitAt (l.count - number)
  { l with tokens := later ++ ⟨kind, mark, mark⟩ :: earlier, count := l.count + 1 }

/-- Passes blanks, comments and line breaks. A tab is no blank where a key may start. -/
def passSpace (inFlow : Bool) : Nat → Cursor → Bool → Cursor × Bool
  | 0, c, keyAllowed => (c, keyAllowed)
  | fuel + 1, c, keyAllowed =>
    let c := if c.mark.column = 0 && c.at? byteOrderMark then c.next else c
    let c := c.skipWhile fun x => x = ' ' || (x = '\t' && (inFlow || !keyAllowed))
    let c := c.passComment
    match c.takeBreak with
    | some (_, c) => passSpace inFlow fuel c (keyAllowed || !inFlow)
    | none => (c, keyAllowed)

def toNextToken (l : Layout) : Layout :=
  let (cursor, keyAllowed) := passSpace l.inFlow l.size l.cursor l.keyAllowed
  { l with cursor := cursor, keyAllowed := keyAllowed }

/-- Keys stand on one line and have at most 1024 characters. -/
def isStale (mark : Mark) (c : Candidate) : Bool :=
  c.mark.line < mark.line || c.mark.index + 1024 < mark.index

/-- Gives a candidate up; one that is required must not be given up. -/
def discard : Option Candidate → Option (Option Candidate)
  | some c => if c.required then none else some none
  | none => some none

def discardStale (mark : Mark) (candidate : Option Candidate) : Option (Option Candidate) :=
  if candidate.any (isStale mark) then discard candidate else some candidate

def refresh (l : Layout) : Option Layout := do
  let candidate ← discardStale l.cursor.mark l.candidate
  let outer ← l.outerCandidates.mapM (discardStale l.cursor.mark)
  return { l with candidate := candidate, outerCandidates := outer }

def dropCandidate (l : Layout) : Option Layout := do
  return { l with candidate := ← discard l.candidate }

def addCandidate (l : Layout) : Option Layout :=
  if l.keyAllowed then do
    let l ← l.dropCandidate
    return { l with
      candidate := some
        { required := !l.inFlow && l.indent = l.column
          number := l.count
          mark := l.cursor.mark } }
  else some l

/-- Opens a block at a column that is deeper than the innermost one; its token goes behind the first
`number` tokens. -/
def openBlock (l : Layout) (column number : Nat) (kind : TokenKind) (mark : Mark) : Layout :=
  if !l.inFlow && l.indent < column then
    { l.insert number kind mark with indent := column, outerIndents := l.indent :: l.outerIndents }
  else l

def openBlockHere (l : Layout) (kind : TokenKind) : Layout :=
  l.openBlock l.column l.count kind l.cursor.mark

def closeBlocks (l : Layout) (column : Int) : Layout :=
  if l.inFlow then l
  else
    let indents := l.indent :: l.outerIndents
    let closed := indents.takeWhile (column < ·)
    let kept := indents.drop closed.length
    let ends := closed.map fun _ => ⟨.blockEnd, l.cursor.mark, l.cursor.mark⟩
    { l with
      indent := kept.head?.getD (-1)
      outerIndents := kept.tail
      tokens := ends ++ l.tokens
      count := l.count + closed.length }

def takeMark (l : Layout) (kind : TokenKind) (width : Nat) : Layout :=
  let c := l.cursor.skip width
  { l.emit kind l.cursor.mark c.mark with cursor := c }

def takeEnd (l : Layout) : Option Layout := do
  let mark := if l.column = 0 then l.cursor.mark else l.cursor.mark.below 0
  let l := { l with cursor := ⟨[], mark⟩ }.closeBlocks (-1)
  let l ← l.dropCandidate
  return { l.emit .streamEnd mark mark with keyAllowed := false, ended := true }

def takeDirective (l : Layout) : Option Layout := do
  let l ← (l.closeBlocks (-1)).dropCandidate
  let (token, c) ← Directive.read l.cursor
  return { l.add token with cursor := c, keyAllowed := false }

def takeDocumentMark (l : Layout) (kind : TokenKind) : Option Layout := do
  let l ← (l.closeBlocks (-1)).dropCandidate
  return { l.takeMark kind 3 with keyAllowed := false }

def takeFlowStart (l : Layout) (kind : TokenKind) : Option Layout := do
  let l ← l.addCandidate
  return { l.takeMark kind 1 with
    candidate := none, outerCandidates := l.candidate :: l.outerCandidates, keyAllowed := true }

def takeFlowEnd (l : Layout) (kind : TokenKind) : Option Layout := do
  let l ← l.dropCandidate
  let (candidate, outer) := match l.outerCandidates with
    | [] => (l.candidate, [])
    | first :: rest => (first, rest)
  return { l.takeMark kind 1 with
    candidate := candidate, outerCandidates := outer, keyAllowed := false }

def takeFlowEntry (l : Layout) : Option Layout := do
  let l ← l.dropCandidate
  return { l.takeMark .flowEntry 1 with keyAllowed := true }

def takeBlockEntry (l : Layout) : Option Layout :=
  if l.inFlow || l.keyAllowed then do
    let l ← (l.openBlockHere .blockSequenceStart).dropCandidate
    return { l.takeMark .blockEntry 1 with keyAllowed := true }
  else none

def takeKey (l : Layout) : Option Layout :=
  if l.inFlow || l.keyAllowed then do
    let l ← (l.openBlockHere .blockMappingStart).dropCandidate
    return { l.takeMark .key 1 with keyAllowed := !l.inFlow }
  else none

/-- The colon behind a key: the key that was announced, or else the candidate. -/
def takeValue (l : Layout) : Option Layout :=
  match l.candidate with
  | some c =>
    let l := (l.insert c.number .key c.mark).openBlock c.mark.column c.number .blockMappingStart c.mark
    some { l.takeMark .value 1 with candidate := none, keyAllowed := false }
  | none =>
    if l.inFlow || l.keyAllowed then
      let l := l.openBlockHere .blockMappingStart
      some { l.takeMark .value 1 with keyAllowed := !l.inFlow }
    else none

def takeCandidate (l : Layout) (read : Cursor → Option (TokenKind × Cursor)) : Option Layout := do
  let l ← l.addCandidate
  let (kind, c) ← read l.cursor
  return { l.emit kind l.cursor.mark c.mark with cursor := c, keyAllowed := false }

def takeName (l : Layout) (kind : String → TokenKind) : Option Layout :=
  l.takeCandidate fun c => (Property.readName c).map fun (name, c) => (kind name, c)

def takeQuoted (l : Layout) (isDouble : Bool) : Option Layout :=
  l.takeCandidate fun c => (Quoted.read isDouble l.size c).map fun (f, c) =>
    (.scalar (if isDouble then .doubleQuoted else .singleQuoted) f.toString, c)

/-- A line break behind the scalar lets a key start again. -/
def takePlain (l : Layout) : Option Layout := do
  let l ← l.addCandidate
  let (f, stop, c) ← Plain.read l.inFlow (l.indent + 1).toNat l.size l.cursor
  return { l.emit (.scalar .plain f.toString) l.cursor.mark stop with cursor := c, keyAllowed := f.broken }

def takeBlock (l : Layout) (isFolded : Bool) : Option Layout := do
  let l ← l.dropCandidate
  let (text, c) ← Block.read isFolded (l.indent + 1).toNat l.size l.cursor
  return { l.emit (.scalar (if isFolded then .folded else .literal) text) l.cursor.mark c.mark with
    cursor := c, keyAllowed := true }

def startsPlain (inFlow : Bool) (c : Char) (rest : List Char) : Bool :=
  if c = '-' then !rest.head?.any isBlank
  else if c = '?' || c = ':' then !inFlow && !endsWord rest
  else !(isBlankOrBreak c || [',', '[', ']', '\x7b', '\x7d', '#', '&', '*', '!', '|', '>', '\x27', '"', '%', '@',
    '\x60'].contains c)

def takeFrom (l : Layout) (c : Char) (rest : List Char) : Option Layout :=
  if l.column = 0 && c = '%' then l.takeDirective
  else if l.cursor.atDocumentMark then
    l.takeDocumentMark (if c = '-' then .documentStart else .documentEnd)
  else if c = '[' then l.takeFlowStart .flowSequenceStart
  else if c = '\x7b' then l.takeFlowStart .flowMappingStart
  else if c = ']' then l.takeFlowEnd .flowSequenceEnd
  else if c = '\x7d' then l.takeFlowEnd .flowMappingEnd
  else if c = ',' then l.takeFlowEntry
  else if c = '-' && endsWord rest then l.takeBlockEntry
  else if c = '?' && (l.inFlow || endsWord rest) then l.takeKey
  else if c = ':' && (l.inFlow || endsWord rest) then l.takeValue
  else if c = '*' then l.takeName .alias
  else if c = '&' then l.takeName .anchor
  else if c = '!' then l.takeCandidate (Property.readTag l.inFlow)
  else if c = '|' && !l.inFlow then l.takeBlock false
  else if c = '>' && !l.inFlow then l.takeBlock true
  else if c = '\x27' then l.takeQuoted false
  else if c = '"' then l.takeQuoted true
  else if startsPlain l.inFlow c rest then l.takePlain
  else none

def step (l : Layout) : Option Layout := do
  let l ← l.toNextToken.refresh
  let l := l.closeBlocks l.column
  match l.cursor.rest with
  | [] => l.takeEnd
  | c :: rest => l.takeFrom c rest

/-- How many tokens can be told for certain: those before all candidates. -/
def settled (l : Layout) : Nat :=
  (l.candidate :: l.outerCandidates).foldl
    (fun n candidate => match candidate with
      | some c => min n c.number
      | none => n) l.count

def firstTokens (l : Layout) (number : Nat) : List Token := (l.tokens.drop (l.count - number)).reverse

/-- Takes tokens up to the end. Where that fails, those are left that were certain before. -/
def run : Nat → Layout → Nat → List Token
  | 0, l, certain => l.firstTokens certain
  | fuel + 1, l, certain =>
    match l.refresh with
    | none => l.firstTokens certain
    | some l =>
      if l.ended then l.tokens.reverse
      else
        match l.step with
        | none => l.firstTokens l.settled
        | some next => run fuel next l.settled

end Layout

/-- The tokens of a text. The last one is the end; where the text breaks the rules of tokens it is
missing, and with it all tokens that cannot be told for certain. -/
def Token.ofText (text : String) : List Token :=
  let text := text.toList
  if text.all isAllowed then Layout.run (text.length + 2) (.start text) 0 else []

end WorkflowLint.Yaml

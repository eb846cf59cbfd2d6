import WorkflowLint.Keyed
import WorkflowLint.Yaml.Node.Basic
import WorkflowLint.Yaml.Token.Layout

/-! The first document of a text, from its tokens. The first fault ends the reading; what has been read
by then stays. -/

set_option autoImplicit false

namespace WorkflowLint.Yaml

structure Reading where
  tokens : List Token
  /-- The prefixes of tags, by their handles. -/
  handles : List (String × String)
  /-- The numbers of the anchors, by their names. -/
  names : List (String × Nat)
  /-- Where the node starts that has a number. -/
  owners : List (Nat × Mark)
  anchored : List (Nat × Node)
  size : Nat
  fault : Option Fault

namespace Reading

abbrev Reader := StateM Reading

def breakOff (fault : Fault) : Reader Unit :=
  modify fun r => { r with fault := r.fault <|> some fault }

def cutOff (fault : Fault) : Reader Node := do
  breakOff fault
  return .cut

def isBroken : Reader Bool := return (← get).fault.isSome

/-- The next token, which stays. Behind the last one the text is at fault. -/
def peek : Reader (Option Token) := do
  let r ← get
  match r.fault, r.tokens with
  | none, token :: _ => return some token
  | _, _ =>
    breakOff .malformed
    return none

def drop : Reader Unit := modify fun r => { r with tokens := r.tokens.tail }

def count (n : Nat) : Reader Unit := modify fun r => { r with size := r.size + n }

def nextIs (accept : TokenKind → Bool) : Reader Bool := do
  return (← peek).any fun token => accept token.kind

def emptyAt (mark : Mark) : Reader Node := do
  count 1
  return .empty mark

/-- Gives a name the next number; a name that is given again takes a new one. -/
def declare (name : String) (mark : Mark) : Reader Nat := do
  let r ← get
  let number := r.names.length
  set { r with names := Keyed.put name number r.names, owners := Keyed.put number mark r.owners }
  return number

/-- Stores the node of a number, unless the number has gone to a later node. -/
def store (number : Nat) (mark : Mark) (node : Node) : Reader Unit :=
  modify fun r =>
    if r.owners.lookup number = some mark then { r with anchored := Keyed.put number node r.anchored }
    else r

structure Properties where
  start : Option Mark
  anchor : Option String
  tag : Option (String × String)

def readProperties (p : Properties) : Nat → Reader Properties
  | 0 => return p
  | fuel + 1 => do
    match ← peek with
    | some ⟨.anchor name, start, _⟩ =>
      if p.anchor.isSome then return p
      else
        drop
        readProperties { p with anchor := some name, start := p.start <|> some start } fuel
    | some ⟨.tag handle suffix, start, _⟩ =>
      if p.tag.isSome then return p
      else
        drop
        readProperties { p with tag := some (handle, suffix), start := p.start <|> some start } fuel
    | _ => return p

def expand (tag : String × String) : Reader (Option String) := do
  if tag.1.isEmpty then return some tag.2
  else return ((← get).handles.lookup tag.1).map (· ++ tag.2)

/-- The tag of a scalar: an exclamation mark alone says no more than none. -/
def scalarTag (tag : Option String) : Option String :=
  if tag = some "!" then none else tag

mutual

/-- A node. Block collections need `block`; a block sequence may stand without tokens of its own where
`indentless`. -/
def readNode (block indentless : Bool) : Nat → Reader Node
  | 0 => cutOff .malformed
  | fuel + 1 => do
    match ← peek with
    | none => return .cut
    | some ⟨.alias name, start, _⟩ =>
      drop
      match (← get).names.lookup name with
      | some number =>
        count 1
        return .alias start number
      | none => cutOff (.unknownAnchor start)
    | some first =>
      let p ← readProperties ⟨none, none, none⟩ 2
      let mark := p.start.getD first.start
      match ← peek with
      | none => return .cut
      | some token =>
        let tag ← match p.tag with
          | none => pure none
          | some tag =>
            match ← expand tag with
            | some text => pure (some text)
            | none =>
              breakOff .malformed
              pure none
        if ← isBroken then return .cut
        readContent block indentless mark p.anchor tag token fuel

def readContent (block indentless : Bool) (mark : Mark) (anchor tag : Option String) (token : Token) :
    Nat → Reader Node
  | 0 => cutOff .malformed
  | fuel + 1 => do
    let collection (make : Reader Node) : Reader Node := do
      count 1
      match anchor with
      | none => make
      | some name =>
        let number ← declare name mark
        let node ← make
        store number mark node
        return node
    let isCollection (kind : TokenKind) : Bool :=
      match kind with
      | .blockEntry => indentless
      | .flowSequenceStart | .flowMappingStart => true
      | .blockSequenceStart | .blockMappingStart => block
      | _ => false
    match token.kind with
    | .scalar style text =>
      drop
      collection (return .scalar mark (scalarTag tag) style text)
    | kind =>
      if isCollection kind then
        match kind with
        | .blockEntry => collection (return .sequence mark tag (← readIndentless fuel))
        | .flowSequenceStart =>
          drop
          collection (return .sequence mark tag (← readFlowItems true fuel))
        | .blockSequenceStart =>
          drop
          collection (return .sequence mark tag (← readBlockItems fuel))
        | .flowMappingStart =>
          drop
          collection (return .mapping mark tag (← readFlowEntries true fuel))
        | _ =>
          drop
          collection (return .mapping mark tag (← readBlockEntries fuel))
      else if anchor.isSome || tag.isSome then collection (return .scalar mark tag .plain "")
      else cutOff .malformed

def readBlockItems : Nat → Reader (List Node)
  | 0 => return [← cutOff .malformed]
  | fuel + 1 => do
    match ← peek with
    | some ⟨.blockEntry, _, stop⟩ =>
      drop
      let item ←
        if ← nextIs fun kind => kind = .blockEntry || kind = .blockEnd then emptyAt stop
        else readNode true false fuel
      if ← isBroken then return [item]
      return item :: (← readBlockItems fuel)
    | some ⟨.blockEnd, _, _⟩ =>
      drop
      count 1
      return []
    | _ => return [← cutOff .malformed]

/-- The items of a sequence that stands where the keys of the mapping around it do. -/
def readIndentless : Nat → Reader (List Node)
  | 0 => return [← cutOff .malformed]
  | fuel + 1 => do
    match ← peek with
    | some ⟨.blockEntry, _, stop⟩ =>
      drop
      let item ←
        if ← nextIs fun kind => kind = .blockEntry || kind = .key || kind = .value || kind = .blockEnd then
          emptyAt stop
        else readNode true false fuel
      if ← isBroken then return [item]
      return item :: (← readIndentless fuel)
    | some _ =>
      count 1
      return []
    | none => return [.cut]

def readBlockEntries : Nat → Reader (List (Node × Node))
  | 0 => return [(← cutOff .malformed, .cut)]
  | fuel + 1 => do
    let endsPart (kind : TokenKind) : Bool := kind = .key || kind = .value || kind = .blockEnd
    match ← peek with
    | some ⟨.key, _, stop⟩ =>
      drop
      let key ← if ← nextIs endsPart then emptyAt stop else readNode true true fuel
      if ← isBroken then return [(key, .cut)]
      let value ← readBlockValue fuel
      if ← isBroken then return [(key, value)]
      return (key, value) :: (← readBlockEntries fuel)
    | some ⟨.blockEnd, _, _⟩ =>
      drop
      count 1
      return []
    | _ => return [(← cutOff .malformed, .cut)]

def readBlockValue : Nat → Reader Node
  | 0 => cutOff .malformed
  | fuel + 1 => do
    match ← peek with
    | some ⟨.value, _, stop⟩ =>
      drop
      if ← nextIs fun kind => kind = .key || kind = .value || kind = .blockEnd then emptyAt stop
      else readNode true true fuel
    | some token => emptyAt token.start
    | none => return .cut

/-- Passes the comma between two items of a flow collection; before the first one there is none. -/
def passComma (first : Bool) (closing : TokenKind) : Nat → Reader Unit
  | 0 => breakOff .malformed
  | _ + 1 => do
    if first || (← nextIs (· = closing)) then return ()
    else if ← nextIs (· = .flowEntry) then drop
    else breakOff .malformed

/-- The items of a flow sequence, up to its end. A key makes a mapping of one entry. -/
def readFlowItems (first : Bool) : Nat → Reader (List Node)
  | 0 => return [← cutOff .malformed]
  | fuel + 1 => do
    passComma first .flowSequenceEnd fuel
    match ← peek with
    | none => return [.cut]
    | some ⟨.flowSequenceEnd, _, _⟩ =>
      drop
      count 1
      return []
    | some ⟨.key, start, _⟩ =>
      drop
      count 1
      let item ← readPair start fuel
      if ← isBroken then return [item]
      return item :: (← readFlowItems false fuel)
    | some _ =>
      let item ← readNode false false fuel
      if ← isBroken then return [item]
      return item :: (← readFlowItems false fuel)

/-- The mapping of one entry inside a flow sequence. Where the key is missing, the token that stands
there is lost. -/
def readPair (mark : Mark) : Nat → Reader Node
  | 0 => cutOff .malformed
  | fuel + 1 => do
    let endsKey (kind : TokenKind) : Bool := kind = .value || kind = .flowEntry || kind = .flowSequenceEnd
    match ← peek with
    | none => return .mapping mark none [(.cut, .cut)]
    | some token =>
      let key ←
        if endsKey token.kind then
          drop
          emptyAt token.stop
        else readNode false false fuel
      if ← isBroken then return .mapping mark none [(key, .cut)]
      let value ← readFlowValue .flowSequenceEnd fuel
      if ← isBroken then return .mapping mark none [(key, value)]
      count 1
      return .mapping mark none [(key, value)]

def readFlowEntries (first : Bool) : Nat → Reader (List (Node × Node))
  | 0 => return [(← cutOff .malformed, .cut)]
  | fuel + 1 => do
    passComma first .flowMappingEnd fuel
    match ← peek with
    | none => return [(.cut, .cut)]
    | some ⟨.flowMappingEnd, _, _⟩ =>
      drop
      count 1
      return []
    | some ⟨.key, _, _⟩ =>
      drop
      let key ← match ← peek with
        | none => pure .cut
        | some token =>
          if token.kind = .value || token.kind = .flowEntry || token.kind = .flowMappingEnd then
            emptyAt token.start
          else readNode false false fuel
      if ← isBroken then return [(key, .cut)]
      let value ← readFlowValue .flowMappingEnd fuel
      if ← isBroken then return [(key, value)]
      return (key, value) :: (← readFlowEntries false fuel)
    | some _ =>
      let key ← readNode false false fuel
      match ← peek with
      | none => return [(key, .cut)]
      | some token =>
        let value ← emptyAt token.start
        return (key, value) :: (← readFlowEntries false fuel)

def readFlowValue (closing : TokenKind) : Nat → Reader Node
  | 0 => cutOff .malformed
  | fuel + 1 => do
    match ← peek with
    | none => return .cut
    | some ⟨.value, _, _⟩ =>
      drop
      match ← peek with
      | none => return .cut
      | some token =>
        if token.kind = .flowEntry || token.kind = closing then emptyAt token.start
        else readNode false false fuel
    | some token => emptyAt token.start

end

/-- The directives before a document; none where they contradict one another. -/
def readDirectives (versionSeen : Bool) : List Token → List (String × String) →
    Option (List Token × List (String × String))
  | [], handles => some ([], handles)
  | token :: rest, handles =>
    match token.kind with
    | .version major minor =>
      if versionSeen || major ≠ 1 || (minor ≠ 1 && minor ≠ 2) then none
      else readDirectives true rest handles
    | .tagDirective handle expansion =>
      if (handles.lookup handle).isSome then none
      else readDirectives versionSeen rest (handles ++ [(handle, expansion)])
    | _ => some (token :: rest, handles)

def defaultHandles : List (String × String) := [("!", "!"), ("!!", "tag:yaml.org,2002:")]

def start (tokens : List Token) : Reading := ⟨tokens, [], [], [], [], 0, none⟩

def isDirective : TokenKind → Bool
  | .version .. | .tagDirective .. => true
  | _ => false

def isBetweenDocuments (kind : TokenKind) : Bool :=
  isDirective kind || kind = .documentStart || kind = .documentEnd || kind = .streamEnd

def readRoot : Reader Node := do
  let r ← get
  let fuel := 4 * r.tokens.length + 16
  match r.tokens with
  | [] => cutOff .malformed
  | token :: _ =>
    if isDirective token.kind || token.kind = .documentStart then
      match readDirectives false r.tokens [] with
      | none => cutOff .malformed
      | some (rest, handles) =>
        set { r with tokens := rest, handles := handles ++ defaultHandles }
        match ← peek with
        | some ⟨.documentStart, _, _⟩ =>
          drop
          match ← peek with
          | none => return .cut
          | some token => if isBetweenDocuments token.kind then emptyAt token.start else readNode true false fuel
        | _ => cutOff .malformed
    else
      set { r with handles := defaultHandles }
      readNode true false fuel

def readDocument : Reader Node := do
  let root ← readRoot
  if ← nextIs (· = .documentEnd) then drop
  return root

end Reading

/-- The first document of a text. A text without tokens but the end has an empty one. -/
def Document.ofTokens (tokens : List Token) : Document :=
  match tokens with
  | ⟨.streamEnd, mark, _⟩ :: _ => ⟨.empty mark, [], 1, none, true⟩
  | _ =>
    let (root, r) := Reading.readDocument.run (.start tokens)
    let behind := r.tokens.dropWhile fun token => token.kind = .documentEnd
    ⟨root, r.anchored, r.size, r.fault, behind.head?.any fun token => token.kind = .streamEnd⟩

def Document.ofText (text : String) : Document := .ofTokens (Token.ofText text)

end WorkflowLint.Yaml

import WorkflowLint.Keyed
import WorkflowLint.Yaml.Error
import WorkflowLint.Yaml.Node.OfTokens
import WorkflowLint.Yaml.Scalar

/-! Decoders: from the nodes of a document to what they stand for. Aliases are followed as they are met,
and how often that happens is limited; so is how deep collections nest. -/

set_option autoImplicit false

namespace WorkflowLint.Yaml

/-- A step of decoding reads the document and counts the aliases that are followed. -/
abbrev Decoder := ReaderT Document (StateT Nat (Except Error))

/-- Where decoding stands: on the way from the root, with so many levels of collections left. -/
structure Context where
  path : Path
  depth : Nat

namespace Decoder

variable {α β : Type}

def depthLimit : Nat := 128

def root : Context := ⟨[], depthLimit⟩

def Context.step (at_ : Context) (step : PathStep) : Context := { at_ with path := step :: at_.path }

def keyStep : Node → PathStep
  | .scalar _ _ _ text => .key text
  | _ => .unnamed

def failAtCut : Decoder α := do
  throw (.fault ((← read).fault.getD .malformed))

/-- Gives a problem that has no place yet the place of the node around it. -/
def placed (mark : Mark) (path : Path) (decoder : Decoder α) : Decoder α := fun document jumps =>
  match decoder document jumps with
  | .error (.data cause none) => .error (.data cause (some ⟨mark, path⟩))
  | other => other

def failAt (mark : Mark) (path : Path) (cause : Cause) : Decoder α :=
  throw (.data cause (some ⟨mark, path⟩))

/-- The node that an alias leads to. Not more than a hundred times the size of the document is
followed. -/
def follow (target : Nat) : Decoder Node := do
  let document ← read
  let jumps ← get
  if document.size * 100 < jumps + 1 then throw .tooManyRepetitions
  set (jumps + 1)
  match document.anchored.lookup target with
  | some node => return node
  | none => failAtCut

def resolve : Node → Decoder Node
  | .alias _ target => follow target
  | .cut => failAtCut
  | node => pure node

def enter (mark : Mark) (context : Context) : Decoder Context :=
  match context.depth with
  | 0 => throw (.tooDeep mark)
  | depth + 1 => pure { context with depth := depth }

/-- Passes a node whose value does not matter; it has to be there as a whole. -/
def ignore (node : Node) : Decoder Unit :=
  if node.isWhole then pure () else failAtCut

def mismatch (expected : String) (context : Context) : Node → Decoder α
  | .scalar mark tag style text =>
    match Scalar.value tag style text with
    | .ok found => failAt mark context.path (.invalidType found expected)
    | .error wanted => failAt mark context.path (.invalidValue text wanted)
  | .sequence mark _ _ => failAt mark context.path (.invalidType (.sequence []) expected)
  | .mapping mark _ _ => failAt mark context.path (.invalidType (.mapping []) expected)
  | _ => failAtCut

def text (expected : String) (context : Context) (node : Node) : Decoder String := do
  match ← resolve node with
  | .scalar _ _ _ text => return text
  | other => mismatch expected context other

/-- A plain scalar that is empty or reads as null stands for nothing. -/
def optional (decoder : Context → Node → Decoder α) (context : Context) (node : Node) :
    Decoder (Option α) := do
  let node ← resolve node
  let isPresent ← match node with
    | .scalar _ tag .plain text =>
      match tag with
      | none => pure !(text.isEmpty || Scalar.isNull text)
      | some tag =>
        if tag = Scalar.nullTag then
          if Scalar.isNull text then pure false
          else throw (.data (.invalidValue text "null") none)
        else pure true
    | _ => pure true
  if isPresent then return some (← decoder context node) else return none

def mayBeRead (own : String) (tag : Option String) (style : ScalarStyle) : Bool :=
  style = .plain || (style = .literal && tag = some own)

def bool (context : Context) (node : Node) : Decoder Bool := do
  match ← resolve node with
  | .scalar mark tag style text =>
    match (if mayBeRead Scalar.boolTag tag style then Scalar.readBool text else none) with
    | some b => return b
    | none => mismatch "a boolean" context (.scalar mark tag style text)
  | other => mismatch "a boolean" context other

def word (context : Context) (node : Node) : Decoder Nat := do
  match ← resolve node with
  | .scalar mark tag style text =>
    match (if mayBeRead Scalar.integerTag tag style then Scalar.readNatural text.toList else none) with
    | some n => if n < Nat.pow 2 64 then return n else mismatch "u64" context (.scalar mark tag style text)
    | none => mismatch "u64" context (.scalar mark tag style text)
  | other => mismatch "u64" context other

def standsForEmpty (style : ScalarStyle) (text : String) : Bool := style = .plain && text.isEmpty

def list (decoder : Context → Node → Decoder α) (context : Context) (node : Node) : Decoder (List α) := do
  match ← resolve node with
  | .sequence mark _ items =>
    placed mark context.path do
      let inner ← enter mark context
      items.zipIdx.mapM fun (item, index) => decoder (Context.step inner (.item index)) item
  | .scalar mark tag style text =>
    if standsForEmpty style text then return []
    else mismatch "a sequence" context (.scalar mark tag style text)
  | other => mismatch "a sequence" context other

def foldEntries (expected : String) (step : Context → α → Node × Node → Decoder α) (start : α)
    (context : Context) (node : Node) : Decoder α := do
  match ← resolve node with
  | .mapping mark _ entries =>
    placed mark context.path do
      let inner ← enter mark context
      entries.foldlM (step inner) start
  | .scalar mark tag style text =>
    if standsForEmpty style text then return start
    else mismatch expected context (.scalar mark tag style text)
  | other => mismatch expected context other

def table (decoder : Context → Node → Decoder α) (context : Context) (node : Node) :
    Decoder (List (String × α)) :=
  foldEntries "a map" (fun inner entries (key, value) => do
    let name ← text "a string" inner key
    let item ← decoder (Context.step inner (keyStep key)) value
    return Keyed.put name item entries) [] context node

abbrev Field (α : Type) := Context → α → Node → Decoder α

/-- A record, whose fields come in any order, each at most once, among others that do not matter. -/
def record (expected : String) (fields : List (String × Field α)) (start : α) (context : Context)
    (node : Node) : Decoder α := do
  let step (inner : Context) (state : List String × α) (entry : Node × Node) :
      Decoder (List String × α) := do
    let name ← text "field identifier" inner entry.1
    match fields.lookup name with
    | some field =>
      if state.1.contains name then throw (.data (.duplicateField name) none)
      else return (name :: state.1, ← field (Context.step inner (keyStep entry.1)) state.2 entry.2)
    | none =>
      ignore entry.2
      return state
  let (_, result) ← foldEntries expected step ([], start) context node
  return result

def run (decoder : Context → Node → Decoder α) (text : String) : Except Error α := do
  let document := Document.ofText text
  let (value, _) ← StateT.run (decoder root document.root document) 0
  match document.fault with
  | some fault => throw (.fault fault)
  | none => if document.isLast then return value else throw .moreDocuments

end Decoder

end WorkflowLint.Yaml

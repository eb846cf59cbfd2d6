import WorkflowLint.Yaml.Decoder

/-! Decoding nodes of any shape. -/

set_option autoImplicit false

namespace WorkflowLint.Yaml.Decoder

structure Demand where
  /-- What it is called. -/
  expected : String
  /-- Whether local tags are kept; otherwise there may be none. -/
  keepsTags : Bool
  /-- Whether a key may come twice in a mapping. -/
  allowsRepeatedKeys : Bool

def localTag (tag : Option String) : Option String :=
  match tag with
  | some tag => if Scalar.isLocalTag tag then some (String.ofList tag.toList.tail) else none
  | none => none

def withTag (demand : Demand) (tag : Option String) (content : Decoder Value) : Decoder Value := do
  match localTag tag with
  | none => content
  | some name =>
    if !demand.keepsTags then throw (.data .taggedInput none)
    else if name.isEmpty then throw (.data .emptyTag none)
    else return .tagged name (← content)

def scalar (demand : Demand) (tag : Option String) (style : ScalarStyle) (text : String) : Decoder Value :=
  match Scalar.value tag style text with
  | .ok (.integer n) =>
    if Value.isOrdinary n then return .integer n
    else throw (.data (.invalidType (.integer n) demand.expected) none)
  | .ok value => return value
  | .error wanted => throw (.data (.invalidValue text wanted) none)

def any (demand : Demand) : Nat → Path → Node → Decoder Value
  | depth, path, node => do
    match ← resolve node with
    | .scalar mark tag style text =>
      placed mark path (withTag demand tag
        (scalar demand (if (localTag tag).isSome then none else tag) style text))
    | .sequence mark tag items =>
      placed mark path <| withTag demand tag <|
        match depth with
        | 0 => throw (.tooDeep mark)
        | depth + 1 => do
          let values ← items.zipIdx.mapM fun (item, index) => any demand depth (.item index :: path) item
          return .sequence values
    | .mapping mark tag entries =>
      placed mark path <| withTag demand tag <|
        match depth with
        | 0 => throw (.tooDeep mark)
        | depth + 1 => do
          let values ← entries.foldlM (fun values entry => do
            let key ← any demand depth path entry.1
            if !demand.allowsRepeatedKeys && Value.hasKey key values then
              throw (.data (.duplicateEntry key) none)
            let value ← any demand depth (keyStep entry.1 :: path) entry.2
            return values ++ [(key, value)]) []
          return .mapping values
    | _ => failAtCut

/-- A value of any shape, without repeated keys. -/
def value (context : Context) (node : Node) : Decoder Value :=
  any ⟨"any YAML value", true, false⟩ context.depth context.path node

/-- A value of any shape, without local tags. -/
def untaggedValue (context : Context) (node : Node) : Decoder Value :=
  any ⟨"any value", false, true⟩ context.depth context.path node

end WorkflowLint.Yaml.Decoder

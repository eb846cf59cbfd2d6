import WorkflowLint.Json.Token
import WorkflowLint.Keyed

/-! Reading JSON texts. The collections that are open form a stack of frames; a token opens a frame,
completes a value, which goes to the frame on top, or is a mark between values. -/

set_option autoImplicit false

namespace WorkflowLint.Json

inductive Frame where
  /-- The items, the last one first. -/
  | array (items : List Json)
  | object (members : List (String × Json))
  /-- An object that waits for the value of a member. -/
  | member (members : List (String × Json)) (name : String)

inductive Expected where
  | value
  /-- A value, or the end of the array that has just been opened. -/
  | valueOrEnd
  | name
  /-- A name, or the end of the object that has just been opened. -/
  | nameOrEnd
  | colon
  /-- A comma, or the end of the collection. -/
  | separator
  | nothing
  deriving DecidableEq

structure Reading where
  expected : Expected
  frames : List Frame
  /-- The value that has been read, once nothing is open. -/
  result : Option Json

namespace Reading

def start : Reading := ⟨.value, [], none⟩

def depthLimit : Nat := 127

/-- Hands a value to the frame on top. Of the members of one name an object keeps one, with the last value in
the place of the first. -/
def complete (value : Json) : List Frame → Option Reading
  | [] => some ⟨.nothing, [], some value⟩
  | .array items :: rest => some ⟨.separator, .array (value :: items) :: rest, none⟩
  | .member members name :: rest => some ⟨.separator, .object (Keyed.put name value members) :: rest, none⟩
  | .object _ :: _ => none

def enter (frame : Frame) (expected : Expected) (frames : List Frame) : Option Reading :=
  if frames.length < depthLimit then some ⟨expected, frame :: frames, none⟩ else none

def acceptsValue (expected : Expected) : Bool := expected = .value || expected = .valueOrEnd

def acceptsName (expected : Expected) : Bool := expected = .name || expected = .nameOrEnd

def step (reading : Reading) : Token → Option Reading
  | .openArray => if acceptsValue reading.expected then enter (.array []) .valueOrEnd reading.frames else none
  | .openObject => if acceptsValue reading.expected then enter (.object []) .nameOrEnd reading.frames else none
  | .closeArray =>
    match reading.frames with
    | .array items :: rest =>
      if reading.expected = .valueOrEnd || reading.expected = .separator then
        complete (.array items.reverse) rest
      else none
    | _ => none
  | .closeObject =>
    match reading.frames with
    | .object members :: rest =>
      if reading.expected = .nameOrEnd || reading.expected = .separator then
        complete (.object members) rest
      else none
    | _ => none
  | .comma =>
    match reading.expected, reading.frames with
    | .separator, .array items :: rest => some ⟨.value, .array items :: rest, none⟩
    | .separator, .object members :: rest => some ⟨.name, .object members :: rest, none⟩
    | _, _ => none
  | .colon => if reading.expected = .colon then some ⟨.value, reading.frames, none⟩ else none
  | .scalar value =>
    if acceptsValue reading.expected then complete value reading.frames
    else if acceptsName reading.expected then
      match value, reading.frames with
      | .string name, .object members :: rest => some ⟨.colon, .member members name :: rest, none⟩
      | _, _ => none
    else none

end Reading

def read (text : String) : Option Json := do
  let tokens ← Token.ofText text
  let reading ← tokens.foldlM Reading.step Reading.start
  reading.result

end WorkflowLint.Json

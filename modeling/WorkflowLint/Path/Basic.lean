import WorkflowLint.Text.Split

/-! Paths. A path keeps the text that it was given as; what it means are its components. Repeated
slashes, slashes at the end and points behind the first component make no difference to those. -/

set_option autoImplicit false

namespace WorkflowLint

structure Path where
  text : String
  deriving DecidableEq, Repr

namespace Path

inductive Component where
  | root
  /-- A point at the start of a relative path. -/
  | here
  | up
  | name (text : String)
  deriving DecidableEq, Repr

def Component.text : Component → String
  | .root => "/"
  | .here => "."
  | .up => ".."
  | .name text => text

def Component.rank : Component → Nat
  | .root => 0
  | .here => 1
  | .up => 2
  | .name _ => 3

/-- The order of components: names come last, in the order of their texts. -/
def Component.order : Component → Component → Ordering
  | .name a, .name b => compare a b
  | a, b => compare a.rank b.rank

def pieces (path : Path) : List String :=
  (Text.splitOn '/' path.text.toList).map String.ofList

def componentOf (piece : String) : Option Component :=
  if piece = "" || piece = "." then none
  else if piece = ".." then some .up
  else some (.name piece)

def componentsOf : List String → List Component
  | "" :: rest => .root :: rest.filterMap componentOf
  | "." :: rest => .here :: rest.filterMap componentOf
  | pieces => pieces.filterMap componentOf

def components (path : Path) : List Component :=
  if path.text.isEmpty then [] else componentsOf path.pieces

def isAbsolute (path : Path) : Bool := path.text.toList.head? = some '/'

def orderOf : List Component → List Component → Ordering
  | [], [] => .eq
  | [], _ :: _ => .lt
  | _ :: _, [] => .gt
  | a :: as, b :: bs => (a.order b).then (orderOf as bs)

def order (a b : Path) : Ordering := orderOf a.components b.components

def isSame (a b : Path) : Bool := a.components = b.components

/-- The path of `other` seen from `base`: an absolute one stays. -/
def join (base other : Path) : Path :=
  if other.isAbsolute || base.text.isEmpty then other
  else if base.text.toList.getLast? = some '/' then ⟨base.text ++ other.text⟩
  else ⟨base.text ++ "/" ++ other.text⟩

def child (base : Path) (name : String) : Path := base.join ⟨name⟩

def fileName (path : Path) : Option String :=
  match path.components.getLast? with
  | some (.name text) => some text
  | _ => none

def keepThrough (accept : String → Bool) (pieces : List String) : List String :=
  (pieces.reverse.dropWhile fun piece => !accept piece).reverse

def isComponent (piece : String) : Bool := (componentOf piece).isSome

def parentPieces (rest : List String) : Option (List String) :=
  match keepThrough isComponent rest with
  | [] => none
  | kept => some (keepThrough isComponent kept.dropLast)

/-- The path without its last component, as far as its text goes; the root and the empty path have no
parent. -/
def parent (path : Path) : Option Path :=
  match path.pieces with
  | "" :: rest =>
    (parentPieces rest).map fun kept => ⟨if kept.isEmpty then "/" else "/".intercalate ("" :: kept)⟩
  | "." :: rest =>
    match parentPieces rest with
    | some kept => some ⟨"/".intercalate ("." :: kept)⟩
    | none => some ⟨""⟩
  | pieces => (parentPieces pieces).map fun kept => ⟨"/".intercalate kept⟩

/-- The path itself, its parent, and so on: one for each component, and the empty path. -/
def ancestorsWithin : Nat → Path → List Path
  | 0, path => [path]
  | fuel + 1, path =>
    match path.parent with
    | some parent => path :: ancestorsWithin fuel parent
    | none => [path]

def ancestors (path : Path) : List Path := path.ancestorsWithin path.components.length

/-- Adds a path to a list in ascending order, unless one with the same components is in it. -/
def insertOrdered (path : Path) : List Path → List Path
  | [] => [path]
  | first :: rest =>
    match path.order first with
    | .lt => path :: first :: rest
    | .eq => first :: rest
    | .gt => first :: insertOrdered path rest

end Path

end WorkflowLint

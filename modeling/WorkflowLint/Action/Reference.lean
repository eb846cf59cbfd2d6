import WorkflowLint.Text.Split

/-! References to actions, as a step writes them after `uses:`. A reference reads
`owner/repo[/subpath]@revision`; reading never fails, and what is malformed is split as far as it goes. -/

set_option autoImplicit false

namespace WorkflowLint

/-- An action in a repository of its own, pinned to a revision. -/
structure RemoteAction where
  raw : String
  owner : String
  repo : Option String
  subpath : Option String
  revision : String
  deriving DecidableEq, Repr

inductive ActionRef where
  /-- A path into the same repository, never looked up. -/
  | inTree (raw : String)
  /-- No `@`, so no revision at all. -/
  | unpinned (raw : String)
  | remote (action : RemoteAction)
  deriving DecidableEq, Repr

namespace RemoteAction

def revisionLength : Nat := 40

/-- How many of owner, repository and subpath are given; the owner always counts. -/
def segmentCount (action : RemoteAction) : Nat :=
  1 + (if action.repo.isSome then 1 else 0) + (if action.subpath.isSome then 1 else 0)

def foldCase (text : String) : List Char := text.toList.map Char.toLower

/-- Whether the owner is the namespace, up to the case of ASCII letters. No owner is in the empty one. -/
def isInternal (action : RemoteAction) (owners : String) : Bool :=
  !owners.isEmpty && foldCase action.owner == foldCase owners

def repository (action : RemoteAction) : Option String :=
  action.repo.map fun repo => action.owner ++ "/" ++ repo

def hasFullRevision (action : RemoteAction) : Bool :=
  action.revision.length == revisionLength

def isHexDigit (c : Char) : Bool :=
  ('0' ≤ c && c ≤ '9') || ('a' ≤ c && c ≤ 'f')

/-- Small hexadecimal digits only, and at least one. -/
def hasHexRevision (action : RemoteAction) : Bool :=
  !action.revision.isEmpty && action.revision.toList.all isHexDigit

def nonempty? (text : List Char) : Option String :=
  if text.isEmpty then none else some (String.ofList text)

/-- The action whose path and revision are given: up to the first slash the owner, up to the second
the repository, and then the subpath, slashes and all. An empty repository or subpath is not given. -/
def ofParts (raw : String) (path revision : List Char) : RemoteAction :=
  match Text.cutFirst '/' path with
  | none => ⟨raw, String.ofList path, none, none, String.ofList revision⟩
  | some (owner, rest) =>
    match Text.cutFirst '/' rest with
    | none => ⟨raw, String.ofList owner, nonempty? rest, none, String.ofList revision⟩
    | some (repo, subpath) =>
      ⟨raw, String.ofList owner, nonempty? repo, nonempty? subpath, String.ofList revision⟩

end RemoteAction

namespace ActionRef

/-- A reference that holds this anywhere stays in its own repository. -/
def inTreeMarker : List Char := ['.', '/']

/-- The revision is what follows the last `@`. -/
def parse (raw : String) : ActionRef :=
  if Text.occursIn inTreeMarker raw.toList then .inTree raw
  else
    match Text.cutLast '@' raw.toList with
    | none => .unpinned raw
    | some (path, revision) => .remote (RemoteAction.ofParts raw path revision)

end ActionRef

end WorkflowLint

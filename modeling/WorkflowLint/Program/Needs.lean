import WorkflowLint.Program

/-! What of the disk a request looks at. The names of files are enough to tell which contents it needs. -/

set_option autoImplicit false

namespace WorkflowLint

/-- The names from the root to a path that is seen from a directory, as far as its text tells. -/
def Path.namesFrom (directory : List String) (path : Path) : List String :=
  path.components.foldl (fun names component =>
    match component with
    | .root => []
    | .here => names
    | .up => names.dropLast
    | .name text => names ++ [text]) directory

namespace LintRequest

def isLiteral (piece : String) : Bool := !piece.toList.any ['?', '*', '['].contains

def literalPart (word : String) : Path :=
  match (Path.pieces ⟨word⟩).takeWhile isLiteral with
  | [""] => ⟨"/"⟩
  | pieces => ⟨"/".intercalate pieces⟩

def places (request : LintRequest) : List Path :=
  ⟨"."⟩ :: (Discovery.words request.inputs).map literalPart

def markers (request : LintRequest) : List Path :=
  (Path.mk (request.root.getD ".")).ancestors.flatMap fun directory => Config.markers.map directory.child

def consulted (request : LintRequest) (files : FileSystem) : List Path :=
  let root := Config.rootFrom files.contains ⟨request.root.getD "."⟩
  ((Config.fileIn files root).map Prod.fst).toList ++ Discovery.workflowFiles files request.inputs

end LintRequest

end WorkflowLint

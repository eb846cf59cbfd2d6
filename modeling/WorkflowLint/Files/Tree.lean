/-! Directory trees. -/

set_option autoImplicit false

namespace WorkflowLint

inductive FileTree where
  | file (content : ByteArray)
  | directory (entries : List (String × FileTree))

namespace FileTree

def empty : FileTree := .directory []

def isFile : FileTree → Bool
  | .file _ => true
  | .directory _ => false

def isDirectory (tree : FileTree) : Bool := !tree.isFile

def entries : FileTree → List (String × FileTree)
  | .file _ => []
  | .directory entries => entries

def entry? (tree : FileTree) (name : String) : Option FileTree := tree.entries.lookup name

mutual

def descendants : FileTree → List (List String × FileTree)
  | .file _ => []
  | .directory entries => descendantsOf entries

def descendantsOf : List (String × FileTree) → List (List String × FileTree)
  | [] => []
  | (name, tree) :: rest =>
    (([name], tree) :: (descendants tree).map fun (names, inner) => (name :: names, inner)) ++ descendantsOf rest

end

/-- The tree with something put at the place that names lead to; missing directories are made. -/
def insert (new : FileTree) : List String → FileTree → FileTree
  | [], _ => new
  | name :: names, tree =>
    let old := (tree.entry? name).getD .empty
    .directory ((tree.entries.filter fun entry => entry.1 ≠ name) ++ [(name, insert new names old)])

end FileTree

end WorkflowLint

import WorkflowLint.Files.Tree
import WorkflowLint.Path.Basic

/-! The files that a program sees: a tree, and the directory in it that relative paths start from. -/

set_option autoImplicit false

namespace WorkflowLint

inductive FileError where
  | notFound
  | notADirectory
  | isADirectory
  | nameTooLong
  | nulInName
  | notText
  deriving DecidableEq, Repr

def FileError.message : FileError → String
  | .notFound => "No such file or directory (os error 2)"
  | .notADirectory => "Not a directory (os error 20)"
  | .isADirectory => "Is a directory (os error 21)"
  | .nameTooLong => "File name too long (os error 36)"
  | .nulInName => "file name contained an unexpected NUL byte"
  | .notText => "stream did not contain valid UTF-8"

structure FileSystem where
  root : FileTree
  /-- The names that lead from the root to the working directory. -/
  workingDirectory : List String

namespace FileSystem

/-- The way from the root to a place in the tree, the last step first. -/
abbrev Trail := List (String × FileTree)

def nameLimit : Nat := 255

def pathLimit : Nat := 4096

variable (files : FileSystem)

def treeAt : Trail → FileTree
  | [] => files.root
  | (_, tree) :: _ => tree

def walk : Trail → List String → Except FileError Trail
  | trail, [] => .ok trail
  | trail, piece :: rest =>
    match files.treeAt trail with
    | .file _ => .error .notADirectory
    | .directory entries =>
      if piece = "" || piece = "." then walk trail rest
      else if piece = ".." then walk trail.tail rest
      else if nameLimit < piece.utf8ByteSize then .error .nameTooLong
      else
        match entries.lookup piece with
        | none => .error .notFound
        | some tree => walk ((piece, tree) :: trail) rest

def resolve (path : Path) : Except FileError Trail :=
  if path.text.toList.contains '\x00' then .error .nulInName
  else if path.text.isEmpty then .error .notFound
  else if pathLimit ≤ path.text.utf8ByteSize then .error .nameTooLong
  else if path.isAbsolute then files.walk [] path.pieces
  else
    match files.walk [] files.workingDirectory with
    | .ok start => files.walk start path.pieces
    | .error e => .error e

def find (path : Path) : Except FileError FileTree :=
  match files.resolve path with
  | .ok trail => .ok (files.treeAt trail)
  | .error e => .error e

def locate (path : Path) : Except FileError (List String) :=
  match files.resolve path with
  | .ok trail => .ok (trail.map Prod.fst).reverse
  | .error e => .error e

def contains (path : Path) : Bool := (files.find path).isOk

def isFile (path : Path) : Bool :=
  match files.find path with
  | .ok tree => tree.isFile
  | .error _ => false

def isDirectory (path : Path) : Bool :=
  match files.find path with
  | .ok tree => tree.isDirectory
  | .error _ => false

def readText (path : Path) : Except FileError String :=
  match files.find path with
  | .ok (.file content) =>
    match String.fromUTF8? content with
    | some text => .ok text
    | none => .error .notText
  | .ok (.directory _) => .error .isADirectory
  | .error e => .error e

def workingPath : Path := ⟨"/" ++ "/".intercalate files.workingDirectory⟩

end FileSystem

end WorkflowLint

import WorkflowLint.Files.System
import WorkflowLint.Glob.Pattern

/-! Searching a file system for the paths that a pattern stands for. Each component of the pattern is a
pattern for one component of the path. -/

set_option autoImplicit false

namespace WorkflowLint.Glob

structure PathPattern where
  start : Path
  components : List Pattern
  /-- Whether it stands for directories only. -/
  wantsDirectory : Bool

namespace PathPattern

/-- The pieces between the slashes, without the empty one behind a slash at the end. -/
def piecesOf (text : List Char) : List (List Char) :=
  let pieces := Text.splitOn '/' text
  if pieces.getLast? = some [] then pieces.dropLast else pieces

/-- Of recursive patterns in a row one is enough. -/
def mergeRecursive : List Pattern → List Pattern
  | a :: b :: rest =>
    if a.isRecursive && b.isRecursive then mergeRecursive (b :: rest) else a :: mergeRecursive (b :: rest)
  | patterns => patterns

def ofText (text : String) : Option PathPattern := do
  let chars := text.toList
  let _ ← Pattern.ofChars chars
  let isAbsolute := chars.head? = some '/'
  let inner := if isAbsolute then chars.tail else chars
  let components ← (piecesOf inner).mapM Pattern.ofChars
  return {
    start := if isAbsolute then ⟨"/"⟩ else ⟨"."⟩
    components := mergeRecursive (if isAbsolute && inner.isEmpty then [[]] else components)
    wantsDirectory := chars.getLast? = some '/' }

end PathPattern

/-- A path inside a directory; from the working directory it is written without that. -/
def inside (directory : Path) (name : String) : Path :=
  if directory.isSame ⟨"."⟩ then ⟨name⟩ else directory.child name

def nameOrder (a b : String) : Bool := compare a b != .gt

def namesOrder : List String → List String → Bool
  | [], _ => true
  | _ :: _, [] => false
  | a :: as, b :: bs =>
    match compare a b with
    | .lt => true
    | .eq => namesOrder as bs
    | .gt => false

variable (files : FileSystem)

def namesIn (directory : Path) : List String :=
  match files.find directory with
  | .ok tree => (tree.entries.map Prod.fst).mergeSort nameOrder
  | .error _ => []

/-- All that lies below a directory, each directory before its own entries. -/
def below (directory : Path) : List Path :=
  match files.find directory with
  | .ok tree =>
    ((tree.descendants.map Prod.fst).mergeSort namesOrder).map fun names =>
      match names with
      | [] => directory
      | name :: rest => rest.foldl Path.child (inside directory name)
  | .error _ => []

def leadsOn (directory : Path) (text : String) : Bool :=
  if text = "." || text = ".." then files.isDirectory directory
  else files.contains (inside directory text)

def specialEntries (pattern : Pattern) (directory : Path) : List Path :=
  if pattern.startsWithPoint then
    ([".", ".."].filter pattern.accepts).reverse.map directory.child
  else []

def find (wantsDirectory : Bool) : List Pattern → Path → List Path
  | [], path => if wantsDirectory && !files.isDirectory path then [] else [path]
  | pattern :: rest, directory =>
    match pattern.literal? with
    | some text =>
      if leadsOn files directory text then find wantsDirectory rest (inside directory text) else []
    | none =>
      if !files.isDirectory directory then []
      else if pattern.isRecursive then
        match rest with
        | [] => (below files directory).filter files.isDirectory
        | next :: rest =>
          (below files directory).flatMap fun path =>
            if path.fileName.any next.accepts then find wantsDirectory rest path else []
      else
        (specialEntries pattern directory).flatMap (find wantsDirectory rest) ++
          (namesIn files directory).flatMap fun name =>
            if pattern.accepts name then find wantsDirectory rest (inside directory name) else []

def search (text : String) : List Path :=
  match PathPattern.ofText text with
  | none => []
  | some p =>
    match p.components with
    | [] => []
    | components => find files p.wantsDirectory components p.start

end WorkflowLint.Glob

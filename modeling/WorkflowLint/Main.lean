import WorkflowLint.Program.Needs

/-! The command line program. It takes a picture of the files that a request looks at, and it has no network
of its own: no server can be reached. -/

set_option autoImplicit false

namespace WorkflowLint

/-- Directories are looked into no deeper than this. -/
def depthLimit : Nat := 64

/-- What lies at a path, with all files empty. A directory that its own inside leads back to is left out. -/
def treeAtPath : Nat → List String → String → IO (Option FileTree)
  | 0, _, _ => return none
  | depth + 1, above, path => do
    let .ok place ← (IO.FS.realPath path).toBaseIO | return none
    let .ok entries ← place.readDir.toBaseIO | return some (.file .empty)
    if above.contains place.toString then return none
    let children ← entries.toList.mapM fun entry => do
      let child ← treeAtPath depth (place.toString :: above) (path ++ "/" ++ entry.fileName)
      return child.map fun tree => (entry.fileName, tree)
    return some (.directory (children.filterMap id))

def addPlace (files : FileSystem) (path : Path) : IO FileSystem := do
  if files.contains path then return files
  let some tree ← treeAtPath depthLimit [] path.text | return files
  return { files with root := tree.insert (path.namesFrom files.workingDirectory) files.root }

/-- Adds a marker of a directory, of which only matters that it is there. -/
def addMarker (files : FileSystem) (path : Path) : IO FileSystem := do
  if files.contains path then return files
  let .ok _ ← (IO.FS.realPath path.text).toBaseIO | return files
  let names := path.namesFrom files.workingDirectory
  return { files with root := (FileTree.file .empty).insert names files.root }

def addContent (files : FileSystem) (path : Path) : IO FileSystem := do
  let .ok names := files.locate path | return files
  let .ok content ← (IO.FS.readBinFile path.text).toBaseIO | return files
  return { files with root := (FileTree.file content).insert names files.root }

def pictureFor (request : LintRequest) : IO FileSystem := do
  let directory := Path.namesFrom [] ⟨(← IO.currentDir).toString⟩
  let files ← request.places.foldlM addPlace ⟨.empty, directory⟩
  let files ← request.markers.foldlM addMarker files
  (request.consulted files).foldlM addContent files

def variablesNamed (names : List String) : IO (List (String × String)) :=
  names.filterMapM fun name => return (← IO.getEnv name).map fun value => (name, value)

def surroundingsFor (arguments : List String) : IO Surroundings := do
  match CommandLine.read arguments with
  | .ok ⟨_, .lint request⟩ =>
    let files ← pictureFor request
    return ⟨files, ← variablesNamed ["NO_COLOR", (request.settings files).tokenVariable]⟩
  | _ => return ⟨⟨.empty, []⟩, ← variablesNamed ["NO_COLOR"]⟩

end WorkflowLint

def main (arguments : List String) : IO UInt32 := do
  let surroundings ← WorkflowLint.surroundingsFor arguments
  let (result, _) := WorkflowLint.Program.run WorkflowLint.Http.unreachable surroundings arguments ()
  IO.print result.output
  IO.eprint result.errors
  return UInt32.ofNat result.exitCode

import WorkflowLint.Glob.Search
import WorkflowLint.Text.Blank

/-! Which files to look at. An input holds words; each names a file, a directory that is searched as a
whole, or else is a pattern. -/

set_option autoImplicit false

namespace WorkflowLint.Discovery

variable (files : FileSystem)

def extensions : List String := ["yml", "yaml"]

def patternBelow (directory : Path) (ending : String) : String :=
  ((directory.child "**").child ("*." ++ ending)).text

def filesMatching (pattern : String) : List Path :=
  (Glob.search files pattern).filter files.isFile

def filesOf (word : String) : List Path :=
  if files.isFile ⟨word⟩ then [⟨word⟩]
  else if files.isDirectory ⟨word⟩ then
    extensions.flatMap fun ending => filesMatching files (patternBelow ⟨word⟩ ending)
  else filesMatching files word

def words (inputs : List String) : List String :=
  inputs.flatMap fun input => (Text.words input.toList).map String.ofList

/-- The workflow files of some inputs, in ascending order and each one once. -/
def workflowFiles (inputs : List String) : List Path :=
  ((words inputs).flatMap (filesOf files)).foldl (fun found path => path.insertOrdered found) []

end WorkflowLint.Discovery

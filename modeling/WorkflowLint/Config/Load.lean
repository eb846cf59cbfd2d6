import WorkflowLint.Config.OfToml
import WorkflowLint.Config.OfYaml
import WorkflowLint.Files.System

/-! Finding and loading the configuration. The directory is the nearest one upwards that holds a
configuration or a repository; of the configurations in it only the first one counts, and it counts for
nothing when anything is wrong with it. -/

set_option autoImplicit false

namespace WorkflowLint.Config

inductive Format where
  | toml
  | yaml
  deriving DecidableEq, Repr

def Format.read (text : String) : Format → Option Config
  | .toml => ofToml text
  | .yaml => (ofYaml text).toOption

def fileNames : List (String × Format) :=
  [("wflint.toml", .toml), ("wflint.yaml", .yaml), ("wflint.yml", .yaml)]

def markers : List String := fileNames.map Prod.fst ++ [".git"]

def hasMarker (present : Path → Bool) (directory : Path) : Bool :=
  markers.any fun name => present (directory.child name)

/-- The nearest directory upwards from `start` that has a marker; `start` itself where none has. -/
def rootFrom (present : Path → Bool) (start : Path) : Path :=
  (start.ancestors.find? (hasMarker present)).getD start

def fileIn (files : FileSystem) (directory : Path) : Option (Path × Format) :=
  (fileNames.map fun (name, format) => (directory.child name, format)).find? fun entry =>
    files.contains entry.1

def load (files : FileSystem) (directory : Path) : Option Config := do
  let (path, format) ← fileIn files directory
  let text ← (files.readText path).toOption
  format.read text

end WorkflowLint.Config

/-! The workflow documents that the rules look at: a name, and jobs with their runners, variables and
steps. Keys of a document that no rule asks for are not part of it. -/

set_option autoImplicit false

namespace WorkflowLint

structure Step where
  name : Option String := none
  uses : Option String := none
  run : Option String := none
  deriving DecidableEq, Repr

/-- The runner of a job. A group of runners carries no labels. -/
inductive RunsOn where
  | label (text : String)
  | labels (texts : List String)
  | other
  deriving DecidableEq, Repr

def RunsOn.toLabels : RunsOn → List String
  | .label text => [text]
  | .labels texts => texts
  | .other => []

structure Job where
  name : Option String := none
  runsOn : Option RunsOn := none
  /-- The names of its variables, in order. -/
  env : Option (List String) := none
  steps : List Step := []
  deriving DecidableEq, Repr

structure Workflow where
  name : Option String := none
  /-- The jobs by their keys, in order. -/
  jobs : Option (List (String × Job)) := none
  deriving DecidableEq, Repr

end WorkflowLint

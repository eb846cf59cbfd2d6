import WorkflowLint.Finding
import WorkflowLint.Registry.Basic
import WorkflowLint.Text.Uppercase
import WorkflowLint.Workflow

/-! The rules. Findings come in the order of the document: those on the workflow, then for each job
those on the job and on each of its steps. All rules are independent of one another but those on a
reference: without a revision nothing else about it is said, and an incomplete path is not looked up. -/

set_option autoImplicit false

namespace WorkflowLint

structure RuleSettings where
  /-- The owner whose actions are addressed by subpath. -/
  internalNamespace : String := "bitwarden"
  /-- What a runner label contains when its image is not pinned. -/
  floatingRunnerMarker : String := "-latest"
  deriving DecidableEq, Repr

namespace Rules

variable {m : Type → Type} [Monad m]

def collect {α β : Type} (f : α → m (List β)) : List α → m (List β)
  | [] => pure []
  | item :: rest => do
    let first ← f item
    let others ← collect f rest
    return first ++ others

/-- A name is given and capitalized; the two texts say what else is the case. -/
def nameFindings (missing : String) (lowercase : String → String) (name : Option String) : List Finding :=
  match name with
  | none => [.warning missing]
  | some text => if Text.isCapitalized text then [] else [.warning (lowercase text)]

def workflowName (name : Option String) : List Finding :=
  nameFindings "Name key missing for workflow."
    (fun text => "Name value for workflow is not capitalized. [" ++ text ++ "]") name

def jobName (key : String) (name : Option String) : List Finding :=
  nameFindings ("Name key missing for job key '" ++ key ++ "'.")
    (fun text => "Name value of job key '" ++ key ++ "' is not capitalized. [" ++ text ++ "]") name

/-- The place of a step in messages; steps are counted from one. -/
def stepPlace (key : String) (number : Nat) : String :=
  "step " ++ toString number ++ " of job key '" ++ key ++ "'"

def stepName (key : String) (number : Nat) (name : Option String) : List Finding :=
  nameFindings ("Name key missing for " ++ stepPlace key number ++ ".")
    (fun text => "Name value in " ++ stepPlace key number ++ " is not capitalized. [" ++ text ++ "]") name

/-- Whether a label names an image that moves. An empty marker marks nothing. -/
def isFloating (marker label : String) : Bool :=
  !marker.isEmpty && Text.occursIn marker.toList label.toList

def runner (settings : RuleSettings) (runsOn : Option RunsOn) : List Finding :=
  ((runsOn.map RunsOn.toLabels).getD []).filterMap fun label =>
    if isFloating settings.floatingRunnerMarker label then
      some (.warning ("Runner version is set to '" ++ label ++ "', but needs to be pinned to a version."))
    else none

def environment (key : String) (env : Option (List String)) : List Finding :=
  (env.getD []).filterMap fun name =>
    if name.toList.head? = some '_' then none
    else
      some (.warning ("Environment variable '" ++ name ++ "' of job key '" ++ key ++
        "' does not start with an underscore."))

/-- A script with a single line break could do without it. -/
def script (key : String) (number : Nat) (run : Option String) : List Finding :=
  match run with
  | some text =>
    if text.toList.count '\n' = 1 then
      [.warning ("Run in " ++ stepPlace key number ++ " should be a single line.")]
    else []
  | none => []

/-- What a path lacks: internal actions need all three segments, others an owner and a repository. -/
def pathProblem (owners : String) (action : RemoteAction) : Option String :=
  if action.isInternal owners then
    if action.segmentCount < 3 then some "missing name of the repository or workflow" else none
  else if action.segmentCount < 2 then some "missing workflow name or the workflow author"
  else none

def hashError (key : String) (number : Nat) (problem : String) : Finding :=
  .error ("Step " ++ toString number ++ " of job key '" ++ key ++
    "' does not have a valid action hash. (" ++ problem ++ ")")

def revision (key : String) (number : Nat) (action : RemoteAction) : List Finding :=
  (if action.hasFullRevision then [] else [hashError key number "not 40 characters"]) ++
    (if action.hasHexRevision then [] else [hashError key number "not all hexadecimal characters"])

def registered (registry : ActionRegistry m) (key : String) (number : Nat) (uses : String)
    (reference : ActionRef) : m (List Finding) := do
  let place := "Step " ++ toString number ++ " of job key '" ++ key ++ "'"
  if ← registry.isPresent reference then
    match ← registry.updateUrl reference with
    | some url =>
      return [.warning (place ++ " uses an outdated action, consider updating it '" ++ url ++ "'.")]
    | none => return []
  else return [.error (place ++ " uses a non-existing action: " ++ uses ++ ".")]

def uses (settings : RuleSettings) (registry : ActionRegistry m) (key : String) (number : Nat)
    (text : String) : m (List Finding) :=
  match ActionRef.parse text with
  | .inTree _ => pure []
  | .unpinned _ => pure [hashError key number "missing '@' character"]
  | .remote action =>
    match pathProblem settings.internalNamespace action with
    | some problem =>
      pure (revision key number action ++
        [.error ("Step " ++ toString number ++ " of job key '" ++ key ++
          "' does not have a valid action path. (" ++ problem ++ ")")])
    | none => do
      let found ← registered registry key number text (.remote action)
      return revision key number action ++ found

def step (settings : RuleSettings) (registry : ActionRegistry m) (key : String) (number : Nat)
    (step : Step) : m (List Finding) := do
  let references ← match step.uses with
    | some text => uses settings registry key number text
    | none => pure []
  return stepName key number step.name ++ references ++ script key number step.run

def steps (settings : RuleSettings) (registry : ActionRegistry m) (key : String) :
    Nat → List Step → m (List Finding)
  | _, [] => pure []
  | number, first :: rest => do
    let found ← step settings registry key number first
    let others ← steps settings registry key (number + 1) rest
    return found ++ others

def job (settings : RuleSettings) (registry : ActionRegistry m) (key : String) (job : Job) :
    m (List Finding) := do
  let found ← steps settings registry key 1 job.steps
  return runner settings job.runsOn ++ jobName key job.name ++ environment key job.env ++ found

end Rules

def Workflow.findings {m : Type → Type} [Monad m] (settings : RuleSettings) (registry : ActionRegistry m)
    (workflow : Workflow) : m (List Finding) := do
  let found ← Rules.collect (fun entry => Rules.job settings registry entry.1 entry.2)
    (workflow.jobs.getD [])
  return Rules.workflowName workflow.name ++ found

end WorkflowLint

import WorkflowLint.Files.System
import WorkflowLint.Path.Relative
import WorkflowLint.Report
import WorkflowLint.Rules
import WorkflowLint.Workflow.OfYaml

/-! Linting files. A file that cannot be loaded is reported like one with findings. -/

set_option autoImplicit false

namespace WorkflowLint

inductive LoadError where
  | unreadable (cause : FileError)
  | invalid (cause : Yaml.Error)

def LoadError.message : LoadError → String
  | .unreadable cause => "could not be read: " ++ cause.message
  | .invalid cause => "is not valid workflow YAML: " ++ cause.message

def LoadError.finding (e : LoadError) : Finding := .error ("Workflow file " ++ e.message)

def Workflow.load (files : FileSystem) (path : Path) : Except LoadError Workflow :=
  match files.readText path with
  | .error e => .error (.unreadable e)
  | .ok text =>
    match Workflow.ofYaml text with
    | .ok workflow => .ok workflow
    | .error e => .error (.invalid e)

namespace Lint

variable {m : Type → Type} [Monad m]

def fileFindings (files : FileSystem) (settings : RuleSettings) (registry : ActionRegistry m)
    (path : Path) : m (List Finding) :=
  match Workflow.load files path with
  | .ok workflow => workflow.findings settings registry
  | .error e => pure [e.finding]

def fileReport (files : FileSystem) (settings : RuleSettings) (registry : ActionRegistry m)
    (base path : Path) : m FileReport := do
  return .ofFindings (base.shownFrom path) (← fileFindings files settings registry path)

def fileReports (files : FileSystem) (settings : RuleSettings) (registry : ActionRegistry m)
    (base : Path) : List Path → m (List FileReport)
  | [] => pure []
  | path :: rest => do
    let first ← fileReport files settings registry base path
    let others ← fileReports files settings registry base rest
    return first :: others

def run (files : FileSystem) (settings : RuleSettings) (registry : ActionRegistry m) (base : Path)
    (paths : List Path) : m Report := do
  return .ofFiles (← fileReports files settings registry base paths)

end Lint

end WorkflowLint

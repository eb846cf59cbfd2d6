import WorkflowLint.CommandLine.Help
import WorkflowLint.CommandLine.Reader
import WorkflowLint.Config.Settings
import WorkflowLint.Discovery
import WorkflowLint.Http.Client
import WorkflowLint.Json.Printer
import WorkflowLint.Lint
import WorkflowLint.Registry.Basic
import WorkflowLint.Report.Document
import WorkflowLint.Report.Text
import WorkflowLint.Terminal

/-! A run of the program: from its arguments and surroundings to what it prints and its exit code. -/

set_option autoImplicit false

namespace WorkflowLint

structure Surroundings where
  files : FileSystem
  environment : List (String × String)

/-- Colours are on unless a variable, whatever its value, turns them off. -/
def Surroundings.coloured (surroundings : Surroundings) : Bool :=
  (surroundings.environment.lookup "NO_COLOR").isNone

inductive OutputMode where
  | human
  | json
  deriving DecidableEq, Repr

def OutputMode.ofName? (name : String) : Option OutputMode :=
  [("human", .human), ("json", .json)].lookup name

structure RunResult where
  exitCode : Nat
  output : String := ""
  errors : String := ""
  deriving DecidableEq, Repr

/-- The settings of the configuration that hold for a request. A switch that is not set leaves them alone. -/
def LintRequest.settings (request : LintRequest) (files : FileSystem) : Settings :=
  let overrides : Overrides :=
    { output := request.output
      strict := if request.strict then some true else none
      offline := if request.offline then some true else none }
  .resolve files overrides ⟨request.root.getD "."⟩

namespace Program

def version : String := "0.1.0"

def noInputExitCode : Nat := 255

def usageExitCode : Nat := 2

def errorLine (coloured : Bool) (text : String) : String :=
  Terminal.errorBanner coloured ++ " " ++ text ++ "\n"

def unknownMode (coloured : Bool) (name : String) : RunResult :=
  { exitCode := usageExitCode
    errors := errorLine coloured ("unknown output mode '" ++ name ++ "' (expected human|json)") }

def noFiles (coloured : Bool) (inputs : List String) : RunResult :=
  { exitCode := noInputExitCode
    errors := errorLine coloured
      ("File(s)/Directory: \"" ++ " ".intercalate inputs ++ "\" does not exist, exiting.") }

def summaryLine (coloured : Bool) (summary : Summary) : String :=
  if 0 < summary.errors + summary.warnings then
    Terminal.infoBanner coloured ++ " " ++ toString summary.errors ++ " error(s), " ++
      toString summary.warnings ++ " warning(s) in " ++ toString summary.files ++ " file(s)\n"
  else ""

def printed (mode : OutputMode) (coloured strict : Bool) (report : Report) : RunResult :=
  let exitCode := report.severity.exitCode strict
  match mode with
  | .human =>
    { exitCode := exitCode
      output := report.text coloured
      errors := summaryLine coloured report.summary }
  | .json => { exitCode := exitCode, output := report.document.pretty ++ "\n" }

def registryFor (settings : Settings) : ActionRegistry Registry.Task :=
  if settings.offline then .offline else Registry.remembering settings.registry

variable {σ : Type}

def report (server : Http.Server σ) (surroundings : Surroundings) (settings : Settings)
    (paths : List Path) (state : σ) : Report × σ :=
  let files := surroundings.files
  let client := Http.Client.ofToken (surroundings.environment.lookup settings.tokenVariable)
  let work := Lint.run files settings.rules (registryFor settings) files.workingPath paths
  let outcome := work.run (client.transport server) .empty state
  (outcome.value, outcome.state)

def lint (server : Http.Server σ) (surroundings : Surroundings) (request : LintRequest) (state : σ) :
    RunResult × σ :=
  let coloured := surroundings.coloured
  let settings := request.settings surroundings.files
  match OutputMode.ofName? settings.output with
  | none => (unknownMode coloured settings.output, state)
  | some mode =>
    match Discovery.workflowFiles surroundings.files request.inputs with
    | [] => (noFiles coloured request.inputs, state)
    | paths =>
      let (report, state) := report server surroundings settings paths state
      (printed mode coloured settings.strict report, state)

def stopped (coloured : Bool) : CommandLine.Stop → RunResult
  | .help scope => { exitCode := 0, output := CommandLine.help scope }
  | .version => { exitCode := 0, output := "wflint " ++ version ++ "\n" }
  | .noArguments => { exitCode := usageExitCode, errors := CommandLine.help .program }
  | .mistake cause => { exitCode := usageExitCode, errors := errorLine coloured cause.message }

def run (server : Http.Server σ) (surroundings : Surroundings) (arguments : List String) (state : σ) :
    RunResult × σ :=
  match CommandLine.read arguments with
  | .error stop => (stopped surroundings.coloured stop, state)
  | .ok line =>
    match line.command with
    | .version => ({ exitCode := 0, output := version ++ "\n" }, state)
    | .lint request => lint server surroundings request state

end Program

end WorkflowLint

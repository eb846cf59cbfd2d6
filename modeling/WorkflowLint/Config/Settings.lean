import WorkflowLint.Config.Load
import WorkflowLint.Registry.Settings
import WorkflowLint.Rules

/-! The settings of a run: what the command line says, else the configuration, else the default, field by
field. -/

set_option autoImplicit false

namespace WorkflowLint

structure Overrides where
  output : Option String := none
  strict : Option Bool := none
  offline : Option Bool := none
  deriving DecidableEq, Repr

structure Settings where
  root : Path
  output : String
  strict : Bool
  offline : Bool
  /-- In seconds. -/
  timeout : Nat
  tokenVariable : String
  rules : RuleSettings
  registry : Registry.Settings
  deriving DecidableEq, Repr

namespace Settings

/-- The settings for a root directory and its configuration. The owner whose actions are internal is the
same for the rules and the registry. -/
def merge (overrides : Overrides) (config : Config) (root : Path) : Settings :=
  let rules := config.rules.getD {}
  let registry := config.registry.getD {}
  let internalNamespace := rules.internalNamespace.getD ({} : RuleSettings).internalNamespace
  { root := root
    output := (overrides.output <|> config.output).getD "human"
    strict := (overrides.strict <|> config.strict).getD false
    offline := (overrides.offline <|> registry.offline).getD false
    timeout := registry.timeout.getD 10
    tokenVariable := registry.tokenVariable.getD "GITHUB_TOKEN"
    rules :=
      { internalNamespace := internalNamespace
        floatingRunnerMarker :=
          rules.floatingRunnerMarker.getD ({} : RuleSettings).floatingRunnerMarker }
    registry :=
      { apiUrl := registry.apiUrl.getD Registry.defaultApiUrl
        webUrl := registry.webUrl.getD Registry.defaultWebUrl
        internalNamespace := internalNamespace } }

def resolve (files : FileSystem) (overrides : Overrides) (start : Path) : Settings :=
  let root := Config.rootFrom files.contains start
  merge overrides ((Config.load files root).getD {}) root

end Settings

end WorkflowLint

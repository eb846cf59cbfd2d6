import WorkflowLint.Proofs.Config.OfToml
import WorkflowLint.Proofs.Config.OfYaml
import WorkflowLint.Proofs.Config.Root

/-! Where the value of each setting comes from: the command line, else the configuration, else the default.
Each key is decided by itself, but a configuration counts only as a whole. -/

set_option autoImplicit false

namespace WorkflowLint

open Config (Key)

def Overrides.get? (overrides : Overrides) : (key : Key) → Option key.kind.Value
  | .output => overrides.output
  | .strict => overrides.strict
  | .offline => overrides.offline
  | .internalNamespace | .floatingRunnerMarker | .apiUrl | .webUrl | .timeout | .tokenVariable => none

def Config.Key.default : (key : Key) → key.kind.Value
  | .output => "human"
  | .strict => false
  | .internalNamespace => "bitwarden"
  | .floatingRunnerMarker => "-latest"
  | .apiUrl => "https://api.github.com"
  | .webUrl => "https://github.com"
  | .timeout => (10 : Nat)
  | .tokenVariable => "GITHUB_TOKEN"
  | .offline => false

namespace Config

theorem Format.readKey_of_read {format : Format} {text : String} {config : Config}
    (reads : format.read text = some config) (key : Key) :
    format.readKey key text = some (config.get? key) := by
  cases format with
  | toml => exact readKey_toml reads key
  | yaml =>
    cases read : ofYaml text with
    | error e =>
      rw [Format.read, read] at reads
      cases reads
    | ok other =>
      rw [Format.read, read] at reads
      cases reads
      exact readKey_yaml read key

/-- In a document of this format aliases are followed more often than the limit for all of it allows. -/
def Format.Overruns (text : String) : Format → Prop
  | .toml => False
  | .yaml => ofYaml text = .error .tooManyRepetitions

theorem Format.read_isSome_iff {format : Format} {text : String} :
    (format.read text).isSome = true ↔
      (∀ key, (format.readKey key text).isSome = true) ∧ ¬format.Overruns text := by
  cases format with
  | toml => exact ofToml_isSome_iff.trans (and_iff_left id).symm
  | yaml => exact ofYaml_isSome_iff

def firstIn (files : FileSystem) (directory : Path) : Option (String × Format) :=
  [("wflint.toml", .toml), ("wflint.yaml", .yaml), ("wflint.yml", .yaml)].find? fun entry =>
    files.contains (directory.child entry.1)

variable {files : FileSystem} {directory : Path} {name : String} {format : Format}

theorem load_of_firstIn (found : firstIn files directory = some (name, format)) :
    load files directory =
      (files.readText (directory.child name)).toOption.bind fun text => format.read text := by
  rw [load_eq]
  exact congrArg (Option.bind · _) found

theorem load_of_missing (missing : firstIn files directory = none) : load files directory = none := by
  rw [load_eq]
  exact congrArg (Option.bind · _) missing

/-- A configuration counts for nothing where one key in it is wrong. -/
theorem load_of_wrong (found : firstIn files directory = some (name, format))
    (wrong : ∀ text, files.readText (directory.child name) = .ok text →
      (∃ key, format.readKey key text = none) ∨ format.Overruns text) : load files directory = none := by
  rw [load_of_firstIn found]
  cases read : files.readText (directory.child name) with
  | error e => rfl
  | ok text =>
    refine Option.not_isSome_iff_eq_none.mp fun right => ?_
    obtain ⟨each, within⟩ := Format.read_isSome_iff.mp right
    rcases wrong text read with ⟨key, failed⟩ | overruns
    · have given := each key
      rw [failed] at given
      cases given
    · exact within overruns

end Config

theorem Config.get?_empty (key : Key) : ({} : Config).get? key = none := by
  cases key <;> rfl

namespace Settings

/-- The settings that have a value for each key; the rules and the registry share one of them. -/
def ofKeys (root : Path) (value : (key : Key) → key.kind.Value) : Settings where
  root := root
  output := value .output
  strict := value .strict
  offline := value .offline
  timeout := value .timeout
  tokenVariable := value .tokenVariable
  rules :=
    { internalNamespace := value .internalNamespace
      floatingRunnerMarker := value .floatingRunnerMarker }
  registry :=
    { apiUrl := value .apiUrl
      webUrl := value .webUrl
      internalNamespace := value .internalNamespace }

theorem merge_eq (overrides : Overrides) (config : Config) (root : Path) :
    merge overrides config root =
      ofKeys root fun key => (overrides.get? key <|> config.get? key).getD key.default := by
  obtain ⟨output, strict, rules, registry⟩ := config
  cases rules <;> cases registry <;> rfl

theorem ofKeys_with_root (root other : Path) (value : (key : Key) → key.kind.Value) :
    { ofKeys root value with root := other } = ofKeys other value := rfl

section Resolving

variable {files : FileSystem} {overrides : Overrides} {start : Path}

theorem resolve_of_load {config : Config}
    (loads : Config.load files (Config.rootFrom files.contains start) = some config) :
    resolve files overrides start = ofKeys (Config.rootFrom files.contains start) fun key =>
      (overrides.get? key <|> config.get? key).getD key.default := by
  rw [resolve, loads, Option.getD_some, merge_eq]

theorem resolve_of_not_load (fails : Config.load files (Config.rootFrom files.contains start) = none) :
    resolve files overrides start = ofKeys (Config.rootFrom files.contains start) fun key =>
      (overrides.get? key).getD key.default := by
  rw [resolve, fails, Option.getD_none, merge_eq]
  refine congrArg (ofKeys _) (funext fun key => ?_)
  rw [Config.get?_empty]
  cases overrides.get? key <;> rfl

end Resolving

def twoConfigs (text : String) : FileSystem where
  root := .directory
    [("wflint.toml", .file text.toUTF8), ("wflint.yaml", .file "strict: true\noutput: json".toUTF8)]
  workingDirectory := []

end Settings

end WorkflowLint

import WorkflowLint.Config.Load
import WorkflowLint.Proofs.Yaml.Covers

/-! The keys of a configuration, each read by itself. What a configuration says under a key is what it says
there when everything else in it is passed over. -/

set_option autoImplicit false

namespace WorkflowLint.Config

open Toml (field fieldsOf)
open Yaml.Decoder (alone)

inductive Kind where
  | text
  | flag
  | word
  deriving DecidableEq, Repr

def Kind.Value : Kind → Type
  | .text => String
  | .flag => Bool
  | .word => Nat

instance : (kind : Kind) → DecidableEq kind.Value
  | .text => inferInstanceAs (DecidableEq String)
  | .flag => inferInstanceAs (DecidableEq Bool)
  | .word => inferInstanceAs (DecidableEq Nat)

def Kind.ofToml : (kind : Kind) → Toml.Value → Option kind.Value
  | .text => Toml.Value.text?
  | .flag => Toml.Value.flag?
  | .word => Toml.Value.word?

def Kind.ofYaml : (kind : Kind) → Yaml.Context → Yaml.Node → Yaml.Decoder kind.Value
  | .text => Yaml.Decoder.text "a string"
  | .flag => Yaml.Decoder.bool
  | .word => Yaml.Decoder.word

inductive Part where
  | rules
  | registry
  deriving DecidableEq, Repr

def Part.name : Part → String
  | .rules => "rules"
  | .registry => "registry"

def Part.names : Part → List String
  | .rules => ["internal_namespace", "floating_runner_marker"]
  | .registry => ["api_url", "web_url", "timeout_secs", "token_env", "offline"]

inductive Key where
  | output
  | strict
  | internalNamespace
  | floatingRunnerMarker
  | apiUrl
  | webUrl
  | timeout
  | tokenVariable
  | offline
  deriving DecidableEq, Repr

namespace Key

def part? : Key → Option Part
  | .output | .strict => none
  | .internalNamespace | .floatingRunnerMarker => some .rules
  | .apiUrl | .webUrl | .timeout | .tokenVariable | .offline => some .registry

def name : Key → String
  | .output => "output"
  | .strict => "strict"
  | .internalNamespace => "internal_namespace"
  | .floatingRunnerMarker => "floating_runner_marker"
  | .apiUrl => "api_url"
  | .webUrl => "web_url"
  | .timeout => "timeout_secs"
  | .tokenVariable => "token_env"
  | .offline => "offline"

def kind : Key → Kind
  | .output | .internalNamespace | .floatingRunnerMarker | .apiUrl | .webUrl | .tokenVariable => .text
  | .strict | .offline => .flag
  | .timeout => .word

def inTable (key : Key) (entries : Toml.Entries) : Option (Option key.kind.Value) :=
  field entries key.name key.kind.ofToml

/-- Reads one key of a TOML document: a value, none where the key is missing, or a failure. -/
def inToml (key : Key) (entries : Toml.Entries) : Option (Option key.kind.Value) :=
  match key.part? with
  | none => key.inTable entries
  | some part =>
    (field entries part.name fun value => (fieldsOf part.names value).bind key.inTable).map Option.join

def inMapping (key : Key) : Yaml.Context → Yaml.Node → Yaml.Decoder (Option key.kind.Value) :=
  alone "a mapping" key.name (Yaml.Decoder.optional key.kind.ofYaml) none

/-- The name under which a document has the key, or the part that the key belongs to. -/
def label (key : Key) : String :=
  match key.part? with
  | none => key.name
  | some part => part.name

def inEntry (key : Key) : Yaml.Context → Yaml.Node → Yaml.Decoder (Option key.kind.Value) :=
  match key.part? with
  | none => Yaml.Decoder.optional key.kind.ofYaml
  | some _ => fun context node => return (← Yaml.Decoder.optional key.inMapping context node).join

def inYaml (key : Key) : Yaml.Context → Yaml.Node → Yaml.Decoder (Option key.kind.Value) :=
  alone "a mapping" key.label key.inEntry none

end Key

/-- Reads one key of a text: its value, none where the key is missing, or a failure. -/
def Format.readKey (key : Key) (text : String) : Format → Option (Option key.kind.Value)
  | .toml => (Toml.read text).bind key.inToml
  | .yaml => (Yaml.Decoder.run key.inYaml text).toOption

def ofRules (rules : RulesConfig) : (key : Key) → Option key.kind.Value
  | .internalNamespace => rules.internalNamespace
  | .floatingRunnerMarker => rules.floatingRunnerMarker
  | _ => none

def ofRegistry (registry : RegistryConfig) : (key : Key) → Option key.kind.Value
  | .apiUrl => registry.apiUrl
  | .webUrl => registry.webUrl
  | .timeout => registry.timeout
  | .tokenVariable => registry.tokenVariable
  | .offline => registry.offline
  | _ => none

/-- What a configuration says under a key. -/
def get? (config : Config) : (key : Key) → Option key.kind.Value
  | .output => config.output
  | .strict => config.strict
  | .internalNamespace => config.rules.bind (·.internalNamespace)
  | .floatingRunnerMarker => config.rules.bind (·.floatingRunnerMarker)
  | .apiUrl => config.registry.bind (·.apiUrl)
  | .webUrl => config.registry.bind (·.webUrl)
  | .timeout => config.registry.bind (·.timeout)
  | .tokenVariable => config.registry.bind (·.tokenVariable)
  | .offline => config.registry.bind (·.offline)

theorem get?_rules {key : Key} (grouped : key.part? = some .rules) (config : Config) :
    config.get? key = config.rules.bind fun rules => ofRules rules key := by
  cases key <;> first | exact absurd grouped (by decide) | rfl

theorem get?_registry {key : Key} (grouped : key.part? = some .registry) (config : Config) :
    config.get? key = config.registry.bind fun registry => ofRegistry registry key := by
  cases key <;> first | exact absurd grouped (by decide) | rfl

end WorkflowLint.Config

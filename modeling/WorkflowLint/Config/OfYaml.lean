import WorkflowLint.Config.Basic
import WorkflowLint.Yaml.Decoder

/-! Configurations from YAML documents. -/

set_option autoImplicit false

namespace WorkflowLint

open Yaml (Decoder)

namespace Config

def decodeText : Yaml.Context → Yaml.Node → Decoder (Option String) :=
  Decoder.optional (Decoder.text "a string")

def decodeFlag : Yaml.Context → Yaml.Node → Decoder (Option Bool) :=
  Decoder.optional Decoder.bool

def decodeRules : Yaml.Context → Yaml.Node → Decoder RulesConfig :=
  Decoder.record "the settings of the rules"
    [("internal_namespace", fun context rules node =>
        return { rules with internalNamespace := ← decodeText context node }),
      ("floating_runner_marker", fun context rules node =>
        return { rules with floatingRunnerMarker := ← decodeText context node })]
    {}

def decodeRegistry : Yaml.Context → Yaml.Node → Decoder RegistryConfig :=
  Decoder.record "the settings of the registry"
    [("api_url", fun context registry node =>
        return { registry with apiUrl := ← decodeText context node }),
      ("web_url", fun context registry node =>
        return { registry with webUrl := ← decodeText context node }),
      ("timeout_secs", fun context registry node =>
        return { registry with timeout := ← Decoder.optional Decoder.word context node }),
      ("token_env", fun context registry node =>
        return { registry with tokenVariable := ← decodeText context node }),
      ("offline", fun context registry node =>
        return { registry with offline := ← decodeFlag context node })]
    {}

def decode : Yaml.Context → Yaml.Node → Decoder Config :=
  Decoder.record "a configuration"
    [("output", fun context config node =>
        return { config with output := ← decodeText context node }),
      ("strict", fun context config node =>
        return { config with strict := ← decodeFlag context node }),
      ("rules", fun context config node =>
        return { config with rules := ← Decoder.optional decodeRules context node }),
      ("registry", fun context config node =>
        return { config with registry := ← Decoder.optional decodeRegistry context node })]
    {}

def ofYaml (text : String) : Except Yaml.Error Config := Decoder.run decode text

end Config

end WorkflowLint

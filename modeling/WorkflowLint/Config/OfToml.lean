import WorkflowLint.Config.Basic
import WorkflowLint.Toml.Reader

/-! Configurations from TOML documents. A part may also be an array that gives all its fields in
order. -/

set_option autoImplicit false

namespace WorkflowLint

namespace Toml

def Value.text? : Value → Option String
  | .string text => some text
  | _ => none

def Value.flag? : Value → Option Bool
  | .bool flag => some flag
  | _ => none

def Value.word? : Value → Option Nat
  | .integer n => if 0 ≤ n && n < Nat.pow 2 64 then some n.toNat else none
  | _ => none

/-- A field that may be missing, but must be right where it is given. -/
def field {α : Type} (entries : Entries) (name : String) (read : Value → Option α) : Option (Option α) :=
  match entries.lookup name with
  | none => some none
  | some value => (read value).map some

/-- The fields of a part: the entries of a table, or as many items of an array as there are names. -/
def fieldsOf (names : List String) : Value → Option Entries
  | .table _ entries => some entries
  | .array items => if items.length < names.length then none else some (names.zip items)
  | .tables elements => if elements.length < names.length then none else some (names.zip elements)
  | _ => none

end Toml

namespace Config

open Toml (field fieldsOf Value)

def readRules (value : Value) : Option RulesConfig := do
  let entries ← fieldsOf ["internal_namespace", "floating_runner_marker"] value
  return {
    internalNamespace := ← field entries "internal_namespace" Value.text?
    floatingRunnerMarker := ← field entries "floating_runner_marker" Value.text? }

def readRegistry (value : Value) : Option RegistryConfig := do
  let entries ← fieldsOf ["api_url", "web_url", "timeout_secs", "token_env", "offline"] value
  return {
    apiUrl := ← field entries "api_url" Value.text?
    webUrl := ← field entries "web_url" Value.text?
    timeout := ← field entries "timeout_secs" Value.word?
    tokenVariable := ← field entries "token_env" Value.text?
    offline := ← field entries "offline" Value.flag? }

def ofToml (text : String) : Option Config := do
  let entries ← Toml.read text
  return {
    output := ← field entries "output" Value.text?
    strict := ← field entries "strict" Value.flag?
    rules := ← field entries "rules" readRules
    registry := ← field entries "registry" readRegistry }

end Config

end WorkflowLint

import WorkflowLint.Proofs.Config.Keys

/-! Configurations in TOML, key by key: one is right just when each key by itself is, and then it says under
each key what is read for this key alone. -/

set_option autoImplicit false

namespace WorkflowLint.Config

open Toml (field fieldsOf)

variable {text : String} {config : Config} {entries : Toml.Entries} {α : Type}

theorem field_eq_some_iff {name : String} {read : Toml.Value → Option α} {found : Option α} :
    field entries name read = some found ↔
      (entries.lookup name = none ∧ found = none) ∨
        ∃ value given, entries.lookup name = some value ∧ read value = some given ∧ found = some given := by
  unfold field
  cases entries.lookup name with
  | none => simp [eq_comm]
  | some value => simp [eq_comm]

theorem readRules_eq_some_iff {value : Toml.Value} {rules : RulesConfig} :
    readRules value = some rules ↔ ∃ entries, fieldsOf Part.rules.names value = some entries ∧
      Key.internalNamespace.inTable entries = some rules.internalNamespace ∧
      Key.floatingRunnerMarker.inTable entries = some rules.floatingRunnerMarker := by
  simp only [readRules, Option.bind_eq_bind, Option.bind_eq_some_iff]
  constructor
  · rintro ⟨entries, read, internalNamespace, first, floatingRunnerMarker, second, made⟩
    cases made
    exact ⟨entries, read, first, second⟩
  · rintro ⟨entries, read, first, second⟩
    exact ⟨entries, read, _, first, _, second, rfl⟩

theorem readRegistry_eq_some_iff {value : Toml.Value} {registry : RegistryConfig} :
    readRegistry value = some registry ↔ ∃ entries, fieldsOf Part.registry.names value = some entries ∧
      Key.apiUrl.inTable entries = some registry.apiUrl ∧
      Key.webUrl.inTable entries = some registry.webUrl ∧
      Key.timeout.inTable entries = some registry.timeout ∧
      Key.tokenVariable.inTable entries = some registry.tokenVariable ∧
      Key.offline.inTable entries = some registry.offline := by
  simp only [readRegistry, Option.bind_eq_bind, Option.bind_eq_some_iff]
  constructor
  · rintro ⟨entries, read, _, apiUrl, _, webUrl, _, timeout, _, tokenVariable, _, offline, made⟩
    cases made
    exact ⟨entries, read, apiUrl, webUrl, timeout, tokenVariable, offline⟩
  · rintro ⟨entries, read, apiUrl, webUrl, timeout, tokenVariable, offline⟩
    exact ⟨entries, read, _, apiUrl, _, webUrl, _, timeout, _, tokenVariable, _, offline, rfl⟩

theorem ofToml_eq_some_iff : ofToml text = some config ↔ ∃ entries, Toml.read text = some entries ∧
    Key.output.inTable entries = some config.output ∧
    Key.strict.inTable entries = some config.strict ∧
    field entries Part.rules.name readRules = some config.rules ∧
    field entries Part.registry.name readRegistry = some config.registry := by
  simp only [ofToml, Option.bind_eq_bind, Option.bind_eq_some_iff]
  constructor
  · rintro ⟨entries, read, _, output, _, strict, _, rules, _, registry, made⟩
    cases made
    exact ⟨entries, read, output, strict, rules, registry⟩
  · rintro ⟨entries, read, output, strict, rules, registry⟩
    exact ⟨entries, read, _, output, _, strict, _, rules, _, registry, rfl⟩

/-- A part shows of a key what is read of it alone. -/
theorem inToml_of_part {key : Key} {part : Part} (grouped : key.part? = some part)
    {read : Toml.Value → Option α} {get : α → Option key.kind.Value}
    (reads : ∀ value given, read value = some given →
      (fieldsOf part.names value).bind key.inTable = some (get given))
    {found : Option α} (given : field entries part.name read = some found) :
    key.inToml entries = some (found.bind get) := by
  rw [Key.inToml, grouped]
  rcases field_eq_some_iff.mp given with ⟨missing, rfl⟩ | ⟨value, shown, written, right, rfl⟩
  · simp [field, missing]
  · simp only [field, written, reads value shown right, Option.map_some, Option.join_some, Option.bind_some]

theorem inTable_of_readRules {key : Key} (grouped : key.part? = some .rules) {value : Toml.Value}
    {rules : RulesConfig} (reads : readRules value = some rules) :
    (fieldsOf Part.rules.names value).bind key.inTable = some (ofRules rules key) := by
  obtain ⟨inner, fields, internalNamespace, floatingRunnerMarker⟩ := readRules_eq_some_iff.mp reads
  rw [fields, Option.bind_some]
  cases key <;> first | exact absurd grouped (by decide) | assumption

theorem inTable_of_readRegistry {key : Key} (grouped : key.part? = some .registry) {value : Toml.Value}
    {registry : RegistryConfig} (reads : readRegistry value = some registry) :
    (fieldsOf Part.registry.names value).bind key.inTable = some (ofRegistry registry key) := by
  obtain ⟨inner, fields, apiUrl, webUrl, timeout, tokenVariable, offline⟩ :=
    readRegistry_eq_some_iff.mp reads
  rw [fields, Option.bind_some]
  cases key <;> first | exact absurd grouped (by decide) | assumption

theorem readKey_toml (reads : ofToml text = some config) (key : Key) :
    Format.toml.readKey key text = some (config.get? key) := by
  obtain ⟨entries, read, output, strict, rules, registry⟩ := ofToml_eq_some_iff.mp reads
  have alone : Format.toml.readKey key text = key.inToml entries := congrArg (Option.bind · key.inToml) read
  rw [alone]
  cases grouped : key.part? with
  | none =>
    rw [Key.inToml, grouped]
    cases key with
    | output => exact output
    | strict => exact strict
    | _ => cases grouped
  | some part =>
    cases part with
    | rules =>
      rw [get?_rules grouped]
      exact inToml_of_part grouped (fun _ _ => inTable_of_readRules grouped) rules
    | registry =>
      rw [get?_registry grouped]
      exact inToml_of_part grouped (fun _ _ => inTable_of_readRegistry grouped) registry

theorem field_isSome_iff {name : String} {read : Toml.Value → Option α} :
    (field entries name read).isSome = true ↔
      ∀ value, entries.lookup name = some value → (read value).isSome = true := by
  unfold field
  cases entries.lookup name with
  | none => simp
  | some value => simp

theorem inToml_isSome_iff {key : Key} {part : Part} (grouped : key.part? = some part) :
    (key.inToml entries).isSome = true ↔ ∀ value, entries.lookup part.name = some value →
      ((fieldsOf part.names value).bind key.inTable).isSome = true := by
  rw [Key.inToml, grouped, Option.isSome_map, field_isSome_iff]

theorem readRules_isSome {value : Toml.Value}
    (each : ∀ key : Key, key.part? = some .rules →
      ((fieldsOf Part.rules.names value).bind key.inTable).isSome = true) :
    (readRules value).isSome = true := by
  have first := each .internalNamespace rfl
  cases fields : fieldsOf Part.rules.names value with
  | none => simp [fields] at first
  | some inner =>
    simp only [fields, Option.bind_some] at each
    obtain ⟨internalNamespace, first⟩ := Option.isSome_iff_exists.mp (each .internalNamespace rfl)
    obtain ⟨floatingRunnerMarker, second⟩ := Option.isSome_iff_exists.mp (each .floatingRunnerMarker rfl)
    exact Option.isSome_iff_exists.mpr ⟨⟨internalNamespace, floatingRunnerMarker⟩,
      readRules_eq_some_iff.mpr ⟨inner, fields, first, second⟩⟩

theorem readRegistry_isSome {value : Toml.Value}
    (each : ∀ key : Key, key.part? = some .registry →
      ((fieldsOf Part.registry.names value).bind key.inTable).isSome = true) :
    (readRegistry value).isSome = true := by
  have first := each .apiUrl rfl
  cases fields : fieldsOf Part.registry.names value with
  | none => simp [fields] at first
  | some inner =>
    simp only [fields, Option.bind_some] at each
    obtain ⟨apiUrl, first⟩ := Option.isSome_iff_exists.mp (each .apiUrl rfl)
    obtain ⟨webUrl, second⟩ := Option.isSome_iff_exists.mp (each .webUrl rfl)
    obtain ⟨timeout, third⟩ := Option.isSome_iff_exists.mp (each .timeout rfl)
    obtain ⟨tokenVariable, fourth⟩ := Option.isSome_iff_exists.mp (each .tokenVariable rfl)
    obtain ⟨offline, fifth⟩ := Option.isSome_iff_exists.mp (each .offline rfl)
    exact Option.isSome_iff_exists.mpr ⟨⟨apiUrl, webUrl, timeout, tokenVariable, offline⟩,
      readRegistry_eq_some_iff.mpr ⟨inner, fields, first, second, third, fourth, fifth⟩⟩

theorem ofToml_isSome_iff :
    (ofToml text).isSome = true ↔ ∀ key, (Format.toml.readKey key text).isSome = true := by
  constructor
  · intro right key
    obtain ⟨config, reads⟩ := Option.isSome_iff_exists.mp right
    rw [readKey_toml reads key, Option.isSome_some]
  · intro each
    have document := each .output
    simp only [Format.readKey] at each document
    cases read : Toml.read text with
    | none => simp [read] at document
    | some entries =>
      simp only [read, Option.bind_some] at each
      obtain ⟨output, first⟩ := Option.isSome_iff_exists.mp (each .output)
      obtain ⟨strict, second⟩ := Option.isSome_iff_exists.mp (each .strict)
      obtain ⟨rules, third⟩ := Option.isSome_iff_exists.mp <| field_isSome_iff.mpr fun value written =>
        readRules_isSome fun key grouped => (inToml_isSome_iff grouped).mp (each key) value written
      obtain ⟨registry, fourth⟩ := Option.isSome_iff_exists.mp <| field_isSome_iff.mpr fun value written =>
        readRegistry_isSome fun key grouped => (inToml_isSome_iff grouped).mp (each key) value written
      exact Option.isSome_iff_exists.mpr ⟨⟨output, strict, rules, registry⟩,
        ofToml_eq_some_iff.mpr ⟨entries, read, first, second, third, fourth⟩⟩

end WorkflowLint.Config

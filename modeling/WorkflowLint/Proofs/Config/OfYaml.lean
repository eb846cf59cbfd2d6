import WorkflowLint.Proofs.Config.Keys
import WorkflowLint.Proofs.Yaml.Passes

/-! Configurations in YAML, key by key: one is right just when each key by itself is, but for the limit on
aliases, and then it says under each key what is read for this key alone. -/

set_option autoImplicit false

namespace WorkflowLint.Config

open Yaml.Decoder (CoversNodes Bears alone coversNodes_alone coversNodes_text coversNodes_bool coversNodes_word
  Gives Passes Assembles passes_pure passes_optional mem_of_lookup run_eq_ok_iff)

theorem coversNodes_ofYaml (kind : Kind) : CoversNodes kind.ofYaml kind.ofYaml Eq :=
  match kind with
  | .text => coversNodes_text _
  | .flag => coversNodes_bool
  | .word => coversNodes_word

theorem coversNodes_optional_ofYaml (kind : Kind) :
    CoversNodes (Yaml.Decoder.optional kind.ofYaml) (Yaml.Decoder.optional kind.ofYaml) Eq := by
  intro context node
  refine ((coversNodes_ofYaml kind).optional context node).mono fun value result ⟨same, whole⟩ => ⟨?_, whole⟩
  cases same with
  | some same => rw [same]
  | none => rfl

theorem Key.name_injective {key other : Key} (same : key.name = other.name) : key = other := by
  cases key <;> cases other <;> first | rfl | exact absurd same (by decide)

def Key.field {α : Type} (set : (key : Key) → α → Option key.kind.Value → α) (key : Key) :
    String × Yaml.Decoder.Field α :=
  (key.name, fun context value node =>
    return set key value (← Yaml.Decoder.optional key.kind.ofYaml context node))

/-- A record with a field for each of some keys shows of a key what is read of it alone. -/
theorem coversNodes_fields {α : Type} {set : (key : Key) → α → Option key.kind.Value → α} {keys : List Key}
    {key : Key} {get : α → Option key.kind.Value} (expected : String) (member : key ∈ keys)
    (own : ∀ value given, get (set key value given) = given)
    (other : ∀ label ∈ keys, label ≠ key → ∀ value given, get (set label value given) = get value)
    {start : α} (missing : get start = none) :
    CoversNodes (Yaml.Decoder.record expected (keys.map (Key.field set)) start) key.inMapping
      fun value result => get value = result := by
  have bears : ∀ entry ∈ keys.map (Key.field set),
      Bears key.name get (Yaml.Decoder.optional key.kind.ofYaml) entry := by
    intro entry among
    obtain ⟨label, listed, rfl⟩ := List.mem_map.mp among
    by_cases same : label = key
    · subst same
      exact Bears.own (coversNodes_optional_ofYaml _) fun value given result shown => by rw [own, shown]
    · exact Bears.other (coversNodes_optional_ofYaml _) (fun named => same (Key.name_injective named))
        (other label listed same)
  have known : key.name ∈ (keys.map (Key.field set)).map Prod.fst :=
    List.mem_map.mpr ⟨key.field set, List.mem_map_of_mem member, rfl⟩
  exact coversNodes_alone expected "a mapping" known bears missing

def setRule : (key : Key) → RulesConfig → Option key.kind.Value → RulesConfig
  | .internalNamespace, rules, given => { rules with internalNamespace := given }
  | .floatingRunnerMarker, rules, given => { rules with floatingRunnerMarker := given }
  | _, rules, _ => rules

theorem coversNodes_decodeRules {key : Key} (grouped : key.part? = some .rules) :
    CoversNodes decodeRules key.inMapping fun rules result => ofRules rules key = result := by
  have record : decodeRules = Yaml.Decoder.record "the settings of the rules"
    ([.internalNamespace, .floatingRunnerMarker].map (Key.field setRule)) {} := rfl
  rw [record]
  refine coversNodes_fields _ ?_ ?_ ?_ ?_
  · cases key <;> first | exact absurd grouped (by decide) | simp
  · cases key <;> first | exact absurd grouped (by decide) | exact fun _ _ => rfl
  · intro label _ different value given
    cases key <;> cases label <;> first | exact absurd grouped (by decide) | rfl | exact absurd rfl different
  · cases key <;> rfl

def setRegistry : (key : Key) → RegistryConfig → Option key.kind.Value → RegistryConfig
  | .apiUrl, registry, given => { registry with apiUrl := given }
  | .webUrl, registry, given => { registry with webUrl := given }
  | .timeout, registry, given => { registry with timeout := given }
  | .tokenVariable, registry, given => { registry with tokenVariable := given }
  | .offline, registry, given => { registry with offline := given }
  | _, registry, _ => registry

theorem coversNodes_decodeRegistry {key : Key} (grouped : key.part? = some .registry) :
    CoversNodes decodeRegistry key.inMapping fun registry result => ofRegistry registry key = result := by
  have record : decodeRegistry = Yaml.Decoder.record "the settings of the registry"
    ([.apiUrl, .webUrl, .timeout, .tokenVariable, .offline].map (Key.field setRegistry)) {} := rfl
  rw [record]
  refine coversNodes_fields _ ?_ ?_ ?_ ?_
  · cases key <;> first | exact absurd grouped (by decide) | simp
  · cases key <;> first | exact absurd grouped (by decide) | exact fun _ _ => rfl
  · intro label _ different value given
    cases key <;> cases label <;> first | exact absurd grouped (by decide) | rfl | exact absurd rfl different
  · cases key <;> rfl

theorem coversNodes_part {α : Type} {full : Yaml.Context → Yaml.Node → Yaml.Decoder α} {key : Key}
    {get : α → Option key.kind.Value}
    (covers : CoversNodes full key.inMapping fun value result => get value = result) :
    CoversNodes (Yaml.Decoder.optional full)
      (fun context node => return (← Yaml.Decoder.optional key.inMapping context node).join)
      fun value result => value.bind get = result := by
  intro context node
  refine (covers.optional context node).mapPart fun value result ⟨related, whole⟩ => ⟨?_, whole⟩
  cases related with
  | some same => exact same
  | none => rfl

theorem coversNodes_decode (key : Key) :
    CoversNodes decode key.inYaml fun config result => config.get? key = result := by
  have output := coversNodes_optional_ofYaml .text
  have strict := coversNodes_optional_ofYaml .flag
  -- What a part covers matters only where the key is one of its own.
  have rules := coversNodes_part (coversNodes_decodeRules (show Key.internalNamespace.part? = _ from rfl))
  have registry := coversNodes_part (coversNodes_decodeRegistry (show Key.offline.part? = _ from rfl))
  cases grouped : key.part? with
  | none =>
    rw [Key.inYaml, Key.label, Key.inEntry, grouped]
    cases key with
    | output =>
      refine coversNodes_alone _ _ (by simp [Key.name]) ?_ rfl
      simp only [List.forall_mem_cons]
      exact ⟨.own output fun _ _ _ same => same, .other strict (by decide) fun _ _ => rfl,
        .other rules (by decide) fun _ _ => rfl, .other registry (by decide) fun _ _ => rfl, nofun⟩
    | strict =>
      refine coversNodes_alone _ _ (by simp [Key.name]) ?_ rfl
      simp only [List.forall_mem_cons]
      exact ⟨.other output (by decide) fun _ _ => rfl, .own strict fun _ _ _ same => same,
        .other rules (by decide) fun _ _ => rfl, .other registry (by decide) fun _ _ => rfl, nofun⟩
    | _ => cases grouped
  | some part =>
    rw [Key.inYaml, Key.label, Key.inEntry, grouped]
    cases part with
    | rules =>
      simp only [get?_rules grouped]
      refine coversNodes_alone _ _ (by simp [Part.name]) ?_ rfl
      simp only [List.forall_mem_cons]
      have own := coversNodes_part (coversNodes_decodeRules grouped)
      exact ⟨.other output (by decide) fun _ _ => rfl, .other strict (by decide) fun _ _ => rfl,
        .own own fun _ _ _ same => same, .other registry (by decide) fun _ _ => rfl, nofun⟩
    | registry =>
      simp only [get?_registry grouped]
      refine coversNodes_alone _ _ (by simp [Part.name]) ?_ rfl
      simp only [List.forall_mem_cons]
      have own := coversNodes_part (coversNodes_decodeRegistry grouped)
      exact ⟨.other output (by decide) fun _ _ => rfl, .other strict (by decide) fun _ _ => rfl,
        .other rules (by decide) fun _ _ => rfl, .own own fun _ _ _ same => same, nofun⟩

theorem readKey_yaml {text : String} {config : Config} (reads : ofYaml text = .ok config) (key : Key) :
    Format.yaml.readKey key text = some (config.get? key) := by
  obtain ⟨result, run, same⟩ := (coversNodes_decode key).run reads
  rw [Format.readKey, run, same]
  rfl

section Passing

variable {document : Yaml.Document} {context : Yaml.Context} {node : Yaml.Node}

/-- A record with a field for each of some keys can be read where each key by itself can be read. -/
theorem passes_fields {α : Type} {set : (key : Key) → α → Option key.kind.Value → α} {keys : List Key}
    {some_key : Key} (member : some_key ∈ keys) {expected : String} {start : α}
    (given : ∀ key ∈ keys, ∃ result, Gives (key.inMapping context node) document result) :
    Passes (Yaml.Decoder.record expected (keys.map (Key.field set)) start context node) document := by
  have assembles : Assembles (keys.map (Key.field set)) (fun key : { key // key ∈ keys } => key.1.name)
      (fun key => Yaml.Decoder.optional key.1.kind.ofYaml) document := by
    refine ⟨fun ⟨key, among⟩ => ?_, fun name field found => ?_, fun name field found => ?_⟩
    · refine Option.isSome_iff_exists.mp (List.lookup_isSome_iff.mpr ?_)
      exact ⟨key.field set, List.mem_map_of_mem among, beq_self_eq_true _⟩
    · obtain ⟨key, among, same⟩ := List.mem_map.mp (mem_of_lookup found)
      exact ⟨⟨key, among⟩, congrArg Prod.fst same⟩
    · obtain ⟨key, among, same⟩ := List.mem_map.mp (mem_of_lookup found)
      cases same
      intro context value node reads
      obtain ⟨result, gives⟩ := reads ⟨key, among⟩ rfl
      exact ((coversNodes_optional_ofYaml _ _ _).passes gives).bind fun _ _ => passes_pure _
  exact assembles.passes_record ⟨some_key, member⟩ fun key => given key.1 key.2

theorem passes_decodeRules
    (given : ∀ key : Key, key.part? = some .rules → ∃ result, Gives (key.inMapping context node) document result) :
    Passes (decodeRules context node) document := by
  refine @passes_fields _ _ _ _ setRule [.internalNamespace, .floatingRunnerMarker] _ List.mem_cons_self _ _
    fun key member => given key ?_
  revert key
  decide

theorem passes_decodeRegistry
    (given : ∀ key : Key, key.part? = some .registry →
      ∃ result, Gives (key.inMapping context node) document result) :
    Passes (decodeRegistry context node) document := by
  refine @passes_fields _ _ _ _ setRegistry [.apiUrl, .webUrl, .timeout, .tokenVariable, .offline] _
    List.mem_cons_self _ _ fun key member => given key ?_
  revert key
  decide

theorem passes_part {α : Type} {full : Yaml.Context → Yaml.Node → Yaml.Decoder α} {part : Part}
    {some_key : Key} (grouped : some_key.part? = some part)
    (passes : ∀ found, (∀ key : Key, key.part? = some part →
      ∃ result, Gives (key.inMapping context found) document result) → Passes (full context found) document)
    (given : ∀ key : Key, key.part? = some part → ∃ result, Gives (key.inEntry context node) document result) :
    Passes (Yaml.Decoder.optional full context node) document := by
  refine @passes_optional _ _ { key : Key // key.part? = some part } _ (fun key => key.1.inMapping) _ _ _
    ⟨some_key, grouped⟩ (fun ⟨key, among⟩ => ?_) fun found reads => ?_
  · obtain ⟨result, gives⟩ := given key among
    rw [Key.inEntry, among] at gives
    obtain ⟨value, gives, _⟩ := gives.of_bind
    exact ⟨value, gives⟩
  · exact passes found fun key among => reads ⟨key, among⟩

theorem passes_decode (given : ∀ key : Key, ∃ result, Gives (key.inYaml context node) document result) :
    Passes (decode context node) document := by
  refine @Assembles.passes_record _ _ _ _ Key.inEntry _ _ Key.label _ ?_ .output _ _ _ _ given
  refine ⟨fun key => by cases key <;> exact ⟨_, rfl⟩, fun name field found => ?_, fun name field found => ?_⟩
  · have member := mem_of_lookup found
    simp only [List.mem_cons, Prod.mk.injEq, List.not_mem_nil, or_false] at member
    rcases member with ⟨rfl, _⟩ | ⟨rfl, _⟩ | ⟨rfl, _⟩ | ⟨rfl, _⟩
    · exact ⟨.output, rfl⟩
    · exact ⟨.strict, rfl⟩
    · exact ⟨.internalNamespace, rfl⟩
    · exact ⟨.apiUrl, rfl⟩
  · have member := mem_of_lookup found
    simp only [List.mem_cons, Prod.mk.injEq, List.not_mem_nil, or_false] at member
    rcases member with ⟨rfl, rfl⟩ | ⟨rfl, rfl⟩ | ⟨rfl, rfl⟩ | ⟨rfl, rfl⟩
    · intro context config node reads
      obtain ⟨result, gives⟩ := reads .output rfl
      exact ((coversNodes_optional_ofYaml .text _ _).passes gives).bind fun _ _ => passes_pure _
    · intro context config node reads
      obtain ⟨result, gives⟩ := reads .strict rfl
      exact ((coversNodes_optional_ofYaml .flag _ _).passes gives).bind fun _ _ => passes_pure _
    · intro context config node reads
      refine Passes.bind ?_ fun _ _ => passes_pure _
      exact passes_part (show Key.internalNamespace.part? = _ from rfl) (fun _ => passes_decodeRules)
        fun key grouped => reads key (by rw [Key.label, grouped]; rfl)
    · intro context config node reads
      refine Passes.bind ?_ fun _ _ => passes_pure _
      exact passes_part (show Key.offline.part? = _ from rfl) (fun _ => passes_decodeRegistry)
        fun key grouped => reads key (by rw [Key.label, grouped]; rfl)

end Passing

/-- A YAML configuration is right where each key by itself is, unless it follows aliases too often. -/
theorem ofYaml_isSome_iff {text : String} :
    (ofYaml text).toOption.isSome = true ↔ (∀ key, (Format.yaml.readKey key text).isSome = true) ∧
      ofYaml text ≠ .error .tooManyRepetitions := by
  constructor
  · intro right
    cases read : ofYaml text with
    | error e =>
      rw [read] at right
      cases right
    | ok config => exact ⟨fun key => by rw [readKey_yaml read key, Option.isSome_some], nofun⟩
  · rintro ⟨each, within⟩
    have reads : ∀ key : Key, ∃ result, Yaml.Decoder.run key.inYaml text = .ok result := fun key => by
      have right := each key
      rw [Format.readKey] at right
      cases read : Yaml.Decoder.run key.inYaml text with
      | error e =>
        rw [read] at right
        cases right
      | ok result => exact ⟨result, rfl⟩
    obtain ⟨_, output⟩ := reads .output
    have passes : Passes (decode Yaml.Decoder.root (Yaml.Document.ofText text).root)
        (Yaml.Document.ofText text) := passes_decode fun key => by
      obtain ⟨result, run⟩ := reads key
      obtain ⟨⟨after, gives⟩, _⟩ := run_eq_ok_iff.mp run
      exact ⟨result, 0, after, gives⟩
    rcases passes.run output with ⟨config, read⟩ | limit
    · rw [ofYaml, read]
      rfl
    · exact absurd limit within

end WorkflowLint.Config

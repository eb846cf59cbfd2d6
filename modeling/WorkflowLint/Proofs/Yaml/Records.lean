import WorkflowLint.Proofs.Yaml.Marks
import WorkflowLint.Proofs.Yaml.Unaliased

/-! Records whose entries are moved about, added and taken away.

An entry either is read by its own field, which must not have been met, or is passed. Two neighbours can be
taken the other way round where their fields leave each other alone, and so the order of all entries does
not matter. What is passed leaves the record as it is, wherever it stands. -/

set_option autoImplicit false

namespace WorkflowLint.Yaml

def Node.text? : Node → Option String
  | .scalar _ _ _ text => some text
  | _ => none

/-- A mapping before and after a change that makes no difference to a record with these labels: its entries
come in another order, or there is one more or one less whose key is a scalar and no label. -/
inductive RecordEdit (labels : List String) : Node → Node → Prop
  | permuted {mark : Mark} {tag : Option String} {entries entries' : List (Node × Node)} :
      entries.Perm entries' → RecordEdit labels (.mapping mark tag entries) (.mapping mark tag entries')
  | inserted {mark : Mark} {tag : Option String} (before after : List (Node × Node)) {key value : Node}
      {name : String} : key.text? = some name → name ∉ labels → value.isWhole = true →
      RecordEdit labels (.mapping mark tag (before ++ after)) (.mapping mark tag (before ++ (key, value) :: after))
  | deleted {mark : Mark} {tag : Option String} (before after : List (Node × Node)) {key value : Node}
      {name : String} : key.text? = some name → name ∉ labels →
      RecordEdit labels (.mapping mark tag (before ++ (key, value) :: after)) (.mapping mark tag (before ++ after))

/-- A mapping before and after a change of the value that stands between these entries, with this key. -/
inductive AtEntry (before after : List (Node × Node)) (name : String) (inside : Node → Node → Prop) :
    Node → Node → Prop
  | mk {mark : Mark} {tag : Option String} {key value value' : Node} :
      key.text? = some name → inside value value' →
      AtEntry before after name inside (.mapping mark tag (before ++ (key, value) :: after))
        (.mapping mark tag (before ++ (key, value') :: after))

def AtKey (name : String) (inside : Node → Node → Prop) (node node' : Node) : Prop :=
  ∃ before after, AtEntry before after name inside node node'

namespace Decoder

variable {α β : Type}

/-- Where a tree can be read, so can the tree after a change, and what is read has changed like this. -/
def Carries (decoder : Context → Node → Decoder α) (inside : Node → Node → Prop) (change : α → α → Prop) : Prop :=
  ∀ node node', inside node node' → ∀ context value, decoder context node = pure value →
    ∃ value', decoder context node' = pure value' ∧ change value value'

section Equations

theorem text_eq_pure_iff {expected name : String} {context : Context} {node : Node} :
    text expected context node = pure name ↔ node.text? = some name := by
  constructor
  · intro same
    have gives := congrFun (congrFun same nothing) 0
    cases node with
    | scalar mark tag style text =>
      cases gives
      rfl
    | _ => cases gives
  · intro same
    cases node with
    | scalar mark tag style text =>
      cases same
      rfl
    | _ => cases same

theorem keyStep_of_text {key : Node} {name : String} (named : key.text? = some name) :
    keyStep key = .key name := by
  cases key with
  | scalar mark tag style text =>
    cases named
    rfl
  | _ => cases named

theorem ignore_eq_pure_iff {node : Node} : ignore node = pure () ↔ node.isWhole = true := by
  unfold ignore
  split
  · next whole => exact iff_of_true rfl whole
  · next broken =>
    refine iff_of_false (fun same => ?_) broken
    cases congrFun (congrFun same nothing) 0

section Folds

variable {ι : Type} {step : β → ι → Decoder β} (steady : ∀ state item, Steady False (step state item))
include steady

theorem foldlM_cons_eq_pure_iff {item : ι} {rest : List ι} {start final : β} :
    (item :: rest).foldlM step start = pure final ↔
      ∃ state, step start item = pure state ∧ rest.foldlM step state = pure final := by
  rw [List.foldlM_cons]
  exact (steady start item).bind_eq_pure_iff fun state => Steady.foldlM (fun item _ state => steady state item) state

theorem foldlM_append_eq_pure_iff {before after : List ι} {start final : β} :
    (before ++ after).foldlM step start = pure final ↔
      ∃ state, before.foldlM step start = pure state ∧ after.foldlM step state = pure final := by
  rw [List.foldlM_append]
  have each : ∀ (items : List ι) state, Steady False (items.foldlM step state) := fun items state =>
    Steady.foldlM (fun item _ state => steady state item) state
  exact (each before start).bind_eq_pure_iff (each after)

theorem foldlM_concat_eq_pure_iff {items : List ι} {last : ι} {start final : β} :
    (items ++ [last]).foldlM step start = pure final ↔
      ∃ state, items.foldlM step start = pure state ∧ step state last = pure final := by
  rw [foldlM_append_eq_pure_iff steady]
  simp only [List.foldlM_cons, List.foldlM_nil, bind_pure]

end Folds

theorem foldEntries_eq_pure_iff {expected : String} {step : Context → β → Node × Node → Decoder β}
    (steady : ∀ inner state entry, Steady False (step inner state entry)) {start final : β} {context : Context}
    {mark : Mark} {tag : Option String} {entries : List (Node × Node)} :
    foldEntries expected step start context (.mapping mark tag entries) = pure final ↔
      ∃ inner, enter mark context = pure inner ∧ entries.foldlM (step inner) start = pure final := by
  have opened : foldEntries expected step start context (.mapping mark tag entries) =
      placed mark context.path (enter mark context >>= fun inner => entries.foldlM (step inner) start) := rfl
  rw [opened, placed_eq_pure_iff]
  have entered : Steady False (enter mark context) := steady_enter mark context
  exact entered.bind_eq_pure_iff fun inner => Steady.foldlM (fun entry _ state => steady inner state entry) start

end Equations

section Steps

variable {fields : List (String × Field α)} {inner : Context}

/-- What an entry makes of a record and of the labels met so far. -/
inductive Takes (fields : List (String × Field α)) (inner : Context) (state : List String × α) :
    Node × Node → List String × α → Prop
  | read {key item : Node} {name : String} {field : Field α} {value : α} :
      key.text? = some name → fields.lookup name = some field → name ∉ state.1 →
      field (Context.step inner (.key name)) state.2 item = pure value →
      Takes fields inner state (key, item) (name :: state.1, value)
  | passed {key item : Node} {name : String} :
      key.text? = some name → fields.lookup name = none → item.isWhole = true →
      Takes fields inner state (key, item) state

theorem SteadyFields.steps (steady : SteadyFields fields) (inner : Context) (state : List String × α)
    (entry : Node × Node) : Steady False (recordStep fields inner state entry) :=
  (steady.step inner state entry).mono False.elim

theorem recordStep_eq_pure_iff (steady : SteadyFields fields) {state state' : List String × α}
    {entry : Node × Node} : recordStep fields inner state entry = pure state' ↔
      Takes fields inner state entry state' := by
  obtain ⟨key, item⟩ := entry
  constructor
  · intro same
    cases key with
    | scalar mark tag style name =>
      have key : text "field identifier" inner (.scalar mark tag style name) = pure name := rfl
      rw [recordStep, key, pure_bind] at same
      split at same
      · next field found =>
        split at same
        · exact absurd same throw_ne_pure
        · next fresh =>
          have read : Steady _ (field (Context.step inner (.key name)) state.2 item) :=
            steady _ (mem_of_lookup found) _ _ _
          obtain ⟨value, given, rfl⟩ := read.map_eq_pure_iff.mp same
          exact .read rfl found (fun met => fresh (List.contains_iff_mem.mpr met)) given
      · next none =>
        have read : Steady False (ignore item) := steady_ignore item
        obtain ⟨_, passed, rfl⟩ := read.map_eq_pure_iff.mp same
        exact .passed rfl none (ignore_eq_pure_iff.mp passed)
    | _ => cases congrFun (congrFun same nothing) 0
  · rintro (⟨named, found, fresh, given⟩ | ⟨named, none, whole⟩)
    · rw [recordStep, text_eq_pure_iff.mpr named, pure_bind, found]
      simp only [List.contains_iff_mem, if_neg fresh, keyStep_of_text named, given, pure_bind]
    · rw [recordStep, text_eq_pure_iff.mpr named, pure_bind, none]
      simp only [ignore_eq_pure_iff.mpr whole, pure_bind]

def SameState (state other : List String × α) : Prop :=
  (∀ name, name ∈ state.1 ↔ name ∈ other.1) ∧ state.2 = other.2

theorem Takes.same {state state' other : List String × α} {entry : Node × Node}
    (takes : Takes fields inner state entry state') (same : SameState state other) :
    ∃ other', Takes fields inner other entry other' ∧ SameState state' other' := by
  obtain ⟨met, value⟩ := same
  cases takes with
  | read named found fresh given =>
    refine ⟨_, .read named found (mt (met _).mpr fresh) (value ▸ given), fun name => ?_, rfl⟩
    rw [List.mem_cons, List.mem_cons, met]
  | passed named none whole => exact ⟨other, .passed named none whole, met, value⟩

def Independent (field other : Field α) : Prop :=
  ∀ context context' node node' value middle result,
    field context value node = pure middle → other context' middle node' = pure result →
    ∃ middle', other context' value node' = pure middle' ∧ field context middle' node = pure result

def IndependentFields (fields : List (String × Field α)) : Prop :=
  ∀ entry ∈ fields, ∀ other ∈ fields, entry.1 ≠ other.1 → Independent entry.2 other.2

/-- Neighbours can be taken the other way round. -/
theorem Takes.swap (independent : IndependentFields fields) {start middle final : List String × α}
    {entry other : Node × Node} (first : Takes fields inner start entry middle)
    (second : Takes fields inner middle other final) :
    ∃ middle' final', Takes fields inner start other middle' ∧ Takes fields inner middle' entry final' ∧
      SameState final final' := by
  cases first with
  | passed named none whole => exact ⟨final, final, second, .passed named none whole, fun _ => .rfl, rfl⟩
  | @read key item name field value named found fresh given =>
    cases second with
    | passed named' none whole =>
      exact ⟨start, _, .passed named' none whole, .read named found fresh given, fun _ => .rfl, rfl⟩
    | @read key' item' name' field' value' named' found' fresh' given' =>
      obtain ⟨different, fresh_before⟩ := not_or.mp (mt List.mem_cons.mpr fresh')
      obtain ⟨between, given_first, given_last⟩ := independent _ (mem_of_lookup found) _ (mem_of_lookup found')
        (Ne.symm different) _ _ _ _ _ _ _ given given'
      refine ⟨_, _, .read named' found' fresh_before given_first, .read named found ?_ given_last, fun other => ?_, rfl⟩
      · exact fun met => (List.mem_cons.mp met).elim (fun same => different same.symm) fresh
      · simp only [List.mem_cons]
        tauto

end Steps

section Folds

variable {fields : List (String × Field α)} {inner : Context} (steady : SteadyFields fields)
include steady

theorem foldlM_same {entries : List (Node × Node)} {start other final : List String × α}
    (same : SameState start other) (run : entries.foldlM (recordStep fields inner) start = pure final) :
    ∃ final', entries.foldlM (recordStep fields inner) other = pure final' ∧ SameState final final' := by
  induction entries generalizing start other with
  | nil =>
    cases eq_of_pure_eq run
    exact ⟨other, rfl, same⟩
  | cons entry rest ih =>
    obtain ⟨middle, step, last⟩ := (foldlM_cons_eq_pure_iff (steady.steps inner)).mp run
    obtain ⟨middle', takes, alike⟩ := ((recordStep_eq_pure_iff steady).mp step).same same
    obtain ⟨final', finished, alike⟩ := ih alike last
    exact ⟨final', (foldlM_cons_eq_pure_iff (steady.steps inner)).mpr
      ⟨middle', (recordStep_eq_pure_iff steady).mpr takes, finished⟩, alike⟩

theorem foldlM_perm (independent : IndependentFields fields) {entries entries' : List (Node × Node)}
    (perm : entries.Perm entries') {start final : List String × α}
    (run : entries.foldlM (recordStep fields inner) start = pure final) :
    ∃ final', entries'.foldlM (recordStep fields inner) start = pure final' ∧ SameState final final' := by
  have cons_iff := @foldlM_cons_eq_pure_iff _ _ _ (steady.steps inner)
  induction perm generalizing start final with
  | nil => exact ⟨final, run, fun _ => .rfl, rfl⟩
  | cons entry _ ih =>
    obtain ⟨middle, step, last⟩ := cons_iff.mp run
    obtain ⟨final', finished, alike⟩ := ih last
    exact ⟨final', cons_iff.mpr ⟨middle, step, finished⟩, alike⟩
  | swap entry other rest =>
    obtain ⟨middle, step, run⟩ := cons_iff.mp run
    obtain ⟨between, step', last⟩ := cons_iff.mp run
    obtain ⟨middle', between', first, second, alike⟩ :=
      ((recordStep_eq_pure_iff steady).mp step).swap independent ((recordStep_eq_pure_iff steady).mp step')
    obtain ⟨final', finished, alike⟩ := foldlM_same steady alike last
    refine ⟨final', cons_iff.mpr ⟨middle', (recordStep_eq_pure_iff steady).mpr first, ?_⟩, alike⟩
    exact cons_iff.mpr ⟨between', (recordStep_eq_pure_iff steady).mpr second, finished⟩
  | trans _ _ ih ih' =>
    obtain ⟨middle, finished, alike⟩ := ih run
    obtain ⟨final', finished', alike'⟩ := ih' finished
    exact ⟨final', finished', fun name => (alike.1 name).trans (alike'.1 name), alike.2.trans alike'.2⟩

theorem foldlM_passed {before after : List (Node × Node)} {key item : Node} {name : String}
    (named : key.text? = some name) (foreign : fields.lookup name = none) {start final : List String × α} :
    (before ++ (key, item) :: after).foldlM (recordStep fields inner) start = pure final ↔
      item.isWhole = true ∧ (before ++ after).foldlM (recordStep fields inner) start = pure final := by
  rw [foldlM_append_eq_pure_iff (steady.steps inner), foldlM_append_eq_pure_iff (steady.steps inner)]
  constructor
  · rintro ⟨middle, first, run⟩
    obtain ⟨next, step, last⟩ := (foldlM_cons_eq_pure_iff (steady.steps inner)).mp run
    cases (recordStep_eq_pure_iff steady).mp step with
    | read named' found _ _ =>
      cases named.symm.trans named'
      cases foreign.symm.trans found
    | passed _ _ whole => exact ⟨whole, middle, first, last⟩
  · rintro ⟨whole, middle, first, last⟩
    refine ⟨middle, first, (foldlM_cons_eq_pure_iff (steady.steps inner)).mpr ⟨middle, ?_, last⟩⟩
    exact (recordStep_eq_pure_iff steady).mpr (.passed named foreign whole)

end Folds

section Records

variable {expected : String} {start : α}

theorem record_eq_pure_iff {fields : List (String × Field α)} (steady : SteadyFields fields) {context : Context}
    {mark : Mark} {tag : Option String} {entries : List (Node × Node)} {result : α} :
    record expected fields start context (.mapping mark tag entries) = pure result ↔
      ∃ inner seen, enter mark context = pure inner ∧
        entries.foldlM (recordStep fields inner) ([], start) = pure (seen, result) := by
  have folds : Steady False (foldEntries expected (recordStep fields) ([], start) context (.mapping mark tag entries)) :=
    (steady_foldEntries steady.step context _).mono False.elim
  rw [record_eq, folds.map_eq_pure_iff]
  constructor
  · rintro ⟨⟨seen, value⟩, folded, rfl⟩
    obtain ⟨inner, entered, run⟩ := (foldEntries_eq_pure_iff steady.steps).mp folded
    exact ⟨inner, seen, entered, run⟩
  · rintro ⟨inner, seen, entered, run⟩
    exact ⟨(seen, result), (foldEntries_eq_pure_iff steady.steps).mpr ⟨inner, entered, run⟩, rfl⟩

/-- A field that is read on its own and then put into the record. -/
structure Slot (α : Type) where
  label : String
  Content : Type
  read : Context → Node → Decoder Content
  put : α → Content → α
  steady : SteadyNodes read
  blind : Blind read

def Slot.field (slot : Slot α) : String × Field α :=
  (slot.label, fun context value node => return slot.put value (← slot.read context node))

/-- What is put into slots with different labels goes to different places. -/
def Apart (slots : List (Slot α)) : Prop :=
  ∀ slot ∈ slots, ∀ other ∈ slots, slot.label ≠ other.label → ∀ value given given',
    other.put (slot.put value given) given' = slot.put (other.put value given') given

theorem Slot.field_eq_pure_iff (slot : Slot α) {context : Context} {node : Node} {value result : α} :
    slot.field.2 context value node = pure result ↔
      ∃ given, slot.read context node = pure given ∧ slot.put value given = result :=
  (slot.steady context node).map_eq_pure_iff

variable {slots : List (Slot α)}

theorem steadyFields_slots (slots : List (Slot α)) : SteadyFields (slots.map Slot.field) := by
  intro entry member value context node
  obtain ⟨slot, _, rfl⟩ := List.mem_map.mp member
  exact (slot.steady context node).bind fun given => steady_pure (slot.put value given)

theorem blindFields_slots (slots : List (Slot α)) : BlindFields (slots.map Slot.field) := by
  intro entry member value context node
  obtain ⟨slot, _, rfl⟩ := List.mem_map.mp member
  exact (slot.blind context node).bind fun _ => .refl _

theorem Apart.independentFields (apart : Apart slots) : IndependentFields (slots.map Slot.field) := by
  intro entry member entry' member' different context context' node node' value middle result first second
  obtain ⟨slot, among, rfl⟩ := List.mem_map.mp member
  obtain ⟨other, among', rfl⟩ := List.mem_map.mp member'
  obtain ⟨given, read, rfl⟩ := slot.field_eq_pure_iff.mp first
  obtain ⟨given', read', rfl⟩ := other.field_eq_pure_iff.mp second
  refine ⟨other.put value given', other.field_eq_pure_iff.mpr ⟨given', read', rfl⟩, ?_⟩
  exact slot.field_eq_pure_iff.mpr ⟨given, read, (apart slot among other among' different value given given').symm⟩

theorem lookup_slots {name : String} : (slots.map Slot.field).lookup name = none ↔ name ∉ slots.map Slot.label := by
  rw [List.lookup_eq_none_iff, List.forall_mem_map, List.mem_map, not_exists]
  refine forall_congr' fun slot => ?_
  rw [not_and, bne_iff_ne, Slot.field]
  exact imp_congr_right fun _ => ne_comm

/-- Moving entries, and adding and taking away those that have no field, is not seen in a record. -/
theorem carries_recordEdit (apart : Apart slots) :
    Carries (record expected (slots.map Slot.field) start) (RecordEdit (slots.map Slot.label)) Eq := by
  have steady := steadyFields_slots slots
  intro node node' edit context result gives
  refine ⟨result, ?_, rfl⟩
  cases edit with
  | permuted perm =>
    obtain ⟨inner, seen, entered, run⟩ := (record_eq_pure_iff steady).mp gives
    obtain ⟨⟨seen', _⟩, run', _, rfl⟩ := foldlM_perm steady apart.independentFields perm run
    exact (record_eq_pure_iff steady).mpr ⟨inner, seen', entered, run'⟩
  | inserted before after named foreign whole =>
    obtain ⟨inner, seen, entered, run⟩ := (record_eq_pure_iff steady).mp gives
    have passed := (foldlM_passed steady named (lookup_slots.mpr foreign)).mpr ⟨whole, run⟩
    exact (record_eq_pure_iff steady).mpr ⟨inner, seen, entered, passed⟩
  | deleted before after named foreign =>
    obtain ⟨inner, seen, entered, run⟩ := (record_eq_pure_iff steady).mp gives
    have left := ((foldlM_passed steady named (lookup_slots.mpr foreign)).mp run).2
    exact (record_eq_pure_iff steady).mpr ⟨inner, seen, entered, left⟩

/-- A change of one value changes what is put there, and nothing else of the record. -/
theorem carries_atKey (apart : Apart slots) (slot : Slot α)
    (found : (slots.map Slot.field).lookup slot.label = some slot.field.2) {inside : Node → Node → Prop}
    {change : slot.Content → slot.Content → Prop} (carried : Carries slot.read inside change) :
    Carries (record expected (slots.map Slot.field) start) (AtKey slot.label inside) fun result result' =>
      ∃ value given given', slot.put value given = result ∧ slot.put value given' = result' ∧
        change given given' := by
  have steady := steadyFields_slots slots
  rintro _ _ ⟨before, after, ⟨named, related⟩⟩ context result gives
  obtain ⟨inner, seen, entered, run⟩ := (record_eq_pure_iff steady).mp gives
  -- The entry may as well be the last one: then the record is complete but for it.
  have last_perm : ∀ entry, (before ++ entry :: after).Perm ((before ++ after) ++ [entry]) := fun entry =>
    List.perm_middle.trans (List.perm_append_singleton entry _).symm
  obtain ⟨⟨seen', _⟩, run', -, rfl⟩ := foldlM_perm steady apart.independentFields (last_perm _) run
  obtain ⟨middle, others, step⟩ := (foldlM_concat_eq_pure_iff (steady.steps inner)).mp run'
  cases (recordStep_eq_pure_iff steady).mp step with
  | passed named' none _ =>
    cases named.symm.trans named'
    cases none.symm.trans found
  | read named' found' fresh read =>
    cases named.symm.trans named'
    cases found.symm.trans found'
    obtain ⟨given, slot_read, rfl⟩ := slot.field_eq_pure_iff.mp read
    obtain ⟨given', slot_read', changed⟩ := carried _ _ related _ _ slot_read
    have reread : slot.field.2 (Context.step inner (.key slot.label)) middle.2 _ = pure (slot.put middle.2 given') :=
      slot.field_eq_pure_iff.mpr ⟨given', slot_read', rfl⟩
    have retaken := (recordStep_eq_pure_iff steady).mpr (.read named found fresh reread)
    have rerun := (foldlM_concat_eq_pure_iff (steady.steps inner)).mpr ⟨middle, others, retaken⟩
    obtain ⟨⟨seen'', _⟩, back, -, rfl⟩ := foldlM_perm steady apart.independentFields (last_perm _).symm rerun
    exact ⟨_, (record_eq_pure_iff steady).mpr ⟨inner, seen'', entered, back⟩, middle.2, given, given', rfl, rfl, changed⟩

end Records

end Decoder

end WorkflowLint.Yaml

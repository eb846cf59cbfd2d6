import Mathlib.Data.List.Nodup
import WorkflowLint.Proofs.Yaml.Records

/-! Tables and lists when the tree that they are read of changes.

A table takes its entries one after another, so there the order is kept: entries with different keys move the
items along with them. A change of one value stays where it is, unless the same key comes again. -/

set_option autoImplicit false

namespace WorkflowLint

namespace Keyed

variable {κ β : Type} [BEq κ] [LawfulBEq κ]

theorem put_append (key : κ) (value : β) (front rest : List (κ × β)) :
    put key value (front ++ rest) =
      if key ∈ front.map Prod.fst then put key value front ++ rest else front ++ put key value rest := by
  induction front with
  | nil => simp
  | cons entry others ih =>
    by_cases same : entry.1 = key
    · simp [put, same]
    · have other : key ≠ entry.1 := Ne.symm same
      simp only [List.cons_append, put, beq_iff_eq, same, if_false, ih, List.map_cons, List.mem_cons, other, false_or]
      split <;> rfl

theorem put_fresh {key : κ} {table : List (κ × β)} (fresh : key ∉ table.map Prod.fst) (value : β) :
    put key value table = table ++ [(key, value)] := by
  have behind := put_append key value table []
  rwa [List.append_nil, if_neg fresh] at behind

theorem foldl_put_fresh {entries table : List (κ × β)} (distinct : ((table ++ entries).map Prod.fst).Nodup) :
    entries.foldl (fun table entry => put entry.1 entry.2 table) table = table ++ entries := by
  induction entries generalizing table with
  | nil => rw [List.foldl_nil, List.append_nil]
  | cons entry rest ih =>
    have fresh : entry.1 ∉ table.map Prod.fst := by
      rw [List.map_append, List.nodup_append] at distinct
      exact fun member => distinct.2.2 _ member _ List.mem_cons_self rfl
    rw [List.foldl_cons, put_fresh fresh, ih (by simpa using distinct), List.append_assoc, List.singleton_append]

def DifferAt (key : κ) (value value' : β) (table table' : List (κ × β)) : Prop :=
  ∃ front back, key ∉ front.map Prod.fst ∧
    table = front ++ (key, value) :: back ∧ table' = front ++ (key, value') :: back

theorem differAt_put (key : κ) (value value' : β) (table : List (κ × β)) :
    DifferAt key value value' (put key value table) (put key value' table) := by
  induction table with
  | nil => exact ⟨[], [], List.not_mem_nil, rfl, rfl⟩
  | cons entry rest ih =>
    by_cases same : entry.1 = key
    · refine ⟨[], rest, List.not_mem_nil, ?_, ?_⟩ <;> simp [put, same]
    · obtain ⟨front, back, absent, first, second⟩ := ih
      refine ⟨entry :: front, back, ?_, ?_, ?_⟩
      · simp [Ne.symm same, absent]
      · simp [put, same, first]
      · simp [put, same, second]

section DifferAt

variable {key : κ} {value value' : β} {table table' : List (κ × β)}

/-- A later value makes up for the difference. -/
theorem DifferAt.put_self (differ : DifferAt key value value' table table') (later : β) :
    put key later table = put key later table' := by
  obtain ⟨front, back, absent, rfl, rfl⟩ := differ
  simp [put_append, absent, put]

theorem DifferAt.put_other (differ : DifferAt key value value' table table') {other : κ} (ne : key ≠ other)
    (item : β) : DifferAt key value value' (put other item table) (put other item table') := by
  obtain ⟨front, back, absent, rfl, rfl⟩ := differ
  by_cases known : other ∈ front.map Prod.fst
  · refine ⟨put other item front, back, ?_, ?_, ?_⟩
    · rwa [keys_put, if_pos known]
    · rw [put_append, if_pos known]
    · rw [put_append, if_pos known]
  · refine ⟨front, put other item back, absent, ?_, ?_⟩
    · simp [put_append, known, put, ne]
    · simp [put_append, known, put, ne]

end DifferAt

end Keyed

namespace Yaml

def Node.isMapping : Node → Bool
  | .mapping .. => true
  | _ => false

inductive AtItem (inside : Node → Node → Prop) : Node → Node → Prop
  | mk {mark : Mark} {tag : Option String} (before after : List Node) {item item' : Node} :
      inside item item' →
      AtItem inside (.sequence mark tag (before ++ item :: after)) (.sequence mark tag (before ++ item' :: after))

/-- A mapping before and after its entries, all with different keys, are put in another order. -/
inductive Reordered (entries entries' : List (Node × Node)) : Node → Node → Prop
  | mk {mark : Mark} {tag : Option String} :
      entries.Perm entries' → (entries.map fun entry => entry.1.text?).Nodup →
      Reordered entries entries' (.mapping mark tag entries) (.mapping mark tag entries')

def BetweenMappings (inside : Node → Node → Prop) : Prop :=
  ∀ node node', inside node node' → node.isMapping = true ∧ node'.isMapping = true

theorem betweenMappings_atEntry (before after : List (Node × Node)) (name : String) (inside : Node → Node → Prop) :
    BetweenMappings (AtEntry before after name inside) := by
  rintro node node' ⟨named, related⟩
  exact ⟨rfl, rfl⟩

theorem betweenMappings_atKey (name : String) (inside : Node → Node → Prop) :
    BetweenMappings (AtKey name inside) := by
  rintro node node' ⟨before, after, edit⟩
  exact betweenMappings_atEntry before after name inside node node' edit

theorem betweenMappings_reordered (entries entries' : List (Node × Node)) :
    BetweenMappings (Reordered entries entries') := by
  rintro node node' ⟨perm, distinct⟩
  exact ⟨rfl, rfl⟩

namespace Decoder

variable {α β : Type} {decoder : Context → Node → Decoder α}

theorem Carries.mono {inside : Node → Node → Prop} {change change' : α → α → Prop}
    (carried : Carries decoder inside change) (implies : ∀ value value', change value value' → change' value value') :
    Carries decoder inside change' := by
  intro node node' related context value gives
  obtain ⟨value', gives', changed⟩ := carried node node' related context value gives
  exact ⟨value', gives', implies value value' changed⟩

def EntryReads (decoder : Context → Node → Decoder α) (inner : Context) (entry : Node × Node)
    (pair : String × α) : Prop :=
  entry.1.text? = some pair.1 ∧ decoder (Context.step inner (.key pair.1)) entry.2 = pure pair.2

def tableStep (decoder : Context → Node → Decoder α) (inner : Context) (entries : List (String × α))
    (entry : Node × Node) : Decoder (List (String × α)) := do
  let name ← text "a string" inner entry.1
  let item ← decoder (Context.step inner (keyStep entry.1)) entry.2
  return Keyed.put name item entries

section Steps

variable (steady : SteadyNodes decoder) {inner : Context}
include steady

theorem steady_tableStep (inner : Context) (entries : List (String × α)) (entry : Node × Node) :
    Steady False (tableStep decoder inner entries entry) := by
  refine ((steady_text "a string" inner entry.1).mono False.elim).bind fun name => ?_
  exact ((steady _ entry.2).mono False.elim).bind fun item => steady_pure _

theorem tableStep_eq_pure_iff {entries result : List (String × α)} {entry : Node × Node} :
    tableStep decoder inner entries entry = pure result ↔
      ∃ pair, EntryReads decoder inner entry pair ∧ Keyed.put pair.1 pair.2 entries = result := by
  have key_steady : Steady False (text "a string" inner entry.1) := (steady_text _ inner entry.1).mono False.elim
  have item_steady : Steady False (decoder (Context.step inner (keyStep entry.1)) entry.2) :=
    (steady _ entry.2).mono False.elim
  rw [tableStep, key_steady.bind_eq_pure_iff fun name => item_steady.bind fun item => steady_pure _]
  constructor
  · rintro ⟨name, named, same⟩
    obtain ⟨item, read, put⟩ := item_steady.map_eq_pure_iff.mp same
    have key := text_eq_pure_iff.mp named
    rw [keyStep_of_text key] at read
    exact ⟨(name, item), ⟨key, read⟩, put⟩
  · rintro ⟨⟨name, item⟩, ⟨key, read⟩, rfl⟩
    refine ⟨name, text_eq_pure_iff.mpr key, ?_⟩
    rw [keyStep_of_text key, read, pure_bind]

theorem reads_of_foldlM {entries : List (Node × Node)} {start result : List (String × α)}
    (run : entries.foldlM (tableStep decoder inner) start = pure result) :
    ∀ entry ∈ entries, ∃ pair, EntryReads decoder inner entry pair := by
  induction entries generalizing start with
  | nil => exact fun _ member => nomatch member
  | cons first rest ih =>
    obtain ⟨middle, step, last⟩ := (foldlM_cons_eq_pure_iff (steady_tableStep steady inner)).mp run
    obtain ⟨pair, reads, -⟩ := (tableStep_eq_pure_iff steady).mp step
    intro entry member
    rcases List.mem_cons.mp member with rfl | later
    · exact ⟨pair, reads⟩
    · exact ih last entry later

theorem foldlM_of_reads {entries : List (Node × Node)} {reading : Node × Node → String × α}
    (reads : ∀ entry ∈ entries, EntryReads decoder inner entry (reading entry)) (start : List (String × α)) :
    entries.foldlM (tableStep decoder inner) start =
      pure ((entries.map reading).foldl (fun table entry => Keyed.put entry.1 entry.2 table) start) := by
  induction entries generalizing start with
  | nil => rfl
  | cons first rest ih =>
    refine (foldlM_cons_eq_pure_iff (steady_tableStep steady inner)).mpr ⟨_, ?_, ih (fun entry member =>
      reads entry (List.mem_cons_of_mem _ member)) _⟩
    exact (tableStep_eq_pure_iff steady).mpr ⟨reading first, reads first List.mem_cons_self, rfl⟩

/-- Entries with different keys are read as a table of what each is read as. -/
theorem foldlM_of_distinct {entries : List (Node × Node)} {reading : Node × Node → String × α}
    (reads : ∀ entry ∈ entries, EntryReads decoder inner entry (reading entry))
    (distinct : (entries.map fun entry => entry.1.text?).Nodup) :
    entries.foldlM (tableStep decoder inner) [] = pure (entries.map reading) := by
  have keys : entries.map (fun entry => entry.1.text?) = ((entries.map reading).map Prod.fst).map some := by
    rw [List.map_map, List.map_map]
    exact List.map_congr_left fun entry member => (reads entry member).1
  rw [keys] at distinct
  rw [foldlM_of_reads steady reads, Keyed.foldl_put_fresh (List.Nodup.of_map some distinct), List.nil_append]

/-- A difference in one item stays until the same key comes again. -/
theorem foldlM_differAt {entries : List (Node × Node)} {name : String} {value value' : α}
    {table table' result : List (String × α)} (differ : Keyed.DifferAt name value value' table table')
    (run : entries.foldlM (tableStep decoder inner) table = pure result) :
    ∃ result', entries.foldlM (tableStep decoder inner) table' = pure result' ∧
      if some name ∈ entries.map (fun entry => entry.1.text?) then result' = result
      else Keyed.DifferAt name value value' result result' := by
  have cons_iff := @foldlM_cons_eq_pure_iff _ _ _ (steady_tableStep steady inner)
  induction entries generalizing table table' with
  | nil =>
    cases eq_of_pure_eq run
    exact ⟨table', rfl, differ⟩
  | cons first rest ih =>
    obtain ⟨_, step, last⟩ := cons_iff.mp run
    obtain ⟨⟨key, item⟩, ⟨named, read⟩, rfl⟩ := (tableStep_eq_pure_iff steady).mp step
    have step' : tableStep decoder inner table' first = pure (Keyed.put key item table') :=
      (tableStep_eq_pure_iff steady).mpr ⟨(key, item), ⟨named, read⟩, rfl⟩
    simp only [List.map_cons, List.mem_cons, named, Option.some.injEq]
    by_cases same : name = key
    · subst same
      have equal : Keyed.put name item table = Keyed.put name item table' := differ.put_self item
      refine ⟨result, cons_iff.mpr ⟨_, step', equal ▸ last⟩, ?_⟩
      rw [if_pos (Or.inl rfl)]
    · obtain ⟨result', finished, alike⟩ := ih (differ.put_other same item) last
      refine ⟨result', cons_iff.mpr ⟨_, step', finished⟩, ?_⟩
      simpa only [same, false_or] using alike

end Steps

section Tables

variable (steady : SteadyNodes decoder) {context : Context} {mark : Mark} {tag : Option String}
include steady

theorem table_eq_pure_iff {entries : List (Node × Node)} {result : List (String × α)} :
    table decoder context (.mapping mark tag entries) = pure result ↔
      ∃ inner, enter mark context = pure inner ∧ entries.foldlM (tableStep decoder inner) [] = pure result :=
  foldEntries_eq_pure_iff (steady_tableStep steady)

/-- A change of one value changes its item, unless a later entry has the same key. -/
theorem carries_atEntry {before after : List (Node × Node)} {name : String} {inside : Node → Node → Prop}
    {change : α → α → Prop} (carried : Carries decoder inside change) :
    Carries (table decoder) (AtEntry before after name inside) fun result result' =>
      if some name ∈ after.map (fun entry => entry.1.text?) then result' = result
      else ∃ value value', change value value' ∧ Keyed.DifferAt name value value' result result' := by
  rintro _ _ ⟨named, related⟩ context result gives
  obtain ⟨inner, entered, run⟩ := (table_eq_pure_iff steady).mp gives
  have append_iff := @foldlM_append_eq_pure_iff _ _ _ (steady_tableStep steady inner)
  have cons_iff := @foldlM_cons_eq_pure_iff _ _ _ (steady_tableStep steady inner)
  obtain ⟨table, front, run⟩ := append_iff.mp run
  obtain ⟨_, step, back⟩ := cons_iff.mp run
  obtain ⟨⟨key, value⟩, ⟨named', read⟩, rfl⟩ := (tableStep_eq_pure_iff steady).mp step
  obtain rfl : name = key := Option.some.inj (named.symm.trans named')
  obtain ⟨value', read', changed⟩ := carried _ _ related _ _ read
  obtain ⟨result', back', alike⟩ := foldlM_differAt steady (Keyed.differAt_put name value value' table) back
  have step' : tableStep decoder inner table (_, _) = pure (Keyed.put name value' table) :=
    (tableStep_eq_pure_iff steady).mpr ⟨(name, value'), ⟨named, read'⟩, rfl⟩
  have rerun := append_iff.mpr ⟨table, front, cons_iff.mpr ⟨_, step', back'⟩⟩
  refine ⟨result', (table_eq_pure_iff steady).mpr ⟨inner, entered, rerun⟩, ?_⟩
  split at alike
  · next again => rwa [if_pos again]
  · next last =>
    rw [if_neg last]
    exact ⟨value, value', changed, alike⟩

theorem carries_inItem {name : String} {inside : Node → Node → Prop} (carried : Carries decoder inside Eq) :
    Carries (table decoder) (AtKey name inside) Eq := by
  rintro node node' ⟨before, after, edit⟩ context result gives
  obtain ⟨result', gives', alike⟩ := carries_atEntry steady carried node node' edit context result gives
  refine ⟨result', gives', ?_⟩
  split at alike
  · exact alike.symm
  · obtain ⟨value, _, rfl, front, back, _, rfl, rfl⟩ := alike
    rfl

/-- The tables of some entries in two orders: each holds what its entries are read as, in their order. -/
def InOrder (decoder : Context → Node → Decoder α) (entries entries' : List (Node × Node))
    (table table' : List (String × α)) : Prop :=
  ∃ (inner : Context) (reading : Node × Node → String × α),
    (∀ entry ∈ entries, EntryReads decoder inner entry (reading entry)) ∧
      table = entries.map reading ∧ table' = entries'.map reading

/-- Entries with different keys take their items along. -/
theorem carries_reordered [Nonempty α] {entries entries' : List (Node × Node)} :
    Carries (table decoder) (Reordered entries entries') (InOrder decoder entries entries') := by
  rintro _ _ ⟨perm, distinct⟩ context result gives
  obtain ⟨inner, entered, run⟩ := (table_eq_pure_iff steady).mp gives
  choose! reading reads using reads_of_foldlM steady run
  have reads' : ∀ entry ∈ entries', EntryReads decoder inner entry (reading entry) := fun entry member =>
    reads entry (perm.mem_iff.mpr member)
  have distinct' := (perm.map fun entry => entry.1.text?).nodup_iff.mp distinct
  have same := eq_of_pure_eq (run.symm.trans (foldlM_of_distinct steady reads distinct))
  have rerun := foldlM_of_distinct steady reads' distinct'
  exact ⟨_, (table_eq_pure_iff steady).mpr ⟨inner, entered, rerun⟩, inner, reading, reads, same, rfl⟩

end Tables

section Parts

theorem carries_optional (steady : SteadyNodes decoder) {inside : Node → Node → Prop} {change : α → α → Prop}
    (mappings : BetweenMappings inside) (carried : Carries decoder inside change) :
    Carries (optional decoder) inside fun value value' =>
      ∃ given given', value = some given ∧ value' = some given' ∧ change given given' := by
  have reads : ∀ node context, node.isMapping = true →
      optional decoder context node = (decoder context node >>= fun given => pure (some given)) := by
    intro node context isMapping
    cases node with
    | mapping mark tag entries => rfl
    | _ => cases isMapping
  intro node node' related context value gives
  obtain ⟨isMapping, isMapping'⟩ := mappings node node' related
  rw [reads node context isMapping] at gives
  obtain ⟨given, read, rfl⟩ := (steady context node).map_eq_pure_iff.mp gives
  obtain ⟨given', read', changed⟩ := carried node node' related context given read
  exact ⟨some given', by rw [reads node' context isMapping', read', pure_bind], given, given', rfl, rfl, changed⟩

theorem reads_of_mapM {ι : Type} {read : ι → Decoder β} (steady : ∀ item, Steady False (read item))
    {items : List ι} {values : List β} (run : items.mapM read = pure values) :
    ∀ item ∈ items, ∃ value, read item = pure value := by
  induction items generalizing values with
  | nil => exact fun _ member => nomatch member
  | cons first rest ih =>
    have others : Steady False (rest.mapM read) := Steady.mapM fun item _ => steady item
    have steps : ∀ value, Steady False (rest.mapM read >>= fun values => pure (value :: values)) := fun value =>
      others.bind fun values => steady_pure _
    rw [List.mapM_cons, (steady first).bind_eq_pure_iff steps] at run
    obtain ⟨value, read_first, run⟩ := run
    obtain ⟨values, read_rest, -⟩ := others.map_eq_pure_iff.mp run
    intro item member
    rcases List.mem_cons.mp member with rfl | later
    · exact ⟨value, read_first⟩
    · exact ih read_rest item later

theorem list_eq_pure_iff (steady : SteadyNodes decoder) {context : Context} {mark : Mark} {tag : Option String}
    {items : List Node} {values : List α} :
    list decoder context (.sequence mark tag items) = pure values ↔
      ∃ inner, enter mark context = pure inner ∧
        items.zipIdx.mapM (fun entry => decoder (Context.step inner (.item entry.2)) entry.1) = pure values := by
  have opened : list decoder context (.sequence mark tag items) =
      placed mark context.path (enter mark context >>= fun inner =>
        items.zipIdx.mapM fun entry => decoder (Context.step inner (.item entry.2)) entry.1) := rfl
  rw [opened, placed_eq_pure_iff]
  have entered : Steady False (enter mark context) := steady_enter mark context
  exact entered.bind_eq_pure_iff fun inner => Steady.mapM fun entry _ => (steady _ entry.1).mono False.elim

theorem carries_atItem (steady : SteadyNodes decoder) {inside : Node → Node → Prop}
    (carried : Carries decoder inside Eq) : Carries (list decoder) (AtItem inside) Eq := by
  rintro _ _ ⟨before, after, related⟩ context values gives
  refine ⟨values, ?_, rfl⟩
  obtain ⟨inner, entered, run⟩ := (list_eq_pure_iff steady).mp gives
  refine (list_eq_pure_iff steady).mpr ⟨inner, entered, ?_⟩
  have each : ∀ entry : Node × Nat, Steady False (decoder (Context.step inner (.item entry.2)) entry.1) :=
    fun entry => (steady _ entry.1).mono False.elim
  rw [List.zipIdx_append, List.zipIdx_cons] at run ⊢
  obtain ⟨value, read⟩ := reads_of_mapM each run _ (List.mem_append_right _ List.mem_cons_self)
  obtain ⟨_, read', rfl⟩ := carried _ _ related _ _ read
  rw [List.mapM_append, List.mapM_cons, read] at run
  rw [List.mapM_append, List.mapM_cons, read', run]

end Parts

end Decoder

end Yaml

end WorkflowLint

import WorkflowLint.Proofs.Yaml.Covers

/-! Decoders that fail for nothing but the limit on aliases.

Where each field of a record by itself can be read, the whole record can be read, but for that limit: it
counts what all fields follow together. -/

set_option autoImplicit false

namespace WorkflowLint.Yaml.Decoder

variable {α β γ δ : Type} {document : Document}

/-- The decoder succeeds with this value, from some number of aliases on. -/
def Gives (decoder : Decoder α) (document : Document) (value : α) : Prop :=
  ∃ jumps after, decoder document jumps = .ok (value, after)

/-- However many aliases have been followed before, the decoder succeeds or meets the limit. -/
def Passes (decoder : Decoder α) (document : Document) : Prop :=
  ∀ jumps, (∃ result, decoder document jumps = .ok result) ∨
    decoder document jumps = .error .tooManyRepetitions

section Steps

variable {full : Decoder α} {part : Decoder β} {rel : α → β → Prop}

theorem Gives.of_bind {next : α → Decoder β} {result : β} (gives : Gives (full >>= next) document result) :
    ∃ value, Gives full document value ∧ Gives (next value) document result := by
  obtain ⟨jumps, after, run⟩ := gives
  rw [bind_apply] at run
  split at run
  · next value between given => exact ⟨value, ⟨jumps, between, given⟩, between, after, run⟩
  · cases run

theorem not_gives_throw {e : Error} {value : α} : ¬Gives (throw e) document value := by
  rintro ⟨jumps, after, run⟩
  cases run

theorem eq_of_gives_pure {value given : α} (gives : Gives (pure value) document given) : given = value := by
  obtain ⟨jumps, after, run⟩ := gives
  cases run
  rfl

theorem gives_placed_iff {mark : Mark} {path : Path} {value : α} :
    Gives (placed mark path full) document value ↔ Gives full document value := by
  simp only [Gives, placed_eq_ok_iff]

theorem passes_pure (value : α) : Passes (pure value) document := fun jumps => .inl ⟨(value, jumps), rfl⟩

theorem Passes.bind {next : α → Decoder β} (first : Passes full document)
    (rest : ∀ value, Gives full document value → Passes (next value) document) :
    Passes (full >>= next) document := by
  intro jumps
  rw [bind_apply]
  rcases first jumps with ⟨⟨value, after⟩, run⟩ | run
  · rw [run]
    exact rest value ⟨jumps, after, run⟩ after
  · exact .inr (by rw [run])

theorem Passes.placed {mark : Mark} {path : Path} (passes : Passes full document) :
    Passes (placed mark path full) document := by
  simpa only [Passes, placed_eq_ok_iff, placed_eq_limit_iff] using passes

theorem Covers.passes (covers : Covers full part rel) {value : α} (gives : Gives full document value) :
    Passes part document := by
  obtain ⟨jumps, after, run⟩ := gives
  intro before
  rcases (covers document jumps value after run).2 before with ⟨result, reached, ok, _⟩ | ⟨_, limit⟩
  · exact .inl ⟨(result, reached), ok⟩
  · exact .inr limit

theorem Covers.rel_of_gives (covers : Covers full part rel) {value : α} {result : β}
    (gives : Gives full document value) (part_gives : Gives part document result) : rel value result := by
  obtain ⟨jumps, after, run⟩ := gives
  obtain ⟨before, reached, part_run⟩ := part_gives
  rcases (covers document jumps value after run).2 before with ⟨result, reached, ok, _, related⟩ | ⟨_, limit⟩
  · cases ok.symm.trans part_run
    exact related
  · cases limit.symm.trans part_run

theorem gives_resolve_eq {node found other : Node} (gives : Gives (resolve node) document found)
    (other_gives : Gives (resolve node) document other) : other = found :=
  ((covers_resolve node).rel_of_gives gives other_gives).1.symm

theorem gives_text_eq {expected name other : String} {context : Context} {node : Node}
    (gives : Gives (text expected context node) document name)
    (other_gives : Gives (text expected context node) document other) : other = name :=
  ((coversNodes_text expected context node).rel_of_gives gives other_gives).1.symm

end Steps

theorem not_gives_mismatch {expected : String} {context : Context} {node : Node} {value : α} :
    ¬Gives (mismatch expected context node) document value := by
  have covers : Covers (mismatch expected context node) (mismatch expected context node)
      fun (_ _ : α) => False := covers_mismatch expected context node
  exact fun gives => covers.rel_of_gives gives gives

theorem Gives.of_foldEntries {expected : String} {step : Context → α → Node × Node → Decoder α}
    {start result : α} {context : Context} {node : Node}
    (gives : Gives (foldEntries expected step start context node) document result) :
    ∃ found, Gives (resolve node) document found ∧
      ((∃ mark tag entries inner, found = .mapping mark tag entries ∧ Gives (enter mark context) document inner ∧
          Gives (entries.foldlM (step inner) start) document result) ∨
        ∃ mark tag style text, found = .scalar mark tag style text ∧ standsForEmpty style text = true) := by
  obtain ⟨found, resolved, gives⟩ := gives.of_bind
  refine ⟨found, resolved, ?_⟩
  split at gives
  · next mark tag entries =>
    obtain ⟨inner, entered, gives⟩ := (gives_placed_iff.mp gives).of_bind
    exact .inl ⟨mark, tag, entries, inner, rfl, entered, gives⟩
  · next mark tag style text =>
    split at gives
    · next empty => exact .inr ⟨mark, tag, style, text, rfl, empty⟩
    · exact absurd gives not_gives_mismatch
  · exact absurd gives not_gives_mismatch

section Parts

/- Some parts of a record or of an optional one, each read by itself. -/
variable {ι : Type} {κ : ι → Type} {parts : (i : ι) → Context → Node → Decoder (κ i)}
  {context : Context} {node : Node}

theorem passes_optional {full : Context → Node → Decoder α} (some_part : ι)
    (given : ∀ i, ∃ result, Gives (optional (parts i) context node) document result)
    (passes : ∀ found, (∀ i, ∃ result, Gives (parts i context found) document result) →
      Passes (full context found) document) :
    Passes (optional full context node) document := by
  rw [optional_eq]
  simp only [optional_eq] at given
  obtain ⟨_, gives⟩ := given some_part
  obtain ⟨found, resolved, gives⟩ := gives.of_bind
  obtain ⟨present, decided, _⟩ := gives.of_bind
  refine ((covers_resolve node).passes resolved).bind fun other resolved' => ?_
  cases gives_resolve_eq resolved resolved'
  refine ((covers_presence found).passes decided).bind fun present' decided' => ?_
  cases ((covers_presence found).rel_of_gives decided decided').1
  cases present with
  | false => exact passes_pure none
  | true =>
    refine (passes found fun i => ?_).bind fun value _ => passes_pure (some value)
    obtain ⟨_, gives⟩ := given i
    obtain ⟨other, resolved', gives⟩ := gives.of_bind
    cases gives_resolve_eq resolved resolved'
    obtain ⟨present', decided', gives⟩ := gives.of_bind
    cases ((covers_presence found).rel_of_gives decided decided').1
    obtain ⟨result, read, _⟩ := gives.of_bind
    exact ⟨result, read⟩

/-- The fields of a record are those that the parts are labelled with, and a field fails for nothing but
the limit where its parts can be read. -/
structure Assembles (fields : List (String × Field α)) (label : ι → String)
    (parts : (i : ι) → Context → Node → Decoder (κ i)) (document : Document) : Prop where
  named : ∀ i, ∃ field, fields.lookup (label i) = some field
  known : ∀ name field, fields.lookup name = some field → ∃ i, label i = name
  passes : ∀ name field, fields.lookup name = some field → ∀ context value node,
    (∀ i, label i = name → ∃ result, Gives (parts i context node) document result) →
      Passes (field context value node) document

theorem Gives.of_recordStep {fields : List (String × Field α)} {inner : Context} {seen : List String}
    {value : α} {entry : Node × Node} {state : List String × α}
    (gives : Gives (recordStep fields inner (seen, value) entry) document state) :
    ∃ name, Gives (text "field identifier" inner entry.1) document name ∧
      ((∃ field, fields.lookup name = some field ∧ name ∉ seen ∧ state.1 = name :: seen ∧
          Gives (field (Context.step inner (keyStep entry.1)) value entry.2) document state.2) ∨
        fields.lookup name = none ∧ state = (seen, value) ∧ Gives (ignore entry.2) document ()) := by
  obtain ⟨name, named, gives⟩ := gives.of_bind
  refine ⟨name, named, ?_⟩
  cases found : fields.lookup name with
  | none =>
    rw [found] at gives
    obtain ⟨_, passed, gives⟩ := gives.of_bind
    exact .inr ⟨rfl, eq_of_gives_pure gives, passed⟩
  | some field =>
    simp only [found] at gives
    split at gives
    · exact absurd gives not_gives_throw
    · next fresh =>
      obtain ⟨given, read, gives⟩ := gives.of_bind
      cases eq_of_gives_pure gives
      exact .inl ⟨field, rfl, fun met => fresh (List.contains_iff_mem.mpr met), rfl, read⟩

theorem partStep_cases {label name : String} {part : Context → Node → Decoder β} {inner : Context}
    {met : List String} {read : β} {entry : Node × Node} {state : List String × β}
    (named : Gives (text "field identifier" inner entry.1) document name)
    (gives : Gives (recordStep [(label, fun context _ node => part context node)] inner (met, read) entry)
      document state) :
    (label = name ∧ label ∉ met ∧ state.1 = label :: met ∧
        Gives (part (Context.step inner (keyStep entry.1)) entry.2) document state.2) ∨
      label ≠ name ∧ state.1 = met ∧ Gives (ignore entry.2) document () := by
  obtain ⟨other, named', step⟩ := gives.of_recordStep
  cases gives_text_eq named named'
  by_cases own : name = label
  · subst own
    rw [List.lookup_cons_self] at step
    rcases step with ⟨field, found, fresh, now, given⟩ | ⟨none, _⟩
    · cases found
      exact .inl ⟨rfl, fresh, now, given⟩
    · cases none
  · have passed : [(label, fun context (_ : β) node => part context node)].lookup name = none := by
      simp [own]
    rw [passed] at step
    rcases step with ⟨field, found, _⟩ | ⟨_, now, ignored⟩
    · cases found
    · exact .inr ⟨fun same => own same.symm, congrArg Prod.fst now, ignored⟩

section Family

variable {label : ι → String} {fields : List (String × Field α)} {inner : Context} {entry : Node × Node}
  {seen : List String} {value : α} {met : ι → List String} {read : (i : ι) → κ i}
  {states : (i : ι) → List String × κ i}

theorem Assembles.passes_recordStep (assembles : Assembles fields label parts document) (some_part : ι)
    (among : ∀ i, label i ∈ seen → label i ∈ met i)
    (stepped : ∀ i, Gives (recordStep [(label i, fun context (_ : κ i) node => parts i context node)] inner
      (met i, read i) entry) document (states i)) :
    Passes (recordStep fields inner (seen, value) entry) document := by
  obtain ⟨name, named, _⟩ := (stepped some_part).of_recordStep
  have each := fun i => partStep_cases named (stepped i)
  refine ((coversNodes_text _ _ _).passes named).bind fun other named' => ?_
  cases gives_text_eq named named'
  cases found : fields.lookup name with
  | none =>
    have ignored : Gives (ignore entry.2) document () := by
      rcases each some_part with ⟨own, _⟩ | ⟨_, _, ignored⟩
      · obtain ⟨field, known⟩ := assembles.named some_part
        rw [own, found] at known
        cases known
      · exact ignored
    exact ((covers_ignore entry.2).passes ignored).bind fun _ _ => passes_pure _
  | some field =>
    have fresh : ¬seen.contains name = true := fun before => by
      obtain ⟨i, own⟩ := assembles.known name field found
      rcases each i with ⟨_, unmet, _⟩ | ⟨other, _⟩
      · exact unmet (among i (own ▸ List.contains_iff_mem.mp before))
      · exact other own
    simp only [if_neg fresh]
    refine (assembles.passes name field found _ _ _ fun i own => ?_).bind fun _ _ => passes_pure _
    rcases each i with ⟨_, _, _, given⟩ | ⟨other, _⟩
    · exact ⟨_, given⟩
    · exact absurd own other

theorem among_recordStep {state : List String × α} (among : ∀ i, label i ∈ seen → label i ∈ met i)
    (stepped : ∀ i, Gives (recordStep [(label i, fun context (_ : κ i) node => parts i context node)] inner
      (met i, read i) entry) document (states i))
    (gives : Gives (recordStep fields inner (seen, value) entry) document state) (i : ι)
    (before : label i ∈ state.1) : label i ∈ (states i).1 := by
  obtain ⟨name, named, step⟩ := gives.of_recordStep
  rcases partStep_cases named (stepped i) with ⟨own, _, now, _⟩ | ⟨other, now, _⟩
  · rw [now]
    exact List.mem_cons_self
  · rw [now]
    rcases step with ⟨_, _, _, then_seen, _⟩ | ⟨_, rfl, _⟩
    · rw [then_seen] at before
      exact among i ((List.mem_cons.mp before).resolve_left other)
    · exact among i before

theorem Assembles.passes_entries (assembles : Assembles fields label parts document) (some_part : ι)
    (entries : List (Node × Node)) (among : ∀ i, label i ∈ seen → label i ∈ met i)
    (given : ∀ i, ∃ result, Gives (entries.foldlM
      (recordStep [(label i, fun context (_ : κ i) node => parts i context node)] inner) (met i, read i))
      document result) :
    Passes (entries.foldlM (recordStep fields inner) (seen, value)) document := by
  induction entries generalizing seen value met read with
  | nil => exact passes_pure _
  | cons entry rest ih =>
    simp only [List.foldlM_cons] at given ⊢
    choose results given using given
    choose states stepped continued using fun i => (given i).of_bind
    refine (assembles.passes_recordStep some_part among stepped).bind fun state gives => ?_
    exact ih (among_recordStep among stepped gives) fun i => ⟨results i, continued i⟩

/-- A record can be read where each of its parts by itself can be read. -/
theorem Assembles.passes_record (assembles : Assembles fields label parts document) (some_part : ι)
    {expected : String} {expected' : ι → String} {start : α} {otherwise : (i : ι) → κ i}
    (given : ∀ i, ∃ result, Gives (alone (expected' i) (label i) (parts i) (otherwise i) context node)
      document result) :
    Passes (record expected fields start context node) document := by
  have folded : ∀ i, ∃ result, Gives (foldEntries (expected' i)
      (recordStep [(label i, fun context (_ : κ i) node => parts i context node)]) ([], otherwise i)
      context node) document result := fun i => by
    obtain ⟨result, gives⟩ := given i
    obtain ⟨state, gives, _⟩ := gives.of_bind
    exact ⟨state, gives⟩
  rw [record_eq]
  refine Passes.bind ?_ fun _ _ => passes_pure _
  obtain ⟨_, gives⟩ := folded some_part
  obtain ⟨found, resolved, shape⟩ := gives.of_foldEntries
  refine ((covers_resolve node).passes resolved).bind fun other resolved' => ?_
  cases gives_resolve_eq resolved resolved'
  rcases shape with ⟨mark, tag, entries, inner, rfl, entered, _⟩ | ⟨mark, tag, style, text, rfl, empty⟩
  · refine (((covers_enter mark context).passes entered).bind fun other entered' => ?_).placed
    cases (covers_enter mark context).rel_of_gives entered entered'
    have each : ∀ i, ∃ result, Gives (entries.foldlM (recordStep
        [(label i, fun context (_ : κ i) node => parts i context node)] inner) ([], otherwise i))
        document result := fun i => by
      obtain ⟨result, gives⟩ := folded i
      obtain ⟨other, resolved', shape⟩ := gives.of_foldEntries
      cases gives_resolve_eq resolved resolved'
      rcases shape with ⟨_, _, _, inner', same, entered', run⟩ | ⟨_, _, _, _, same, _⟩
      · cases same
        cases (covers_enter mark context).rel_of_gives entered entered'
        exact ⟨result, run⟩
      · cases same
    exact assembles.passes_entries some_part entries (fun _ => id) each
  · simp only [empty, if_true]
    exact passes_pure _

end Family

end Parts

theorem Passes.run {decoder : Context → Node → Decoder α} {part : Context → Node → Decoder β} {text : String}
    {result : β} (passes : Passes (decoder root (Document.ofText text).root) (Document.ofText text))
    (reads : run part text = .ok result) :
    (∃ value, run decoder text = .ok value) ∨ run decoder text = .error .tooManyRepetitions := by
  obtain ⟨_, only⟩ := run_eq_ok_iff.mp reads
  rcases passes 0 with ⟨⟨value, after⟩, run⟩ | limit
  · exact .inl ⟨value, run_eq_ok_iff.mpr ⟨⟨after, run⟩, only⟩⟩
  · right
    unfold Decoder.run StateT.run
    simp only [limit]
    rfl

end WorkflowLint.Yaml.Decoder

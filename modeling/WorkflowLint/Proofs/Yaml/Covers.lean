import Mathlib.Data.List.Basic
import WorkflowLint.Yaml.Decoder

/-! Decoders that read less of a document.

How often aliases are followed is limited for a document as a whole, so a decoder that reads less of it does
not fail for that where one that reads more does not. Their states differ meanwhile: only how many aliases
have been followed is compared, step by step. What is read depends on nothing else of the states. -/

set_option autoImplicit false

namespace WorkflowLint.Yaml

theorem Node.entriesAreWhole_iff {entries : List (Node × Node)} :
    entriesAreWhole entries = true ↔ ∀ entry ∈ entries, entry.1.isWhole = true ∧ entry.2.isWhole = true := by
  induction entries with
  | nil => simp [entriesAreWhole]
  | cons entry rest ih => simp [entriesAreWhole, ih]

namespace Decoder

variable {α β γ δ : Type}

/-- Where one decoder succeeds, so does another, unless it has followed more aliases before and fails for
that. Where it has followed no more of them before, it has followed no more of them afterwards. What the
two give is related. -/
def Covers (full : Decoder α) (part : Decoder β) (rel : α → β → Prop) : Prop :=
  ∀ document jumps value after, full document jumps = .ok (value, after) →
    jumps ≤ after ∧ ∀ before,
      (∃ result reached, part document before = .ok (result, reached) ∧ (before ≤ jumps → reached ≤ after) ∧
        rel value result) ∨
      jumps < before ∧ part document before = .error .tooManyRepetitions

/-- One decoder of nodes covers another, and it succeeds only with nodes that are there as a whole. -/
def CoversNodes (full : Context → Node → Decoder α) (part : Context → Node → Decoder β)
    (rel : α → β → Prop) : Prop :=
  ∀ context node, Covers (full context node) (part context node) fun value result =>
    rel value result ∧ node.isWhole = true

section Steps

variable {full : Decoder α} {part : Decoder β} {rel : α → β → Prop}

theorem bind_apply (first : Decoder α) (next : α → Decoder β) (document : Document) (jumps : Nat) :
    (first >>= next) document jumps =
      match first document jumps with
      | .ok (value, after) => next value document after
      | .error e => .error e := by
  change Except.bind (first document jumps) _ = _
  cases first document jumps <;> rfl

theorem Covers.within (covers : Covers full part rel) {document : Document} {jumps : Nat} {value : α}
    {after : Nat} (gives : full document jumps = .ok (value, after)) {before : Nat} (few : before ≤ jumps) :
    ∃ result reached, part document before = .ok (result, reached) ∧ reached ≤ after ∧ rel value result := by
  obtain ⟨_, parts⟩ := covers document jumps value after gives
  rcases parts before with ⟨result, reached, run, least, related⟩ | ⟨more, _⟩
  · exact ⟨result, reached, run, least few, related⟩
  · omega

theorem covers_pure {value : α} {result : β} (related : rel value result) :
    Covers (pure value) (pure result) rel := by
  intro document jumps value' after gives
  cases gives
  exact ⟨Nat.le_refl _, fun before => .inl ⟨result, before, rfl, id, related⟩⟩

theorem covers_throw (e : Error) : Covers (throw e) part rel := by
  intro document jumps value after gives
  cases gives

theorem covers_failAtCut : Covers failAtCut part rel := by
  intro document jumps value after gives
  cases gives

theorem Covers.bind {next : α → Decoder γ} {next' : β → Decoder δ} {rel' : γ → δ → Prop}
    (first : Covers full part rel)
    (rest : ∀ value result, rel value result → Covers (next value) (next' result) rel') :
    Covers (full >>= next) (part >>= next') rel' := by
  intro document jumps value after gives
  rw [bind_apply] at gives
  split at gives
  next middle between given =>
    obtain ⟨grown, parts⟩ := first document jumps middle between given
    obtain ⟨_, _, _, _, same⟩ := first.within given (Nat.le_refl _)
    obtain ⟨more, _⟩ := rest _ _ same document between value after gives
    refine ⟨Nat.le_trans grown more, fun before => ?_⟩
    rw [bind_apply]
    rcases parts before with ⟨result, reached, run, least, related⟩ | ⟨beyond, run⟩
    · rw [run]
      obtain ⟨_, others⟩ := rest middle result related document between value after gives
      rcases others reached with ⟨final, last, runs, bound, outcome⟩ | ⟨beyond, runs⟩
      · exact .inl ⟨final, last, runs, fun few => bound (least few), outcome⟩
      · exact .inr ⟨Nat.lt_of_not_le fun few => absurd (least few) (by omega), runs⟩
    · exact .inr ⟨beyond, by rw [run]⟩
  next => cases gives

theorem Covers.mono {rel' : α → β → Prop} (covers : Covers full part rel)
    (weaker : ∀ value result, rel value result → rel' value result) : Covers full part rel' := by
  intro document jumps value after gives
  obtain ⟨grown, parts⟩ := covers document jumps value after gives
  refine ⟨grown, fun before => (parts before).imp_left ?_⟩
  rintro ⟨result, reached, run, least, related⟩
  exact ⟨result, reached, run, least, weaker _ _ related⟩

theorem Covers.silent {rel' : α → γ → Prop} (covers : Covers full part rel) {result : γ}
    (related : ∀ value given, rel value given → rel' value result) : Covers full (pure result) rel' := by
  intro document jumps value after gives
  obtain ⟨grown, _⟩ := covers document jumps value after gives
  obtain ⟨given, _, _, _, known⟩ := covers.within gives (Nat.le_refl _)
  exact ⟨grown, fun before =>
    .inl ⟨result, before, rfl, fun few => Nat.le_trans few grown, related value given known⟩⟩

theorem Covers.map {next : α → γ} {rel' : γ → β → Prop} (covers : Covers full part rel)
    (related : ∀ value result, rel value result → rel' (next value) result) :
    Covers (full >>= fun value => pure (next value)) part rel' := by
  rw [← bind_pure part]
  exact covers.bind fun value result known => covers_pure (related value result known)

theorem Covers.mapPart {next : β → γ} {rel' : α → γ → Prop} (covers : Covers full part rel)
    (related : ∀ value result, rel value result → rel' value (next result)) :
    Covers full (part >>= fun result => pure (next result)) rel' := by
  rw [← bind_pure full]
  exact covers.bind fun value result known => covers_pure (related value result known)

theorem covers_ignore (node : Node) : Covers (ignore node) (ignore node) fun _ _ => node.isWhole = true := by
  unfold ignore
  split
  next whole => exact covers_pure whole
  next => exact covers_failAtCut

/-- To pass a node is to do nothing, provided that it is there as a whole. -/
theorem Covers.ignore {node : Node} {result : β} (covers : Covers full (pure result) fun value result =>
    rel value result ∧ node.isWhole = true) :
    Covers full (do ignore node; return result) fun value result =>
      rel value result ∧ node.isWhole = true := by
  intro document jumps value after gives
  obtain ⟨_, _, _, _, _, whole⟩ := covers.within gives (Nat.le_refl _)
  have passed : (do Decoder.ignore node; return result : Decoder β) = pure result := by
    rw [Decoder.ignore, if_pos whole]
    rfl
  rw [passed]
  exact covers document jumps value after gives

theorem placed_eq_ok_iff {mark : Mark} {path : Path} {document : Document} {jumps : Nat} {given : α × Nat} :
    placed mark path full document jumps = .ok given ↔ full document jumps = .ok given := by
  unfold placed
  split
  next failed => simp [failed]
  next => rfl

theorem placed_eq_limit_iff {mark : Mark} {path : Path} {document : Document} {jumps : Nat} :
    placed mark path full document jumps = .error .tooManyRepetitions ↔
      full document jumps = .error .tooManyRepetitions := by
  unfold placed
  split
  next failed => simp [failed]
  next => rfl

theorem Covers.placed {mark mark' : Mark} {path path' : Path} (covers : Covers full part rel) :
    Covers (placed mark path full) (placed mark' path' part) rel := by
  simpa only [Covers, placed_eq_ok_iff, placed_eq_limit_iff] using covers

theorem Covers.foldlM {ι : Type} {step : α → ι → Decoder α} {step' : β → ι → Decoder β} {holds : ι → Prop}
    (steps : ∀ value result item, rel value result →
      Covers (step value item) (step' result item) fun value result => rel value result ∧ holds item)
    (items : List ι) {start : α} {start' : β} (related : rel start start') :
    Covers (items.foldlM step start) (items.foldlM step' start') fun value result =>
      rel value result ∧ ∀ item ∈ items, holds item := by
  induction items generalizing start start' with
  | nil => exact covers_pure ⟨related, by simp⟩
  | cons item rest ih =>
    rw [List.foldlM_cons, List.foldlM_cons]
    refine (steps start start' item related).bind fun value result ⟨next, here⟩ => ?_
    exact (ih next).mono fun _ _ ⟨last, there⟩ => ⟨last, List.forall_mem_cons.mpr ⟨here, there⟩⟩

end Steps

section Nodes

theorem follow_apply (target : Nat) (document : Document) (jumps : Nat) :
    follow target document jumps =
      if document.size * 100 < jumps + 1 then .error .tooManyRepetitions
      else match document.anchored.lookup target with
        | some node => .ok (node, jumps + 1)
        | none => .error (.fault (document.fault.getD .malformed)) := by
  unfold follow
  rw [bind_apply, show (read : Decoder Document) document jumps = .ok (document, jumps) from rfl]
  simp only
  rw [bind_apply, show (get : Decoder Nat) document jumps = .ok (jumps, jumps) from rfl]
  simp only
  split
  · rfl
  · cases document.anchored.lookup target <;> rfl

/-- The limit on aliases is met later where fewer have been followed. -/
theorem covers_follow (target : Nat) : Covers (follow target) (follow target) Eq := by
  intro document jumps value after gives
  rw [follow_apply] at gives
  split at gives
  next => cases gives
  next within =>
    split at gives
    next found =>
      cases gives
      refine ⟨Nat.le_succ jumps, fun before => ?_⟩
      rw [follow_apply]
      split
      · exact .inr ⟨by omega, rfl⟩
      · rw [found]
        exact .inl ⟨value, before + 1, rfl, Nat.succ_le_succ, rfl⟩
    next => cases gives

theorem covers_resolve (node : Node) :
    Covers (resolve node) (resolve node) fun value result =>
      value = result ∧ (value.isWhole = true → node.isWhole = true) := by
  cases node with
  | «alias» mark target => exact (covers_follow target).mono fun _ _ same => ⟨same, fun _ => rfl⟩
  | cut => exact covers_failAtCut
  | scalar mark tag style text => exact covers_pure ⟨rfl, id⟩
  | sequence mark tag items => exact covers_pure ⟨rfl, id⟩
  | mapping mark tag entries => exact covers_pure ⟨rfl, id⟩

theorem covers_mismatch {part : Decoder β} {rel : α → β → Prop} (expected : String) (context : Context)
    (node : Node) : Covers (mismatch expected context node) part rel := by
  unfold mismatch
  split
  · split
    · exact covers_throw _
    · exact covers_throw _
  · exact covers_throw _
  · exact covers_throw _
  · exact covers_failAtCut

theorem covers_enter (mark : Mark) (context : Context) : Covers (enter mark context) (enter mark context) Eq := by
  unfold enter
  split
  · exact covers_throw _
  · exact covers_pure rfl

theorem coversNodes_text (expected : String) : CoversNodes (text expected) (text expected) Eq := by
  intro context node
  refine (covers_resolve node).bind ?_
  rintro found _ ⟨rfl, whole⟩
  split
  · exact covers_pure ⟨rfl, whole rfl⟩
  · exact covers_mismatch _ _ _

theorem coversNodes_bool : CoversNodes bool bool Eq := by
  intro context node
  refine (covers_resolve node).bind ?_
  rintro found _ ⟨rfl, whole⟩
  split
  · split
    · exact covers_pure ⟨rfl, whole rfl⟩
    · exact covers_mismatch _ _ _
  · exact covers_mismatch _ _ _

theorem coversNodes_word : CoversNodes word word Eq := by
  intro context node
  refine (covers_resolve node).bind ?_
  rintro found _ ⟨rfl, whole⟩
  split
  · split
    · split
      · exact covers_pure ⟨rfl, whole rfl⟩
      · exact covers_mismatch _ _ _
    · exact covers_mismatch _ _ _
  · exact covers_mismatch _ _ _

/-- Whether a node stands for something: a plain scalar may stand for nothing. -/
def presence : Node → Decoder Bool
  | .scalar _ tag .plain text =>
    match tag with
    | none => pure !(text.isEmpty || Scalar.isNull text)
    | some tag =>
      if tag = Scalar.nullTag then
        if Scalar.isNull text then pure false
        else throw (.data (.invalidValue text "null") none)
      else pure true
  | _ => pure true

theorem optional_eq (decoder : Context → Node → Decoder α) (context : Context) (node : Node) :
    optional decoder context node = (do
      let found ← resolve node
      if ← presence found then return some (← decoder context found) else return none) := by
  unfold optional
  congr 1
  funext found
  cases found with
  | scalar mark tag style text =>
    cases style with
    | plain =>
      cases tag with
      | none => rfl
      | some tag =>
        simp only [presence]
        split
        · split <;> rfl
        · rfl
    | _ => rfl
  | _ => rfl

theorem covers_presence (node : Node) :
    Covers (presence node) (presence node) fun value result =>
      value = result ∧ (value = false → node.isWhole = true) := by
  unfold presence
  split
  · split
    · exact covers_pure ⟨rfl, fun _ => rfl⟩
    · split
      · split
        · exact covers_pure ⟨rfl, fun _ => rfl⟩
        · exact covers_throw _
      · exact covers_pure ⟨rfl, nofun⟩
  · exact covers_pure ⟨rfl, nofun⟩

theorem CoversNodes.optional {full : Context → Node → Decoder α} {part : Context → Node → Decoder β}
    {rel : α → β → Prop} (covers : CoversNodes full part rel) :
    CoversNodes (optional full) (optional part) (Option.Rel rel) := by
  intro context node
  rw [optional_eq, optional_eq]
  refine (covers_resolve node).bind ?_
  rintro found _ ⟨rfl, whole⟩
  refine (covers_presence found).bind ?_
  rintro present _ ⟨rfl, absent⟩
  cases present with
  | true =>
    refine (covers context found).bind fun value result ⟨related, there⟩ => ?_
    exact covers_pure ⟨.some related, whole there⟩
  | false => exact covers_pure ⟨.none, whole (absent rfl)⟩

theorem CoversNodes.foldEntries {step : Context → α → Node × Node → Decoder α}
    {step' : Context → β → Node × Node → Decoder β} {rel : α → β → Prop} (expected expected' : String)
    (steps : ∀ context value result entry, rel value result →
      Covers (step context value entry) (step' context result entry) fun value result =>
        rel value result ∧ entry.1.isWhole = true ∧ entry.2.isWhole = true)
    {start : α} {start' : β} (related : rel start start') :
    CoversNodes (foldEntries expected step start) (foldEntries expected' step' start') rel := by
  intro context node
  refine (covers_resolve node).bind ?_
  rintro found _ ⟨rfl, whole⟩
  split
  · next mark tag entries =>
    refine Covers.placed ((covers_enter mark context).bind ?_)
    rintro inner _ rfl
    refine (Covers.foldlM (steps inner) entries related).mono fun _ _ ⟨final, parts⟩ => ?_
    exact ⟨final, whole (Node.entriesAreWhole_iff.mpr parts)⟩
  · split
    · exact covers_pure ⟨related, whole rfl⟩
    · exact covers_mismatch _ _ _
  · exact covers_mismatch _ _ _

end Nodes

section Records

variable {name : String} {view : α → β} {part : Context → Node → Decoder β}

def alone (expected name : String) (part : Context → Node → Decoder β) (otherwise : β) :
    Context → Node → Decoder β :=
  record expected [(name, fun context _ node => part context node)] otherwise

/-- What is viewed of a record changes only with the field of this name, and then to what the part reads. -/
def Bears (name : String) (view : α → β) (part : Context → Node → Decoder β)
    (entry : String × Field α) : Prop :=
  ∀ context value node,
    if entry.1 = name then
      Covers (entry.2 context value node) (part context node) fun value result =>
        view value = result ∧ node.isWhole = true
    else
      Covers (entry.2 context value node) (pure ()) fun after _ =>
        view after = view value ∧ node.isWhole = true

theorem Bears.own {full : Context → Node → Decoder γ} {rel : γ → β → Prop} {update : α → γ → α}
    (covers : CoversNodes full part rel)
    (viewed : ∀ value given result, rel given result → view (update value given) = result) :
    Bears name view part (name, fun context value node => do return update value (← full context node)) := by
  intro context value node
  rw [if_pos rfl]
  exact (covers context node).map fun given result ⟨related, whole⟩ =>
    ⟨viewed value given result related, whole⟩

theorem Bears.other {label : String} {full : Context → Node → Decoder γ} {part' : Context → Node → Decoder δ}
    {rel : γ → δ → Prop} {update : α → γ → α} (covers : CoversNodes full part' rel) (different : label ≠ name)
    (kept : ∀ value given, view (update value given) = view value) :
    Bears name view part (label, fun context value node => do return update value (← full context node)) := by
  intro context value node
  rw [if_neg different]
  have updated : Covers (do return update value (← full context node)) (part' context node) fun after _ =>
      view after = view value ∧ node.isWhole = true :=
    (covers context node).map fun given _ ⟨_, whole⟩ => ⟨kept value given, whole⟩
  exact updated.silent fun _ _ left => left

def recordStep (fields : List (String × Field α)) (inner : Context) (state : List String × α)
    (entry : Node × Node) : Decoder (List String × α) := do
  let name ← text "field identifier" inner entry.1
  match fields.lookup name with
  | some field =>
    if state.1.contains name then throw (.data (.duplicateField name) none)
    else return (name :: state.1, ← field (Context.step inner (keyStep entry.1)) state.2 entry.2)
  | none =>
    ignore entry.2
    return state

theorem record_eq (expected : String) (fields : List (String × Field α)) (start : α) (context : Context)
    (node : Node) :
    record expected fields start context node = (do
      let state ← foldEntries expected (recordStep fields) ([], start) context node
      return state.2) := rfl

/-- The states of two records on the way: what the one that reads less has met, the other has met too. -/
def Shows (view : α → β) (state : List String × α) (state' : List String × β) : Prop :=
  (∀ label ∈ state'.1, label ∈ state.1) ∧ view state.2 = state'.2

section Shows

variable {seen seen' : List String} {value : α} {result : β} {label : String} {field : Field α}
  {context : Context} {item : Node}

theorem Shows.own (bears : Bears name view part (name, field))
    (shows : Shows view (seen, value) (seen', result)) :
    Covers
      (if seen.contains name then throw (.data (.duplicateField name) none)
        else return (name :: seen, ← field context value item))
      (if seen'.contains name then throw (.data (.duplicateField name) none)
        else return (name :: seen', ← part context item))
      fun state state' => Shows view state state' ∧ item.isWhole = true := by
  obtain ⟨among, _⟩ := shows
  by_cases repeated : seen.contains name = true
  · rw [if_pos repeated]
    exact covers_throw _
  · have fresh : ¬seen'.contains name = true := fun met => repeated <|
      List.contains_iff_mem.mpr (among name (List.contains_iff_mem.mp met))
    rw [if_neg repeated, if_neg fresh]
    have bearing := bears context value item
    rw [if_pos rfl] at bearing
    refine bearing.bind fun after given ⟨viewed, whole⟩ => covers_pure ⟨⟨fun met member => ?_, viewed⟩, whole⟩
    exact (List.mem_cons.mp member).elim (· ▸ List.mem_cons_self)
      fun before => List.mem_cons_of_mem _ (among met before)

theorem Shows.other (bears : Bears name view part (label, field)) (different : label ≠ name)
    (shows : Shows view (seen, value) (seen', result)) :
    Covers
      (if seen.contains label then throw (.data (.duplicateField label) none)
        else return (label :: seen, ← field context value item))
      (do ignore item; return (seen', result))
      fun state state' => Shows view state state' ∧ item.isWhole = true := by
  obtain ⟨among, same⟩ := shows
  split
  · exact covers_throw _
  · have bearing := bears context value item
    rw [if_neg different] at bearing
    have passed : Covers (do return (label :: seen, ← field context value item)) (pure (seen', result))
        fun state state' => Shows view state state' ∧ item.isWhole = true :=
      (bearing.map fun after _ ⟨left, whole⟩ =>
        ⟨⟨fun met member => List.mem_cons_of_mem _ (among met member), left.trans same⟩, whole⟩).silent
        fun _ _ left => left
    exact passed.ignore

end Shows

theorem mem_of_lookup {fields : List (String × Field α)} {label : String} {field : Field α}
    (found : fields.lookup label = some field) : (label, field) ∈ fields := by
  obtain ⟨before, after, rfl, _⟩ := List.lookup_eq_some_iff.mp found
  exact List.mem_append_right _ List.mem_cons_self

theorem Shows.covers_recordStep {fields : List (String × Field α)} (known : name ∈ fields.map Prod.fst)
    (bears : ∀ entry ∈ fields, Bears name view part entry)
    {state : List String × α} {state' : List String × β} (shows : Shows view state state')
    (inner : Context) (entry : Node × Node) :
    Covers (recordStep fields inner state entry)
      (recordStep [(name, fun context _ node => part context node)] inner state' entry)
      fun state state' => Shows view state state' ∧ entry.1.isWhole = true ∧ entry.2.isWhole = true := by
  refine (coversNodes_text "field identifier" inner entry.1).bind ?_
  rintro label _ ⟨rfl, there⟩
  by_cases own : label = name
  · subst own
    obtain ⟨entry, member, named⟩ := List.mem_map.mp known
    obtain ⟨field, found⟩ : ∃ field, fields.lookup label = some field :=
      Option.isSome_iff_exists.mp (List.lookup_isSome_iff.mpr ⟨entry, member, by simp [named]⟩)
    rw [found, List.lookup_cons_self]
    exact (shows.own (bears _ (mem_of_lookup found))).mono fun _ _ ⟨next, whole⟩ => ⟨next, there, whole⟩
  · have passed : [(name, fun context (_ : β) node => part context node)].lookup label = none := by
      simp [own]
    rw [passed]
    cases found : fields.lookup label with
    | none =>
      exact (covers_ignore entry.2).bind fun _ _ whole => covers_pure ⟨shows, there, whole⟩
    | some field =>
      exact (shows.other (bears _ (mem_of_lookup found)) own).mono
        fun _ _ ⟨next, whole⟩ => ⟨next, there, whole⟩

/-- Reading one field of a record alone gives what the record shows of it. -/
theorem coversNodes_alone {fields : List (String × Field α)} {start : α} {otherwise : β}
    (expected expected' : String) (known : name ∈ fields.map Prod.fst)
    (bears : ∀ entry ∈ fields, Bears name view part entry) (missing : view start = otherwise) :
    CoversNodes (record expected fields start) (alone expected' name part otherwise)
      fun value result => view value = result := by
  intro context node
  rw [alone, record_eq, record_eq]
  have entries := @CoversNodes.foldEntries _ _ (recordStep fields) _ (Shows view) expected expected'
    (fun inner _ _ entry shows => shows.covers_recordStep known bears inner entry) ([], start)
    ([], otherwise) ⟨nofun, missing⟩
  refine (entries context node).bind ?_
  rintro ⟨_, value⟩ ⟨_, result⟩ ⟨⟨_, same⟩, whole⟩
  exact covers_pure ⟨same, whole⟩

end Records

def runDocument (decoder : Context → Node → Decoder α) (document : Document) : Except Error α := do
  let (value, _) ← StateT.run (decoder root document.root document) 0
  match document.fault with
  | some fault => throw (.fault fault)
  | none => if document.isLast then return value else throw .moreDocuments

theorem runDocument_eq_ok_iff {decoder : Context → Node → Decoder α} {document : Document} {value : α} :
    runDocument decoder document = .ok value ↔
      (∃ jumps, decoder root document.root document 0 = .ok (value, jumps)) ∧
        document.fault = none ∧ document.isLast = true := by
  unfold runDocument StateT.run
  cases decoder root document.root document 0 with
  | error e =>
    simp [Bind.bind, Except.bind]
  | ok reached =>
    cases document.fault with
    | none => cases document.isLast <;> simp [Bind.bind, Except.bind, pure, Except.pure, throw, throwThe, MonadExceptOf.throw, Prod.ext_iff]
    | some fault => simp [Bind.bind, Except.bind, throw, throwThe, MonadExceptOf.throw]

theorem run_eq_ok_iff {decoder : Context → Node → Decoder α} {text : String} {value : α} :
    run decoder text = .ok value ↔
      (∃ jumps, decoder root (Document.ofText text).root (Document.ofText text) 0 = .ok (value, jumps)) ∧
        (Document.ofText text).fault = none ∧ (Document.ofText text).isLast = true :=
  runDocument_eq_ok_iff

theorem CoversNodes.run {full : Context → Node → Decoder α} {part : Context → Node → Decoder β}
    {rel : α → β → Prop} (covers : CoversNodes full part rel) {text : String} {value : α}
    (gives : run full text = .ok value) : ∃ result, run part text = .ok result ∧ rel value result := by
  obtain ⟨⟨jumps, reached⟩, only⟩ := run_eq_ok_iff.mp gives
  obtain ⟨result, after, run, _, related, _⟩ := (covers root _).within reached (Nat.le_refl 0)
  exact ⟨result, run_eq_ok_iff.mpr ⟨⟨after, run⟩, only⟩, related⟩

end Decoder

end WorkflowLint.Yaml

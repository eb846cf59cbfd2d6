import WorkflowLint.Proofs.Registry.Pool

/-! Tasks that run again on a memo that they have filled.

Whatever is replied, a registry that remembers never overwrites an entry. So a task that has run once
finds in any later memo all that it looks for: it then ends in the same value, and requests nothing. -/

set_option autoImplicit false

namespace WorkflowLint.Registry

variable {α β σ : Type}

/-- The two tables of a memo. Both are read and filled in the same way, so what is said here is said of
either. -/
inductive Table where
  | presence
  | newest
  deriving DecidableEq, Repr

namespace Table

abbrev Value : Table → Type
  | .presence => Bool
  | .newest => Option String

def otherwise : (table : Table) → table.Value
  | .presence => true
  | .newest => none

def ask {m : Type → Type} (registry : ActionRegistry m) (reference : ActionRef) : (table : Table) → m table.Value
  | .presence => registry.isPresent reference
  | .newest => registry.newest reference

def lookup (settings : Settings) (action : RemoteAction) : (table : Table) → Lookup table.Value
  | .presence => Registry.presence settings action
  | .newest => Registry.newest settings action

end Table

namespace Memo

def entries (memo : Memo) : (table : Table) → List (String × table.Value)
  | .presence => memo.presence
  | .newest => memo.newest

def keep (memo : Memo) (raw : String) : (table : Table) → table.Value → Memo
  | .presence, found => { memo with presence := (raw, found) :: memo.presence }
  | .newest, sha => { memo with newest := (raw, sha) :: memo.newest }

def Extends (earlier later : Memo) : Prop :=
  ∀ (table : Table) raw value, (earlier.entries table).lookup raw = some value →
    (later.entries table).lookup raw = some value

theorem Extends.refl (memo : Memo) : memo.Extends memo := fun _ _ _ known => known

theorem Extends.trans {first middle last : Memo} (left : first.Extends middle) (right : middle.Extends last) :
    first.Extends last := fun table raw value known => right table raw value (left table raw value known)

variable {memo : Memo} {raw : String} {table : Table}

@[simp] theorem entries_keep (value : table.Value) :
    (memo.keep raw table value).entries table = (raw, value) :: memo.entries table := by
  cases table <;> rfl

theorem entries_keep_of_ne {other : Table} (apart : other ≠ table) (value : table.Value) :
    (memo.keep raw table value).entries other = memo.entries other := by
  cases table <;> cases other <;> first | rfl | exact absurd rfl apart

/-- A new entry hides no other, as long as there was none for its text. -/
theorem lookup_cons_of_fresh {entries : List (String × α)} (fresh : entries.lookup raw = none) (value : α)
    {other : String} {found : α} (known : entries.lookup other = some found) :
    ((raw, value) :: entries).lookup other = some found := by
  have apart : other ≠ raw := by
    rintro rfl
    cases fresh.symm.trans known
  rw [List.lookup_cons, beq_eq_false_iff_ne.mpr apart]
  exact known

theorem extends_keep (fresh : (memo.entries table).lookup raw = none) (value : table.Value) :
    memo.Extends (memo.keep raw table value) := by
  intro other text found known
  by_cases same : other = table
  · subst same
    rw [entries_keep]
    exact lookup_cons_of_fresh fresh value known
  · rw [entries_keep_of_ne same]
    exact known

end Memo

namespace Task

/-- The task ends in this value by looking into the memo alone, where it finds all that it looks for. -/
def Settled (memo : Memo) (value : α) : Task α → Prop
  | .done result => result = value
  | .recallPresence raw next =>
    ∃ found, memo.presence.lookup raw = some found ∧ (next (some found)).Settled memo value
  | .recallNewest raw next =>
    ∃ sha, memo.newest.lookup raw = some sha ∧ (next (some sha)).Settled memo value
  | .request _ _ => False
  | .keepPresence _ _ _ => False
  | .keepNewest _ _ _ => False

-- Of all steps a settled task has only those that find an entry, and these are found again.
theorem Settled.mono {earlier later : Memo} (grown : earlier.Extends later) {task : Task α} {value : α}
    (settled : task.Settled earlier value) : task.Settled later value := by
  induction task with
  | done result => exact settled
  | recallPresence raw next ih =>
    obtain ⟨found, known, rest⟩ := settled
    exact ⟨found, grown .presence raw found known, ih _ rest⟩
  | recallNewest raw next ih =>
    obtain ⟨sha, known, rest⟩ := settled
    exact ⟨sha, grown .newest raw sha known, ih _ rest⟩
  | request | keepPresence | keepNewest => exact settled.elim

theorem settled_bind {memo : Memo} {task : Task α} {next : α → Task β} {value : β} :
    (task.bind next).Settled memo value ↔ ∃ first, task.Settled memo first ∧ (next first).Settled memo value := by
  induction task with
  | done result => simp [Task.bind, Settled]
  | recallPresence raw cont ih =>
    simp only [Task.bind, Settled, ih]
    constructor
    · rintro ⟨found, known, first, settled, rest⟩
      exact ⟨first, ⟨found, known, settled⟩, rest⟩
    · rintro ⟨first, ⟨found, known, settled⟩, rest⟩
      exact ⟨found, known, first, settled, rest⟩
  | recallNewest raw cont ih =>
    simp only [Task.bind, Settled, ih]
    constructor
    · rintro ⟨sha, known, first, settled, rest⟩
      exact ⟨first, ⟨sha, known, settled⟩, rest⟩
    · rintro ⟨first, ⟨sha, known, settled⟩, rest⟩
      exact ⟨sha, known, first, settled, rest⟩
  | request | keepPresence | keepNewest => simp [Task.bind, Settled]

theorem settled_pure {memo : Memo} {result value : α} :
    (pure result : Task α).Settled memo value ↔ value = result :=
  ⟨Eq.symm, Eq.symm⟩

/-- Where the first part can be settled under one condition and with one value only, the rest decides. -/
theorem settled_bind_of {memo : Memo} {known : Prop} {result : α} {task : Task α} {next : α → Task β}
    (first : ∀ value, task.Settled memo value ↔ known ∧ value = result) {value : β} :
    (task.bind next).Settled memo value ↔ known ∧ (next result).Settled memo value := by
  simp only [settled_bind, first, and_assoc, exists_and_left, exists_eq_left]

theorem Settled.run {memo : Memo} {task : Task α} {value : α} (settled : task.Settled memo value)
    (transport : Transport σ) (state : σ) : task.run transport memo state = ⟨value, memo, state, []⟩ := by
  induction task with
  | done result =>
    cases settled
    rfl
  | recallPresence raw next ih =>
    obtain ⟨found, known, rest⟩ := settled
    rw [Task.run, known]
    exact ih _ rest
  | recallNewest raw next ih =>
    obtain ⟨sha, known, rest⟩ := settled
    rw [Task.run, known]
    exact ih _ rest
  | request | keepPresence | keepNewest => exact settled.elim

/-- From every memo and through every transport, a run keeps what is known and leaves a memo on which
the task is settled with the value that it gave. -/
structure Replays (task : Task α) (post : α → Prop) : Prop where
  grows : ∀ {σ : Type} (transport : Transport σ) (memo : Memo) (state : σ),
    memo.Extends (task.run transport memo state).memo
  settles : ∀ {σ : Type} (transport : Transport σ) (memo : Memo) (state : σ),
    task.Settled (task.run transport memo state).memo (task.run transport memo state).value
  value : ∀ {σ : Type} (transport : Transport σ) (memo : Memo) (state : σ),
    post (task.run transport memo state).value

theorem replays_done {post : α → Prop} {value : α} (holds : post value) : (Task.done value).Replays post where
  grows _ memo _ := .refl memo
  settles _ _ _ := rfl
  value _ _ _ := holds

theorem replays_bind {post : α → Prop} {out : β → Prop} {task : Task α} {next : α → Task β}
    (first : task.Replays post) (rest : ∀ value, post value → (next value).Replays out) :
    (task.bind next).Replays out where
  grows transport memo state := by
    rw [run_bind]
    exact (first.grows transport memo state).trans
      ((rest _ (first.value transport memo state)).grows transport _ _)
  settles transport memo state := by
    have others := rest _ (first.value transport memo state)
    rw [run_bind]
    -- What the first part has found or kept is still there when the second part is through.
    exact settled_bind.mpr ⟨_, (first.settles transport memo state).mono (others.grows transport _ _),
      others.settles transport _ _⟩
  value transport memo state := by
    rw [run_bind]
    exact (rest _ (first.value transport memo state)).value transport _ _

theorem Replays.mono {post weaker : α → Prop} (implies : ∀ value, post value → weaker value) {task : Task α}
    (replays : task.Replays post) : task.Replays weaker where
  grows := replays.grows
  settles := replays.settles
  value transport memo state := implies _ (replays.value transport memo state)

def replaying : ResultLogic Task where
  Holds task post := task.Replays post
  pure holds := replays_done holds
  bind first rest := replays_bind first rest
  mono implies replays := replays.mono implies

theorem inOrder_holds (logic : ResultLogic Task) {tasks : List (Task α)}
    (each : ∀ task ∈ tasks, logic.Holds task fun _ => True) : logic.Holds (inOrder tasks) fun _ => True := by
  induction tasks with
  | nil => exact logic.pure trivial
  | cons task rest ih =>
    refine logic.bind (each task (by simp)) fun value _ => ?_
    refine logic.bind (ih fun other member => each other (List.mem_cons_of_mem _ member)) fun values _ => ?_
    exact logic.pure trivial

/-- Once it has run, and whatever has grown the memo since, the task gives the same value again, without
any request. -/
theorem Replays.again {post : α → Prop} {task : Task α} (replays : task.Replays post)
    (transport : Transport σ) (memo : Memo) (state : σ) {later : Memo}
    (grown : (task.run transport memo state).memo.Extends later) (state' : σ) :
    task.run transport later state' = ⟨(task.run transport memo state).value, later, state', []⟩ :=
  ((replays.settles transport memo state).mono grown).run transport state'

theorem run_bind_of {transport : Transport σ} {task : Task α} {memo : Memo} {state : σ} {first : Outcome α σ}
    (ran : task.run transport memo state = first) (next : α → Task β) :
    (task.bind next).run transport memo state =
      let rest := (next first.value).run transport first.memo first.state
      { rest with requested := first.requested ++ rest.requested } := by
  rw [run_bind, ran]

theorem run_ofLookup (transport : Transport σ) (lookup : Lookup α) (memo : Memo) (state : σ) :
    (Task.ofLookup lookup).run transport memo state =
      ⟨(lookup.run transport state).1, memo, (lookup.run transport state).2.1,
        (lookup.run transport state).2.2⟩ := by
  induction lookup generalizing state with
  | done value => rfl
  | ask url next ih => simp only [Task.ofLookup, Task.run, Lookup.run, ih]

end Task

section Remembered

variable {settings : Settings} {reference : ActionRef} {action : RemoteAction} {table : Table} {memo : Memo}

theorem ask_elsewhere (elsewhere : ∀ action, reference ≠ .remote action) :
    table.ask (remembering settings) reference = .done table.otherwise := by
  cases reference with
  | inTree raw => cases table <;> rfl
  | unpinned raw => cases table <;> rfl
  | remote action => exact absurd rfl (elsewhere action)

theorem run_ask_known {value : table.Value} (known : (memo.entries table).lookup action.raw = some value)
    (transport : Transport σ) (state : σ) :
    (table.ask (remembering settings) (.remote action)).run transport memo state = ⟨value, memo, state, []⟩ := by
  cases table with
  | presence =>
    have found : memo.presence.lookup action.raw = some value := known
    simp only [Table.ask, remembering, rememberedPresence, Task.run, found]
  | newest =>
    have found : memo.newest.lookup action.raw = some value := known
    simp only [Table.ask, remembering, rememberedNewest, Task.run, found]

theorem run_ask_fresh (fresh : (memo.entries table).lookup action.raw = none) (transport : Transport σ)
    (state : σ) :
    (table.ask (remembering settings) (.remote action)).run transport memo state =
      let (value, after, asked) := (table.lookup settings action).run transport state
      ⟨value, memo.keep action.raw table value, after, asked⟩ := by
  cases table with
  | presence =>
    have missing : memo.presence.lookup action.raw = none := fresh
    simp only [Table.ask, Table.lookup, remembering, rememberedPresence, Task.run, missing, Task.run_bind,
      Task.run_ofLookup, List.append_nil, Memo.keep]
  | newest =>
    have missing : memo.newest.lookup action.raw = none := fresh
    simp only [Table.ask, Table.lookup, remembering, rememberedNewest, Task.run, missing, Task.run_bind,
      Task.run_ofLookup, List.append_nil, Memo.keep]

theorem settled_ask_remote {value : table.Value} :
    (table.ask (remembering settings) (.remote action)).Settled memo value ↔
      (memo.entries table).lookup action.raw = some value := by
  cases table <;> simp [Table.ask, remembering, rememberedPresence, rememberedNewest, Task.Settled, Memo.entries]

end Remembered

section Remembering

variable (settings : Settings) (reference : ActionRef)

theorem ask_replays (table : Table) : (table.ask (remembering settings) reference).Replays fun _ => True := by
  by_cases remote : ∃ action, reference = .remote action
  · obtain ⟨action, rfl⟩ := remote
    refine ⟨fun transport memo state => ?_, fun transport memo state => ?_, fun _ _ _ => trivial⟩
    -- Only a text without an entry gets one, so nothing is overwritten.
    · cases known : (memo.entries table).lookup action.raw with
      | some value => exact (run_ask_known known transport state).symm ▸ .refl memo
      | none => exact (run_ask_fresh known transport state).symm ▸ Memo.extends_keep known _
    · rw [settled_ask_remote]
      cases known : (memo.entries table).lookup action.raw with
      | some value => rw [run_ask_known known transport state, known]
      | none => rw [run_ask_fresh known transport state]; simp
  · rw [ask_elsewhere fun action same => remote ⟨action, same⟩]
    exact Task.replays_done trivial

theorem updateUrl_replays : ((remembering settings).updateUrl reference).Replays fun _ => True := by
  cases reference with
  | inTree raw => exact Task.replays_done trivial
  | unpinned raw => exact Task.replays_done trivial
  | remote action =>
    exact Task.replays_bind (ask_replays settings (.remote action) .newest) fun sha _ =>
      Task.replays_done trivial

end Remembering

end WorkflowLint.Registry

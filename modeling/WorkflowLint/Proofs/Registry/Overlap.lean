import WorkflowLint.Proofs.Http.Absence
import WorkflowLint.Proofs.Registry.History

/-! Lookups of one reference by several workers.

Between the look into the memo that finds no entry and the step that keeps one, others may look too. Two
workers that miss the same entry ask for it both, and each answers what it is replied itself. As long as
no entry is missed while another worker that has missed it is still under way, the memo only grows, and
all answers are those of one registry. -/

set_option autoImplicit false

namespace WorkflowLint.Registry

variable {α β : Type} {replies : String → Reply → Prop}

namespace Task

/-- The task has missed the entry and keeps it before it looks for anything else. -/
def Awaits (entry : Table × String) : Task α → Prop
  | .request _ next => ∀ reply, (next reply).Awaits entry
  | .keepPresence raw _ _ => entry = (.presence, raw)
  | .keepNewest raw _ _ => entry = (.newest, raw)
  | .done _ => False
  | .recallPresence _ _ => False
  | .recallNewest _ _ => False

def Misses (memo : Memo) (entry : Table × String) : Task α → Prop
  | .recallPresence raw _ => entry = (.presence, raw) ∧ ¬memo.Knows entry
  | .recallNewest raw _ => entry = (.newest, raw) ∧ ¬memo.Knows entry
  | .done _ => False
  | .request _ _ => False
  | .keepPresence _ _ _ => False
  | .keepNewest _ _ _ => False

/-- The task keeps what it has missed last, and nothing else; `pending` is what it still has to keep. -/
def Careful : Task α → Option (Table × String) → Prop
  | .done _, pending => pending = none
  | .request _ next, pending => ∀ reply, (next reply).Careful pending
  | .recallPresence raw next, pending =>
    pending = none ∧ (∀ found, (next (some found)).Careful none) ∧
      (next none).Careful (some (.presence, raw))
  | .keepPresence raw _ next, pending => pending = some (.presence, raw) ∧ next.Careful none
  | .recallNewest raw next, pending =>
    pending = none ∧ (∀ sha, (next (some sha)).Careful none) ∧ (next none).Careful (some (.newest, raw))
  | .keepNewest raw _ next, pending => pending = some (.newest, raw) ∧ next.Careful none

theorem Careful.awaits {task : Task α} {pending : Option (Table × String)} (careful : task.Careful pending)
    (entry : Table × String) : task.Awaits entry ↔ pending = some entry := by
  induction task with
  | done value =>
    obtain rfl := careful
    simp [Awaits]
  | request url next ih =>
    have each : ∀ reply, (next reply).Awaits entry ↔ pending = some entry :=
      fun reply => ih reply (careful reply)
    simp only [Awaits, each]
    exact ⟨fun all => all (.error .notFound), fun same _ => same⟩
  | recallPresence raw next | recallNewest raw next =>
    obtain ⟨rfl, _⟩ := careful
    simp [Awaits]
  | keepPresence raw found next | keepNewest raw sha next =>
    obtain ⟨rfl, _⟩ := careful
    simp [Awaits, eq_comm]

theorem careful_bind {task : Task α} {next : α → Task β} {pending : Option (Table × String)}
    (first : task.Careful pending) (rest : ∀ value, (next value).Careful none) :
    (task.bind next).Careful pending := by
  induction task generalizing pending with
  | done value =>
    obtain rfl := first
    exact rest value
  | request url cont ih => exact fun reply => ih reply (first reply)
  | recallPresence raw cont ih | recallNewest raw cont ih =>
    obtain ⟨free, hit, miss⟩ := first
    exact ⟨free, fun known => ih _ (hit known), ih _ miss⟩
  | keepPresence raw found cont ih | keepNewest raw sha cont ih => exact ⟨first.1, ih first.2⟩

/-- Requests come between what is missed and what is kept. -/
theorem careful_bind_lookup {lookup : Lookup α} {next : α → Task β} {pending : Option (Table × String)}
    (rest : ∀ value, (next value).Careful pending) : ((ofLookup lookup).bind next).Careful pending := by
  induction lookup with
  | done value => exact rest value
  | ask url cont ih => exact fun reply => ih reply

end Task

theorem Memo.not_knows {memo : Memo} {table : Table} {raw : String} :
    ¬memo.Knows (table, raw) ↔ (memo.entries table).lookup raw = none := by
  simp [Memo.Knows, Option.eq_none_iff_forall_ne_some]

theorem Memo.knows_keep {memo : Memo} {table : Table} {raw : String} {value : table.Value}
    {entry : Table × String} (known : (memo.keep raw table value).Knows entry) :
    memo.Knows entry ∨ entry = (table, raw) := by
  obtain ⟨other, text⟩ := entry
  by_cases same : other = table
  · subst same
    by_cases here : text = raw
    · exact .inr (by rw [here])
    · obtain ⟨found, known⟩ := known
      rw [entries_keep, List.lookup_cons, beq_eq_false_iff_ne.mpr here] at known
      exact .inl ⟨found, known⟩
  · obtain ⟨found, known⟩ := known
    rw [entries_keep_of_ne same] at known
    exact .inl ⟨found, known⟩

/-- What a step leads to that starts with `pending` and ends with `pending'`. -/
structure Task.Progress (task next : Task α) (memo memo' : Memo) (pending pending' : Option (Table × String)) :
    Prop where
  careful : next.Careful pending'
  grown : memo.Extends memo'
  kept : ∀ entry, memo'.Knows entry → memo.Knows entry ∨ pending = some entry
  fresh : ∀ entry, pending' = some entry → ¬memo'.Knows entry
  missed : ∀ entry, pending' = some entry → pending = some entry ∨ task.Misses memo entry

theorem Task.Step.progress {task next : Task α} {memo memo' : Memo}
    (step : Task.Step replies task memo next memo') {pending : Option (Table × String)}
    (careful : task.Careful pending) (fresh : ∀ entry, pending = some entry → ¬memo.Knows entry) :
    ∃ pending', task.Progress next memo memo' pending pending' := by
  -- The two kinds of step that matter, for both tables at once: a look leaves an entry pending just when
  -- it finds none, and what is kept was pending, so that no entry is overwritten.
  have recalled : ∀ (table : Table) (raw : String) (next : Option table.Value → Task α),
      (∀ value, (next (some value)).Careful none) → (next none).Careful (some (table, raw)) →
      (¬memo.Knows (table, raw) → task.Misses memo (table, raw)) →
      ∃ pending', task.Progress (next ((memo.entries table).lookup raw)) memo memo none pending' := by
    intro table raw next hit miss misses
    cases known : (memo.entries table).lookup raw with
    | some value => exact ⟨none, hit value, .refl memo, fun _ known => .inl known, nofun, nofun⟩
    | none =>
      have unknown := Memo.not_knows.mpr known
      refine ⟨some (table, raw), miss, .refl memo, fun _ known => .inl known, ?_, ?_⟩
      · rintro _ ⟨rfl⟩
        exact unknown
      · rintro _ ⟨rfl⟩
        exact .inr (misses unknown)
  have kept : ∀ (table : Table) (raw : String) (value : table.Value), pending = some (table, raw) →
      next.Careful none → ∃ pending', task.Progress next memo (memo.keep raw table value) pending pending' := by
    intro table raw value awaited rest
    have unknown := fresh _ awaited
    refine ⟨none, rest, Memo.extends_keep (Memo.not_knows.mp unknown) value, ?_, nofun, nofun⟩
    intro entry known
    rcases Memo.knows_keep known with known | rfl
    · exact .inl known
    · exact .inr awaited
  cases step with
  | request =>
    exact ⟨pending, careful _, .refl memo, fun _ known => .inl known, fresh, fun _ same => .inl same⟩
  | @recallPresence raw next =>
    obtain ⟨rfl, hit, miss⟩ := careful
    exact recalled .presence raw next hit miss fun unknown => ⟨rfl, unknown⟩
  | @recallNewest raw next =>
    obtain ⟨rfl, hit, miss⟩ := careful
    exact recalled .newest raw next hit miss fun unknown => ⟨rfl, unknown⟩
  | @keepPresence raw found => exact kept .presence raw found careful.1 careful.2
  | @keepNewest raw sha => exact kept .newest raw sha careful.1 careful.2

namespace Pool

/-- Some task makes its next step, and if it misses an entry, then no task is under way that has missed
the same one. -/
inductive StepApart (replies : String → Reply → Prop) : Pool α → Pool α → Prop where
  | advance {pool : Pool α} {place : Nat} {task next : Task α} {memo : Memo} :
      pool.tasks[place]? = some task → Task.Step replies task pool.memo next memo →
      (∀ entry, task.Misses pool.memo entry → ∀ other ∈ pool.tasks, ¬other.Awaits entry) →
      StepApart replies pool ⟨pool.tasks.set place next, memo⟩

def RunsApart (replies : String → Reply → Prop) : Pool α → Pool α → Prop :=
  Relation.ReflTransGen (StepApart replies)

theorem RunsApart.runs {before after : Pool α} (run : RunsApart replies before after) :
    Runs replies before after := by
  induction run with
  | refl => exact .refl
  | tail _ step ih =>
    obtain ⟨selected, step, _⟩ := step
    exact .tail ih (.advance selected step)

/-- What each task has pending: different entries, none of which the memo has. -/
structure Tracked (pool : Pool α) (pending : Nat → Option (Table × String)) : Prop where
  careful : ∀ place (task : Task α), pool.tasks[place]? = some task → task.Careful (pending place)
  inside : ∀ place entry, pending place = some entry → place < pool.tasks.length
  fresh : ∀ place entry, pending place = some entry → ¬pool.memo.Knows entry
  single : ∀ place other entry, pending place = some entry → pending other = some entry → place = other

/-- One task goes on, to keep something else or nothing; the others still have pending what they had. -/
theorem Tracked.set {tasks : List (Task α)} {memo memo' : Memo} {pending : Nat → Option (Table × String)}
    (tracked : Tracked ⟨tasks, memo⟩ pending) {place : Nat} (inside : place < tasks.length)
    {next : Task α} {pending' : Option (Table × String)} (careful : next.Careful pending')
    (fresh : ∀ entry, pending' = some entry → ¬memo'.Knows entry)
    (elsewhere : ∀ other entry, other ≠ place → pending other = some entry →
      pending' ≠ some entry ∧ ¬memo'.Knows entry) :
    Tracked ⟨tasks.set place next, memo'⟩ (Function.update pending place pending') := by
  -- Each fact is one of the changed place or of another one.
  refine ⟨?careful, ?inside, ?fresh, ?single⟩
  case careful =>
    intro other task selected
    by_cases here : other = place
    · subst here
      rw [List.getElem?_set_self inside] at selected
      cases selected
      rw [Function.update_self]
      exact careful
    · rw [List.getElem?_set_ne (Ne.symm here)] at selected
      rw [Function.update_of_ne here]
      exact tracked.careful other task selected
  case inside =>
    intro other entry waits
    rw [List.length_set]
    by_cases here : other = place
    · exact here ▸ inside
    · rw [Function.update_of_ne here] at waits
      exact tracked.inside other entry waits
  case fresh =>
    intro other entry waits
    by_cases here : other = place
    · subst here
      rw [Function.update_self] at waits
      exact fresh entry waits
    · rw [Function.update_of_ne here] at waits
      exact (elsewhere other entry here waits).2
  case single =>
    intro first second entry waits waits'
    by_cases here : first = place <;> by_cases there : second = place
    · rw [here, there]
    · subst here
      rw [Function.update_self] at waits
      rw [Function.update_of_ne there] at waits'
      exact absurd waits (elsewhere second entry there waits').1
    · subst there
      rw [Function.update_self] at waits'
      rw [Function.update_of_ne here] at waits
      exact absurd waits' (elsewhere first entry here waits).1
    · rw [Function.update_of_ne here] at waits
      rw [Function.update_of_ne there] at waits'
      exact tracked.single first second entry waits waits'

theorem StepApart.tracked {before after : Pool α} (step : StepApart replies before after)
    {pending : Nat → Option (Table × String)} (tracked : before.Tracked pending) :
    before.memo.Extends after.memo ∧ ∃ pending, after.Tracked pending := by
  cases step with
  | @advance place task next memo selected step apart =>
  have inside := (List.getElem?_eq_some_iff.mp selected).1
  obtain ⟨pending', progress⟩ := step.progress (tracked.careful place task selected) (tracked.fresh place)
  refine ⟨progress.grown, _, tracked.set inside progress.careful progress.fresh ?_⟩
  intro other entry away waits
  -- What is pending elsewhere was not pending here, so that it has not been kept by this step, and no
  -- step that overlaps with it misses it.
  have notBefore : pending place ≠ some entry := fun same =>
    away (tracked.single other place entry waits same)
  constructor
  · intro same
    rcases progress.missed entry same with same | misses
    · exact notBefore same
    · obtain ⟨task', there⟩ : ∃ task', before.tasks[other]? = some task' :=
        ⟨_, List.getElem?_eq_getElem (tracked.inside other entry waits)⟩
      have awaits := ((tracked.careful other task' there).awaits entry).mpr waits
      exact apart entry misses task' (List.mem_of_getElem? there) awaits
  · intro known
    rcases progress.kept entry known with known | same
    · exact tracked.fresh other entry waits known
    · exact notBefore same

theorem RunsApart.grows {before after : Pool α} (run : RunsApart replies before after)
    (tracked : ∃ pending, before.Tracked pending) : before.memo.Extends after.memo := by
  induction run using Relation.ReflTransGen.head_induction_on with
  | refl => exact .refl _
  | head step _ ih =>
    obtain ⟨pending, tracked⟩ := tracked
    obtain ⟨grown, later⟩ := step.tracked tracked
    exact grown.trans (ih later)

theorem StepApart.within {before after : List (Task α)} {task next : Task α} {memo memo' : Memo}
    (idle : ∀ other ∈ before ++ after, ∀ entry, ¬other.Awaits entry)
    (step : Task.Step replies task memo next memo') :
    StepApart replies ⟨before ++ task :: after, memo⟩ ⟨before ++ next :: after, memo'⟩ := by
  have selected : (before ++ task :: after)[before.length]? = some task := by simp
  have apart : ∀ entry, task.Misses memo entry → ∀ other ∈ before ++ task :: after, ¬other.Awaits entry := by
    intro entry misses other member
    rcases List.mem_append.mp member with front | _ | ⟨_, back⟩
    · exact idle other (List.mem_append_left _ front) entry
    -- A task that looks for an entry is through with the one before it.
    · cases task <;> first | exact id | exact misses.elim
    · exact idle other (List.mem_append_right _ back) entry
  have advanced : StepApart replies ⟨before ++ task :: after, memo⟩ _ := .advance selected step apart
  rwa [List.set_append_right _ _ le_rfl, Nat.sub_self, List.set_cons_zero] at advanced

theorem runsApart_task {σ : Type} {transport : Transport σ}
    (replied : ∀ url state, replies url (transport url state).1) {before after : List (Task α)}
    (idle : ∀ other ∈ before ++ after, ∀ entry, ¬other.Awaits entry) (task : Task α) (memo : Memo)
    (state : σ) :
    RunsApart replies ⟨before ++ task :: after, memo⟩
      ⟨before ++ .done (task.run transport memo state).value :: after,
        (task.run transport memo state).memo⟩ := by
  induction task generalizing memo state with
  | done value => exact .refl
  | request url next ih => exact .head (.within idle (.request (replied url state))) (ih _ _ _)
  | recallPresence raw next ih => exact .head (.within idle .recallPresence) (ih _ _ _)
  | keepPresence raw found next ih => exact .head (.within idle .keepPresence) (ih _ _)
  | recallNewest raw next ih => exact .head (.within idle .recallNewest) (ih _ _ _)
  | keepNewest raw sha next ih => exact .head (.within idle .keepNewest) (ih _ _)

/-- Careful tasks that run one after the other never overlap. -/
theorem runsApart_inOrder {σ : Type} {transport : Transport σ}
    (replied : ∀ url state, replies url (transport url state).1) {tasks : List (Task α)}
    (careful : ∀ task ∈ tasks, task.Careful none) (memo : Memo) (state : σ) :
    ∃ pool : Pool α, RunsApart replies ⟨tasks, memo⟩ pool ∧
      pool.Finished ((Task.inOrder tasks).run transport memo state).value := by
  -- Induction on the tasks still to run, with those before them done.
  suffices general : ∀ done : List α, RunsApart replies ⟨done.map .done ++ tasks, memo⟩
      ⟨done.map .done ++ ((Task.inOrder tasks).run transport memo state).value.map .done,
        ((Task.inOrder tasks).run transport memo state).memo⟩ from ⟨_, general [], rfl⟩
  induction tasks generalizing memo state with
  | nil => exact fun done => .refl
  | cons task rest ih =>
    intro done
    have idle : ∀ other ∈ done.map Task.done ++ rest, ∀ entry, ¬other.Awaits entry := by
      intro other member entry
      rcases List.mem_append.mp member with ended | waiting
      · obtain ⟨value, _, rfl⟩ := List.mem_map.mp ended
        exact id
      · rw [(careful other (.tail _ waiting)).awaits entry]
        exact nofun
    have first := runsApart_task replied idle task memo state
    let outcome := task.run transport memo state
    have others := ih (fun other member => careful other (.tail _ member)) outcome.memo outcome.state
      (done ++ [outcome.value])
    simp only [List.map_append, List.map_cons, List.map_nil, List.append_assoc, List.cons_append,
      List.nil_append] at others
    simp only [Task.inOrder, Task.run_bind, Task.run, List.map_cons]
    exact first.trans others

end Pool

section Final

/-- Given that all entries which are found or kept are those of `final`, the value satisfies `post`. -/
def Task.Follows (final : Memo) (post : α → Prop) : Task α → Prop
  | .done value => post value
  | .request _ next => ∀ reply, (next reply).Follows final post
  | .recallPresence raw next =>
    ∀ known, (∀ found, known = some found → final.presence.lookup raw = some found) →
      (next known).Follows final post
  | .keepPresence raw found next => final.presence.lookup raw = some found → next.Follows final post
  | .recallNewest raw next =>
    ∀ known, (∀ sha, known = some sha → final.newest.lookup raw = some sha) →
      (next known).Follows final post
  | .keepNewest raw sha next => final.newest.lookup raw = some sha → next.Follows final post

variable {final : Memo}

theorem Task.follows_bind {post : α → Prop} {out : β → Prop} {task : Task α} {next : α → Task β}
    (first : task.Follows final post) (rest : ∀ value, post value → (next value).Follows final out) :
    (task.bind next).Follows final out := by
  induction task with
  | done value => exact rest value first
  | request url cont ih => exact fun reply => ih reply (first reply)
  | recallPresence raw cont ih | recallNewest raw cont ih => exact fun known same => ih known (first known same)
  | keepPresence raw found cont ih | keepNewest raw sha cont ih => exact fun kept => ih (first kept)

theorem Task.follows_lookup {lookup : Lookup α} {next : α → Task β} {post : β → Prop}
    (rest : ∀ value, (next value).Follows final post) :
    ((ofLookup lookup).bind next).Follows final post := by
  induction lookup with
  | done value => exact rest value
  | ask url cont ih => exact fun reply => ih reply

theorem Task.Step.follows {task next : Task α} {memo memo' : Memo}
    (step : Task.Step replies task memo next memo') (found : memo.Extends final)
    (kept : memo'.Extends final) {post : α → Prop} (follows : task.Follows final post) :
    next.Follows final post := by
  cases step with
  | request => exact follows _
  | recallPresence => exact follows _ fun value known => found .presence _ value known
  | recallNewest => exact follows _ fun value known => found .newest _ value known
  | keepPresence => exact follows (kept .presence _ _ (by simp [Memo.entries]))
  | keepNewest => exact follows (kept .newest _ _ (by simp [Memo.entries]))

theorem Pool.RunsApart.values {before after : Pool α} (run : RunsApart replies before after)
    (tracked : ∃ pending, before.Tracked pending) {post : α → Prop}
    (follows : ∀ task ∈ before.tasks, task.Follows after.memo post) :
    ∀ task ∈ after.tasks, task.Follows after.memo post := by
  induction run using Relation.ReflTransGen.head_induction_on with
  | refl => exact follows
  | @head before middle step rest ih =>
    obtain ⟨pending, tracked⟩ := tracked
    obtain ⟨grown, later⟩ := step.tracked tracked
    have kept := RunsApart.grows rest later
    refine ih later fun task member => ?_
    cases step with
    | @advance place task next memo selected step =>
      rcases List.mem_or_eq_of_mem_set member with waiting | rfl
      · exact follows _ waiting
      · exact step.follows (grown.trans kept) kept (follows _ (List.mem_of_getElem? selected))

end Final

section Workers

variable (settings : Settings)

theorem ask_careful (table : Table) (reference : ActionRef) :
    (table.ask (remembering settings) reference).Careful none := by
  by_cases remote : ∃ action, reference = .remote action
  · obtain ⟨action, rfl⟩ := remote
    cases table with
    | presence => exact ⟨rfl, fun _ => rfl, Task.careful_bind_lookup fun _ => ⟨rfl, rfl⟩⟩
    | newest => exact ⟨rfl, fun _ => rfl, Task.careful_bind_lookup fun _ => ⟨rfl, rfl⟩⟩
  · rw [ask_elsewhere fun action same => remote ⟨action, same⟩]
    rfl

theorem ask_follows (table : Table) (reference : ActionRef) (final : Memo) :
    (table.ask (remembering settings) reference).Follows final
      (· = (table.ask (final.recorded settings) reference : Id _)) := by
  by_cases remote : ∃ action, reference = .remote action
  · obtain ⟨action, rfl⟩ := remote
    have recorded : ∀ value : table.Value, (final.entries table).lookup action.raw = some value →
        value = (table.ask (final.recorded settings) (.remote action) : Id _) := by
      intro value known
      rw [Memo.ask_recorded, known, Option.getD_some]
    cases table with
    | presence =>
      intro known same
      cases known with
      | some found => exact recorded found (same found rfl)
      | none => exact Task.follows_lookup recorded
    | newest =>
      intro known same
      cases known with
      | some sha => exact recorded sha (same sha rfl)
      | none => exact Task.follows_lookup recorded
  · rw [ask_elsewhere fun action same => remote ⟨action, same⟩]
    exact (Memo.ask_recorded_elsewhere fun action same => remote ⟨action, same⟩).symm

/-- A worker, which asks one query after the other, each in the light of the answers before it. -/
inductive Worker where
  | rest
  | ask (query : Query) (next : Answer → Worker)

def Worker.task : Worker → Task (List (Query × Answer))
  | .rest => .done []
  | .ask query next =>
    (query.ask (remembering settings)).bind fun answer =>
      ((next answer).task).bind fun others => .done ((query, answer) :: others)

theorem Query.ask_careful (query : Query) : (query.ask (remembering settings)).Careful none := by
  cases query with
  | presence text => exact Task.careful_bind (Registry.ask_careful settings .presence _) fun _ => rfl
  | newest text => exact Task.careful_bind (Registry.ask_careful settings .newest _) fun _ => rfl
  | update text =>
    refine Task.careful_bind ?_ fun _ => rfl
    cases ActionRef.parse text with
    | inTree raw | unpinned raw => rfl
    | remote action =>
      exact Task.careful_bind (Registry.ask_careful settings .newest (.remote action)) fun _ => rfl

theorem Query.ask_follows (query : Query) (final : Memo) :
    (query.ask (remembering settings)).Follows final
      (· = (query.ask (final.recorded settings) : Id Answer)) := by
  cases query with
  | presence text =>
    refine Task.follows_bind (Registry.ask_follows settings .presence _ final) ?_
    rintro _ rfl
    rfl
  | newest text =>
    refine Task.follows_bind (Registry.ask_follows settings .newest _ final) ?_
    rintro _ rfl
    rfl
  | update text =>
    have update : ((remembering settings).updateUrl (.parse text)).Follows final
        (· = ((final.recorded settings).updateUrl (.parse text) : Id (Option String))) := by
      cases ActionRef.parse text with
      | inTree raw | unpinned raw => rfl
      | remote action =>
        refine Task.follows_bind (Registry.ask_follows settings .newest (.remote action) final) ?_
        rintro _ rfl
        rfl
    refine Task.follows_bind update ?_
    rintro _ rfl
    rfl

theorem Worker.task_careful (worker : Worker) : (worker.task settings).Careful none := by
  induction worker with
  | rest => rfl
  | ask query next ih =>
    exact Task.careful_bind (query.ask_careful settings) fun answer =>
      Task.careful_bind (ih answer) fun _ => rfl

theorem Worker.task_follows (worker : Worker) (final : Memo) :
    (worker.task settings).Follows final fun answered => ∀ exchange ∈ answered,
      exchange.2 = (exchange.1.ask (final.recorded settings) : Id Answer) := by
  induction worker with
  | rest => exact nofun
  | ask query next ih =>
    refine Task.follows_bind (query.ask_follows settings final) fun answer same => ?_
    refine Task.follows_bind (ih answer) fun others answered => ?_
    rintro exchange (_ | ⟨_, member⟩)
    · exact same
    · exact answered exchange member

/-- Workers that share a memo get the answers of one registry, whatever is replied, in every schedule in
which no entry is missed by a worker while another one looks it up: all answers that are given for the
same text agree. -/
theorem answers_apart (workers : List Worker) (memo : Memo) (pool : Pool (List (Query × Answer)))
    (values : List (List (Query × Answer)))
    (schedule : Pool.RunsApart replies ⟨workers.map (Worker.task settings), memo⟩ pool)
    (finished : pool.Finished values) :
    ∃ fixed : ActionRegistry Id, ∀ answered ∈ values, ∀ exchange ∈ answered,
      exchange.2 = exchange.1.ask fixed := by
  -- The memo at the end holds all entries that were ever found or kept, so its answers are the ones given.
  refine ⟨pool.memo.recorded settings, fun answered member => ?_⟩
  have tracked : Pool.Tracked ⟨workers.map (Worker.task settings), memo⟩ fun _ => none := by
    refine ⟨fun place task selected => ?_, nofun, nofun, nofun⟩
    obtain ⟨worker, _, rfl⟩ := List.mem_map.mp (List.mem_of_getElem? selected)
    exact worker.task_careful settings
  have done : Task.done answered ∈ pool.tasks := by
    rw [finished]
    exact List.mem_map_of_mem member
  have followed : (Task.done answered).Follows pool.memo fun answered => ∀ exchange ∈ answered,
      exchange.2 = (exchange.1.ask (pool.memo.recorded settings) : Id Answer) := by
    refine schedule.values ⟨_, tracked⟩ (fun task member => ?_) _ done
    obtain ⟨worker, _, rfl⟩ := List.mem_map.mp member
    exact worker.task_follows settings pool.memo
  exact followed

theorem answers_apart_firstMissing :
    let worker : Worker := .ask (.presence "o/r@1") fun _ => .rest
    let values : List (List (Query × Answer)) := .replicate 2 [(.presence "o/r@1", .presence false)]
    let anything : String → Reply → Prop := fun _ _ => True
    ∃ pool, Pool.RunsApart anything ⟨[worker, worker].map (Worker.task {}), .empty⟩ pool ∧
      pool.Finished values ∧ ∃ fixed : ActionRegistry Id, ∀ answered ∈ values, ∀ exchange ∈ answered,
        exchange.2 = exchange.1.ask fixed := by
  intro worker values anything
  have careful : ∀ task ∈ [worker, worker].map (Worker.task {}), task.Careful none := by
    intro task member
    obtain ⟨worker, _, rfl⟩ := List.mem_map.mp member
    exact worker.task_careful {}
  have replied : ∀ url state, anything url (firstMissing url state).1 := fun _ _ => trivial
  obtain ⟨pool, schedule, finished⟩ := Pool.runsApart_inOrder replied careful .empty 0
  have ran : ((Task.inOrder ([worker, worker].map (Worker.task {}))).run firstMissing .empty 0).value =
      values := by
    decide +kernel
  rw [ran] at finished
  exact ⟨pool, schedule, finished, answers_apart {} [worker, worker] .empty pool values schedule finished⟩

end Workers

section Overlapping

variable {settings : Settings} {action : RemoteAction} {url : String}

def newestOf : Reply → Option String
  | .ok commits => (commits.item? 0).bind (textAt? "sha")
  | .error _ => none

theorem newest_asks (history : settings.historyUrl action = some url) :
    newest settings action = .ask url fun reply => .done (newestOf reply) := by
  simp only [newest, history, Lookup.fetch]
  congr 1
  funext reply
  cases reply <;> rfl

variable (replies : String → Reply → Prop) (table : Table) {judge : Reply → table.Value}

theorem steps_missed
    (asks : table.lookup settings action = .ask url fun reply => .done (judge reply)) :
    ∃ (missed : Task table.Value) (told : Reply → Task table.Value),
      Task.Step replies (table.ask (remembering settings) (.remote action)) .empty missed .empty ∧
      (∀ reply memo, replies url reply → Task.Step replies missed memo (told reply) memo) ∧
      ∀ reply (memo : Memo), Task.Step replies (told reply) memo (.done (judge reply))
        (memo.keep action.raw table (judge reply)) := by
  cases table with
  | presence =>
    refine ⟨.request url fun reply => .keepPresence action.raw (judge reply) (.done (judge reply)),
      fun reply => .keepPresence action.raw (judge reply) (.done (judge reply)), ?_,
      fun _ _ replied => .request replied, fun _ _ => .keepPresence⟩
    have looked : presence settings action = _ := asks
    have step : Task.Step replies (rememberedPresence settings action) .empty _ .empty := .recallPresence
    rwa [Memo.empty, List.lookup_nil, looked] at step
  | newest =>
    refine ⟨.request url fun reply => .keepNewest action.raw (judge reply) (.done (judge reply)),
      fun reply => .keepNewest action.raw (judge reply) (.done (judge reply)), ?_,
      fun _ _ replied => .request replied, fun _ _ => .keepNewest⟩
    have looked : newest settings action = _ := asks
    have step : Task.Step replies (rememberedNewest settings action) .empty _ .empty := .recallNewest
    rwa [Memo.empty, List.lookup_nil, looked] at step

/-- Two workers that miss the same entry both ask for it. Each answers what it is replied itself, however
much the two replies differ. -/
theorem runs_overlapping (asks : table.lookup settings action = .ask url fun reply => .done (judge reply))
    {first second : Reply} (replied : replies url first) (replied' : replies url second) :
    let worker := table.ask (remembering settings) (.remote action)
    ∃ pool, Pool.Runs replies ⟨[worker, worker], .empty⟩ pool ∧ pool.Finished [judge first, judge second] := by
  intro worker
  obtain ⟨missed, told, looks, asked, keeps⟩ := steps_missed replies table asks
  let memo := Memo.empty.keep action.raw table (judge first)
  have bothMiss : Pool.Runs replies ⟨[worker, worker], .empty⟩ ⟨[missed, missed], .empty⟩ :=
    .tail (.single (.within [] [worker] looks)) (.within [missed] [] looks)
  have bothAsk : Pool.Runs replies ⟨[missed, missed], .empty⟩ ⟨[told first, told second], .empty⟩ :=
    .tail (.single (.within [] [missed] (asked first _ replied)))
      (.within [told first] [] (asked second _ replied'))
  have bothKeep : Pool.Runs replies ⟨[told first, told second], .empty⟩
      ⟨[.done (judge first), .done (judge second)], memo.keep action.raw table (judge second)⟩ :=
    .tail (.single (.within [] [told second] (keeps first _)))
      (.within [.done (judge first)] [] (keeps second _))
  exact ⟨_, (bothMiss.trans bothAsk).trans bothKeep, rfl⟩

/-- Two workers that look for the same action at once: one is told that it is missing, the other that it
cannot be asked for now, and they answer differently. So do two that look for the newest commit. -/
theorem answers_differ :
    let limited : Reply := .error .rateLimited
    let commits : Reply := .ok (.array [.object [("sha", .string "c")]])
    let either (first second : Reply) : String → Reply → Prop := fun _ reply => reply = first ∨ reply = second
    let lookup : Task Bool := (remembering {}).isPresent (.parse "o/r@1")
    let news : Task (Option String) := (remembering {}).newest (.parse "bitwarden/a/b@1")
    (∃ pool, Pool.Runs (either (.error .notFound) limited) ⟨[lookup, lookup], .empty⟩ pool ∧
      pool.Finished [false, true]) ∧
    ∃ pool, Pool.Runs (either limited commits) ⟨[news, news], .empty⟩ pool ∧
      pool.Finished [none, some "c"] := by
  intro limited commits either lookup news
  have replied : ∀ (first second : Reply) (url : String), either first second url first :=
    fun _ _ _ => .inl rfl
  have replied' : ∀ (first second : Reply) (url : String), either first second url second :=
    fun _ _ _ => .inr rfl
  have usable : (Url.parse (withoutTrailingSlashes defaultApiUrl)).any Url.canBeBase = true := by
    decide +kernel
  obtain ⟨base, parsed, hierarchical⟩ := (Option.any_eq_true _ _).mp usable
  constructor
  · let action : RemoteAction := ⟨"o/r@1", "o", some "r", none, "1"⟩
    have read : ActionRef.parse "o/r@1" = .remote action := by decide +kernel
    obtain ⟨url, accepts, _, asks, _⟩ := @presence_asks {} action _ _ rfl parsed hierarchical
    simp only [lookup, read]
    exact runs_overlapping _ .presence asks (replied _ limited url) (replied' _ limited url)
  · let action : RemoteAction := ⟨"bitwarden/a/b@1", "bitwarden", some "a", some "b", "1"⟩
    have read : ActionRef.parse "bitwarden/a/b@1" = .remote action := by decide +kernel
    let url : String := "https://api.github.com/repos/bitwarden/a/commits?path=b"
    have history : Settings.historyUrl {} action = some url := by decide +kernel
    simp only [news, read]
    exact runs_overlapping _ .newest (newest_asks history) (replied limited commits url)
      (replied' limited commits url)

end Overlapping

end WorkflowLint.Registry

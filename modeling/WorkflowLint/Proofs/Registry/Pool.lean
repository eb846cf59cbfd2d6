import Mathlib.Data.Multiset.AddSub
import Mathlib.Logic.Hydra
import WorkflowLint.Proofs.Registry.Contract

/-! Tasks side by side on one memo.

A step of a pool is one atomic step of one of its tasks: a look into the memo, an entry, or a request
with its reply. Any task may be the next one, so a run is any interleaving of all of them. A worker
that takes several tasks in turn is the schedule that has the others of its tasks wait. -/

set_option autoImplicit false

namespace WorkflowLint.Registry

variable {α σ : Type}

/-- One atomic step of a task. Which reply a request gets is left open within `replies`. -/
inductive Task.Step (replies : String → Reply → Prop) : Task α → Memo → Task α → Memo → Prop where
  | request {url : String} {next : Reply → Task α} {memo : Memo} {reply : Reply} :
      replies url reply → Step replies (.request url next) memo (next reply) memo
  | recallPresence {raw : String} {next : Option Bool → Task α} {memo : Memo} :
      Step replies (.recallPresence raw next) memo (next (memo.presence.lookup raw)) memo
  | keepPresence {raw : String} {found : Bool} {next : Task α} {memo : Memo} :
      Step replies (.keepPresence raw found next) memo next
        { memo with presence := (raw, found) :: memo.presence }
  | recallNewest {raw : String} {next : Option (Option String) → Task α} {memo : Memo} :
      Step replies (.recallNewest raw next) memo (next (memo.newest.lookup raw)) memo
  | keepNewest {raw : String} {sha : Option String} {next : Task α} {memo : Memo} :
      Step replies (.keepNewest raw sha next) memo next
        { memo with newest := (raw, sha) :: memo.newest }

structure Pool (α : Type) where
  tasks : List (Task α)
  memo : Memo

namespace Pool

/-- Some task makes its next step, and all others wait. -/
inductive Step (replies : String → Reply → Prop) : Pool α → Pool α → Prop where
  | advance {pool : Pool α} {place : Nat} {task next : Task α} {memo : Memo} :
      pool.tasks[place]? = some task → Task.Step replies task pool.memo next memo →
      Step replies pool ⟨pool.tasks.set place next, memo⟩

def Runs (replies : String → Reply → Prop) : Pool α → Pool α → Prop :=
  Relation.ReflTransGen (Step replies)

def Finished (pool : Pool α) (values : List α) : Prop := pool.tasks = values.map .done

end Pool

variable {replies : String → Reply → Prop}

section Contracts

variable {contract : Contract} {post : α → Prop}

theorem Task.Step.preserves {task next : Task α} {memo memo' : Memo}
    (step : Task.Step contract.reply task memo next memo') (valid : contract.Admits memo)
    (ensured : task.Ensures contract post) : contract.Admits memo' ∧ next.Ensures contract post := by
  cases step with
  | request replied => exact ⟨valid, ensured.2 _ replied⟩
  | recallPresence => exact ⟨valid, ensured _ (valid.presence _)⟩
  | keepPresence => exact ⟨valid.keepPresence ensured.1, ensured.2⟩
  | recallNewest => exact ⟨valid, ensured _ (valid.newest _)⟩
  | keepNewest => exact ⟨valid.keepNewest ensured.1, ensured.2⟩

namespace Pool

/-- The memo and all tasks keep to a contract, and the task at each place ensures what it has to. -/
structure Ensures (contract : Contract) (post : Nat → α → Prop) (pool : Pool α) : Prop where
  memo : contract.Admits pool.memo
  tasks : ∀ place (task : Task α), pool.tasks[place]? = some task → task.Ensures contract (post place)

variable {posts : Nat → α → Prop}

theorem Step.preserves {before after : Pool α} (step : Step contract.reply before after)
    (ensured : before.Ensures contract posts) : after.Ensures contract posts := by
  obtain ⟨selected, step⟩ := step
  obtain ⟨valid, kept⟩ := step.preserves ensured.memo (ensured.tasks _ _ selected)
  refine ⟨valid, fun other waiting found => ?_⟩
  dsimp only at found
  rw [List.getElem?_set] at found
  split at found
  next same =>
    subst same
    rw [if_pos (List.getElem?_eq_some_iff.mp selected).1] at found
    cases found
    exact kept
  next => exact ensured.tasks other waiting found

theorem Runs.preserves {before after : Pool α} (run : Runs contract.reply before after)
    (ensured : before.Ensures contract posts) : after.Ensures contract posts := by
  induction run with
  | refl => exact ensured
  | tail _ step ih => exact step.preserves ih

end Pool

end Contracts

namespace Pool

theorem Step.length_eq {before after : Pool α} (step : Step replies before after) :
    after.tasks.length = before.tasks.length := by
  obtain ⟨selected, step⟩ := step
  exact List.length_set

theorem Runs.length_eq {before after : Pool α} (run : Runs replies before after) :
    after.tasks.length = before.tasks.length := by
  induction run with
  | refl => rfl
  | tail _ step ih => exact step.length_eq.trans ih

/-- When all tasks are done, each value is what its task had to ensure, whatever the schedule was. -/
theorem Runs.values {contract : Contract} {posts : Nat → α → Prop} {before after : Pool α}
    (run : Runs contract.reply before after) (ensured : before.Ensures contract posts)
    {values : List α} (finished : after.Finished values) :
    values.length = before.tasks.length ∧
      ∀ place value, values[place]? = some value → posts place value := by
  constructor
  · rw [← run.length_eq, finished, List.length_map]
  · intro place value selected
    refine (run.preserves ensured).tasks place (.done value) ?_
    rw [finished, List.getElem?_map, selected, Option.map_some]

end Pool

section Ending

inductive Task.Next : Task α → Task α → Prop where
  | request (url : String) (next : Reply → Task α) (reply : Reply) : Next (next reply) (.request url next)
  | recallPresence (raw : String) (next : Option Bool → Task α) (known : Option Bool) :
      Next (next known) (.recallPresence raw next)
  | keepPresence (raw : String) (found : Bool) (next : Task α) : Next next (.keepPresence raw found next)
  | recallNewest (raw : String) (next : Option (Option String) → Task α) (known : Option (Option String)) :
      Next (next known) (.recallNewest raw next)
  | keepNewest (raw : String) (sha : Option String) (next : Task α) : Next next (.keepNewest raw sha next)

theorem Task.next_wellFounded : WellFounded (Task.Next (α := α)) := by
  refine ⟨fun task => ?_⟩
  induction task with
  | done value => exact ⟨_, fun _ next => nomatch next⟩
  | request url next ih => exact ⟨_, fun | _, .request _ _ reply => ih reply⟩
  | recallPresence raw next ih => exact ⟨_, fun | _, .recallPresence _ _ known => ih known⟩
  | keepPresence raw found next ih => exact ⟨_, fun | _, .keepPresence _ _ _ => ih⟩
  | recallNewest raw next ih => exact ⟨_, fun | _, .recallNewest _ _ known => ih known⟩
  | keepNewest raw sha next ih => exact ⟨_, fun | _, .keepNewest _ _ _ => ih⟩

theorem Task.Step.next {task next : Task α} {memo memo' : Memo}
    (step : Task.Step replies task memo next memo') : Task.Next next task := by
  cases step with
  | request => exact .request _ _ _
  | recallPresence => exact .recallPresence _ _ _
  | keepPresence => exact .keepPresence _ _ _
  | recallNewest => exact .recallNewest _ _ _
  | keepNewest => exact .keepNewest _ _ _

/-- A task that is not done can always go on, when each request is replied to. -/
theorem Task.done_or_step (answered : ∀ url, ∃ reply, replies url reply) (task : Task α) (memo : Memo) :
    (∃ value, task = .done value) ∨ ∃ next memo', Task.Step replies task memo next memo' := by
  cases task with
  | done value => exact .inl ⟨value, rfl⟩
  | request url next =>
    obtain ⟨reply, replied⟩ := answered url
    exact .inr ⟨_, _, .request replied⟩
  | recallPresence raw next => exact .inr ⟨_, _, .recallPresence⟩
  | keepPresence raw found next => exact .inr ⟨_, _, .keepPresence⟩
  | recallNewest raw next => exact .inr ⟨_, _, .recallNewest⟩
  | keepNewest raw sha next => exact .inr ⟨_, _, .keepNewest⟩

namespace Pool

/-- In each step one task is replaced by one that goes on from it. -/
theorem Step.cutExpand {before after : Pool α} (step : Step replies before after) :
    Relation.CutExpand Task.Next (after.tasks : Multiset (Task α)) (before.tasks : Multiset (Task α)) := by
  obtain ⟨selected, step⟩ := step
  rename_i place task next memo
  obtain ⟨inside, rfl⟩ := List.getElem?_eq_some_iff.mp selected
  refine ⟨{next}, before.tasks[place], by simpa using step.next, ?_⟩
  have swapped : List.Perm (before.tasks.set place next ++ [before.tasks[place]])
      (before.tasks ++ [next]) :=
    calc List.Perm (before.tasks.set place next ++ [before.tasks[place]])
          (before.tasks[place] :: before.tasks.set place next) := List.perm_append_singleton _ _
      List.Perm _ (before.tasks[place] :: next :: before.tasks.eraseIdx place) :=
        (List.set_perm_cons_eraseIdx inside next).cons _
      List.Perm _ (next :: before.tasks[place] :: before.tasks.eraseIdx place) := .swap _ _ _
      List.Perm _ (next :: before.tasks) := (List.getElem_cons_eraseIdx_perm inside).cons _
      List.Perm _ (before.tasks ++ [next]) := (List.perm_append_singleton _ _).symm
  exact Multiset.coe_eq_coe.mpr swapped

-- A request branches over all replies, so tasks have no length that a schedule could count down. The
-- multiset of tasks decreases instead: a step takes one out and puts one that goes on from it in.
theorem step_wellFounded : WellFounded fun after before : Pool α => Step replies before after :=
  Subrelation.wf (fun step => step.cutExpand)
    (InvImage.wf (fun pool : Pool α => (pool.tasks : Multiset (Task α))) Task.next_wellFounded.cutExpand)

theorem finished_of_done {tasks : List (Task α)} (done : ∀ task ∈ tasks, ∃ value, task = .done value) :
    ∃ values : List α, tasks = values.map .done := by
  induction tasks with
  | nil => exact ⟨[], rfl⟩
  | cons task rest ih =>
    obtain ⟨value, rfl⟩ := done task (by simp)
    obtain ⟨values, rfl⟩ := ih fun task member => done task (List.mem_cons_of_mem _ member)
    exact ⟨value :: values, rfl⟩

theorem finished_or_step (answered : ∀ url, ∃ reply, replies url reply) (pool : Pool α) :
    (∃ values, pool.Finished values) ∨ ∃ after, Step replies pool after := by
  by_cases done : ∀ task ∈ pool.tasks, ∃ value, task = Task.done value
  · exact .inl (finished_of_done done)
  · obtain ⟨task, undone⟩ := not_forall.mp done
    obtain ⟨member, undone⟩ := Classical.not_imp.mp undone
    obtain ⟨place, selected⟩ := List.mem_iff_getElem?.mp member
    obtain ⟨next, memo, step⟩ := (task.done_or_step answered pool.memo).resolve_left undone
    exact .inr ⟨_, .advance selected step⟩

/-- Whatever the schedule is, a run comes to an end, and always with these values. -/
structure Settles (replies : String → Reply → Prop) (start : Pool α) (values : List α) : Prop where
  ends : Acc (fun after before => Step replies before after) start
  progress : ∀ pool, Runs replies start pool →
    (∃ found, pool.Finished found) ∨ ∃ after, Step replies pool after
  settled : ∀ pool found, Runs replies start pool → pool.Finished found → found = values

theorem Ensures.settles {contract : Contract} {start : Pool α} {values : List α}
    (ensured : start.Ensures contract fun place value => values[place]? = some value)
    (sized : start.tasks.length = values.length)
    (answered : ∀ url, ∃ reply, contract.reply url reply) : start.Settles contract.reply values where
  ends := step_wellFounded.apply start
  progress pool _ := finished_or_step answered pool
  settled pool found run finished := by
    obtain ⟨length, selected⟩ := run.values ensured finished
    refine List.ext_getElem? fun place => ?_
    cases value : found[place]? with
    | none =>
      have outside := List.getElem?_eq_none_iff.mp value
      exact (List.getElem?_eq_none_iff.mpr (by omega)).symm
    | some value' => exact (selected place value' value).symm

end Pool

end Ending

section Order

theorem Task.run_bind {β : Type} (transport : Transport σ) (task : Task α) (next : α → Task β)
    (memo : Memo) (state : σ) :
    (task.bind next).run transport memo state =
      let first := task.run transport memo state
      let rest := (next first.value).run transport first.memo first.state
      { rest with requested := first.requested ++ rest.requested } := by
  induction task generalizing memo state with
  | done value => rfl
  | request url cont ih => simp only [Task.bind, Task.run, ih, List.cons_append]
  | recallPresence raw cont ih => simp only [Task.bind, Task.run, ih]
  | keepPresence raw found cont ih => simp only [Task.bind, Task.run, ih]
  | recallNewest raw cont ih => simp only [Task.bind, Task.run, ih]
  | keepNewest raw sha cont ih => simp only [Task.bind, Task.run, ih]

def Task.inOrder : List (Task α) → Task (List α)
  | [] => .done []
  | task :: rest => task.bind fun value => (inOrder rest).bind fun values => .done (value :: values)

namespace Pool

theorem Step.within (before after : List (Task α)) {task next : Task α} {memo memo' : Memo}
    (step : Task.Step replies task memo next memo') :
    Step replies ⟨before ++ task :: after, memo⟩ ⟨before ++ next :: after, memo'⟩ := by
  have selected : (before ++ task :: after)[before.length]? = some task := by simp
  have advanced : Step replies ⟨before ++ task :: after, memo⟩ _ := .advance selected step
  rwa [List.set_append_right _ _ le_rfl, Nat.sub_self, List.set_cons_zero] at advanced

theorem runs_task {transport : Transport σ} (replied : ∀ url state, replies url (transport url state).1)
    (before after : List (Task α)) (task : Task α) (memo : Memo) (state : σ) :
    Runs replies ⟨before ++ task :: after, memo⟩
      ⟨before ++ .done (task.run transport memo state).value :: after,
        (task.run transport memo state).memo⟩ := by
  induction task generalizing memo state with
  | done value => exact .refl
  | request url next ih => exact .head (.within _ _ (.request (replied url state))) (ih _ _ _)
  | recallPresence raw next ih => exact .head (.within _ _ .recallPresence) (ih _ _ _)
  | keepPresence raw found next ih => exact .head (.within _ _ .keepPresence) (ih _ _)
  | recallNewest raw next ih => exact .head (.within _ _ .recallNewest) (ih _ _ _)
  | keepNewest raw sha next ih => exact .head (.within _ _ .keepNewest) (ih _ _)

/-- Running the tasks one after the other is one of the schedules. -/
theorem runs_inOrder {transport : Transport σ} (replied : ∀ url state, replies url (transport url state).1)
    (tasks : List (Task α)) (memo : Memo) (state : σ) :
    ∃ pool : Pool α, Runs replies ⟨tasks, memo⟩ pool ∧
      pool.Finished ((Task.inOrder tasks).run transport memo state).value := by
  -- The tasks in front are done already when the induction comes to the rest.
  suffices general : ∀ done : List (Task α), Runs replies ⟨done ++ tasks, memo⟩
      ⟨done ++ ((Task.inOrder tasks).run transport memo state).value.map .done,
        ((Task.inOrder tasks).run transport memo state).memo⟩ from ⟨_, general [], rfl⟩
  induction tasks generalizing memo state with
  | nil => exact fun done => .refl
  | cons task rest ih =>
    intro done
    have first := runs_task replied done rest task memo state
    let outcome := task.run transport memo state
    have others := ih outcome.memo outcome.state (done ++ [.done outcome.value])
    simp only [List.append_assoc, List.cons_append, List.nil_append] at others
    simp only [Task.inOrder, Task.run_bind, Task.run, List.map_cons]
    exact first.trans others

end Pool

end Order

end WorkflowLint.Registry

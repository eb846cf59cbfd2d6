import Mathlib.Data.List.Basic
import WorkflowLint.Proofs.Registry.Remembering
import WorkflowLint.Proofs.Registry.Replay

/-! The requests that linting one workflow makes, one by one.

Under stable replies these are told by the document alone: each reference that is looked up makes its
requests where its text comes first, and none where it comes again. The invariant is that the two tables
of the memo are filled for just the texts that came before, the second one for those among them whose
action exists. -/

set_option autoImplicit false

namespace WorkflowLint

namespace Workflow

def references (workflow : Workflow) : List String :=
  workflow.entries.flatMap fun entry => entry.2.steps.filterMap Step.uses

end Workflow

namespace Rules

/-- Of some texts, those of remote references with a complete path. -/
def lookedUp (owners : String) (texts : List String) : List String :=
  texts.filter fun text => (lookedUp? owners text).isSome

def remarkAfter {m : Type → Type} [Monad m] (registry : ActionRegistry m) (key : String) (number : Nat)
    (text : String) (reference : ActionRef) (present : Bool) : m (List Finding) :=
  if present then do return (remarkFor key number text true (← registry.updateUrl reference)).toList
  else pure (remarkFor key number text false none).toList

theorem registered_eq {m : Type → Type} [Monad m] (registry : ActionRegistry m) (key : String) (number : Nat)
    (text : String) (reference : ActionRef) :
    registered registry key number text reference =
      registry.isPresent reference >>= remarkAfter registry key number text reference := by
  unfold registered
  refine congrArg (registry.isPresent reference >>= ·) (funext fun present => ?_)
  cases present with
  | false => rfl
  | true =>
    refine congrArg (registry.updateUrl reference >>= ·) (funext fun url => ?_)
    cases url <;> rfl

end Rules

namespace Registry

variable {α β σ : Type}

/-- The URLs that a lookup asks when each reply depends on its URL alone. -/
def Lookup.asked (answer : String → Reply) (lookup : Lookup α) : List String :=
  (lookup.run (Transport.fixed answer) ()).2.2

theorem Lookup.run_fixed (answer : String → Reply) (lookup : Lookup α) (state : σ) :
    lookup.run (Transport.fixed answer) state =
      ((lookup.run (Transport.fixed answer) ()).1, state, lookup.asked answer) := by
  induction lookup with
  | done value => rfl
  | ask url next ih => simp only [asked, run, Transport.fixed, ih]

section Reference

variable (settings : Settings) (answer : String → Reply) (text : String)

def presentAt : Bool := (direct settings answer).isPresent (.parse text)

/-- What is requested for a reference by itself: whether the action exists and, only if it does, what its
newest commit is. -/
def requestsFor : List String :=
  match ActionRef.parse text with
  | .remote action =>
    (presence settings action).asked answer ++
      if presentAt settings answer text then (newest settings action).asked answer else []
  | _ => []

end Reference

def valueAt (settings : Settings) (answer : String → Reply) (table : Table) (text : String) : table.Value :=
  table.ask (direct settings answer) (.parse text)

def Tabulates (entries : List (String × β)) (texts : List String) (value : String → β) : Prop :=
  ∀ text, entries.lookup text = if text ∈ texts then some (value text) else none

namespace Tabulates

variable {entries : List (String × β)} {texts : List String} {value : String → β} {text : String}

theorem again (tabulates : Tabulates entries texts value) (known : text ∈ texts) :
    Tabulates entries (texts ++ [text]) value := by
  intro other
  have same : other ∈ texts ++ [text] ↔ other ∈ texts := by
    simp only [List.mem_append, List.mem_singleton, or_iff_left_iff_imp]
    rintro rfl
    exact known
  simp only [same]
  exact tabulates other

theorem extend (tabulates : Tabulates entries texts value) (text : String) :
    Tabulates ((text, value text) :: entries) (texts ++ [text]) value := by
  intro other
  rw [List.lookup_cons]
  by_cases same : other = text
  · simp [same]
  · rw [beq_eq_false_iff_ne.mpr same]
    simpa [same] using tabulates other

end Tabulates

variable (settings : Settings) (answer : String → Reply)

/-- The memo is what looking up these texts leaves. -/
structure Covers (texts : List String) (memo : Memo) : Prop where
  presence : Tabulates (memo.entries .presence) texts (valueAt settings answer .presence)
  newest : Tabulates (memo.entries .newest) (texts.filter (presentAt settings answer))
    (valueAt settings answer .newest)

theorem covers_empty : Covers settings answer [] .empty where
  presence _ := by simp [Memo.empty, Memo.entries]
  newest _ := by simp [Memo.empty, Memo.entries]

/-- From every memo that covers some texts the task goes on to one that covers these texts besides, and
requests what is needed for those that are new. -/
structure Task.Visits (task : Task α) (texts : List String) : Prop where
  covers : ∀ {σ : Type} {before : List String} {memo : Memo} (state : σ),
    Covers settings answer before memo →
    Covers settings answer (before ++ texts) (task.run (Transport.fixed answer) memo state).memo
  requests : ∀ {σ : Type} {before : List String} {memo : Memo} (state : σ),
    Covers settings answer before memo →
    before.eraseDups.flatMap (requestsFor settings answer) ++
        (task.run (Transport.fixed answer) memo state).requested =
      (before ++ texts).eraseDups.flatMap (requestsFor settings answer)

variable {settings answer}

theorem Task.visits_done (value : α) : (Task.done value).Visits settings answer [] where
  covers {_ before _} _ covers := (List.append_nil before).symm ▸ covers
  requests _ _ := by simp [Task.run]

theorem Task.visits_bind {task : Task α} {next : α → Task β} {first rest : List String}
    (visits : task.Visits settings answer first) (others : ∀ value, (next value).Visits settings answer rest) :
    (task.bind next).Visits settings answer (first ++ rest) where
  covers state covers := by
    rw [Task.run_bind, ← List.append_assoc]
    exact (others _).covers _ (visits.covers state covers)
  requests {_ before _} state covers := by
    rw [Task.run_bind, ← List.append_assoc before, ← (others _).requests _ (visits.covers state covers),
      ← visits.requests state covers, List.append_assoc]

theorem Task.visits_map {task : Task α} {texts : List String} (visits : task.Visits settings answer texts)
    (f : α → β) : (task.bind fun value => .done (f value)).Visits settings answer texts := by
  have both := visits_bind visits fun value => visits_done (f value)
  rwa [List.append_nil] at both

section Reference

variable {action : RemoteAction} {text : String} (parsed : ActionRef.parse text = .remote action)
  {texts : List String} {memo : Memo}
include parsed

theorem run_ask {table : Table} (tabulates : Tabulates (memo.entries table) texts (valueAt settings answer table))
    (state : σ) :
    ∃ after : Memo, Tabulates (after.entries table) (texts ++ [text]) (valueAt settings answer table) ∧
      (∀ other, other ≠ table → after.entries other = memo.entries other) ∧
      (table.ask (remembering settings) (.remote action)).run (Transport.fixed answer) memo state =
        ⟨valueAt settings answer table text, after, state,
          if text ∈ texts then [] else (table.lookup settings action).asked answer⟩ := by
  have looked : ((table.lookup settings action).run (Transport.fixed answer) ()).1 =
      valueAt settings answer table text := by
    rw [valueAt, parsed]
    cases table <;> rfl
  obtain rfl := ActionRef.raw_of_parse parsed
  -- The table is indexed by raw texts: it has an entry just when this text came before.
  have entry := tabulates action.raw
  by_cases known : action.raw ∈ texts
  · rw [if_pos known] at entry ⊢
    exact ⟨memo, tabulates.again known, fun _ _ => rfl, run_ask_known entry _ state⟩
  · rw [if_neg known] at entry ⊢
    refine ⟨memo.keep action.raw table (valueAt settings answer table action.raw), ?_, fun other apart =>
      Memo.entries_keep_of_ne apart _, (run_ask_fresh entry _ state).trans ?_⟩
    · rw [Memo.entries_keep]
      exact tabulates.extend action.raw
    · rw [Lookup.run_fixed, looked]

theorem run_updateUrl (tabulates : Tabulates (memo.entries .newest) texts (valueAt settings answer .newest))
    (state : σ) :
    ∃ (after : Memo) (url : Option String),
      Tabulates (after.entries .newest) (texts ++ [text]) (valueAt settings answer .newest) ∧
      after.entries .presence = memo.entries .presence ∧
      ((remembering settings).updateUrl (.remote action)).run (Transport.fixed answer) memo state =
        ⟨url, after, state, if text ∈ texts then [] else (newest settings action).asked answer⟩ := by
  obtain ⟨after, filled, kept, ran⟩ := run_ask parsed tabulates state
  exact ⟨after, _, filled, kept .presence (by decide),
    (Task.run_bind_of ran _).trans (congrArg (Task.Outcome.mk _ _ _) (List.append_nil _))⟩

variable {before : List String} (key : String) (number : Nat) (uses : String)

theorem run_remarkAfter
    (tabulates : Tabulates (memo.entries .newest) (before.filter (presentAt settings answer))
      (valueAt settings answer .newest)) (state : σ) :
    let outcome := (Rules.remarkAfter (remembering settings) key number uses (.remote action)
      (presentAt settings answer text)).run (Transport.fixed answer) memo state
    Tabulates (outcome.memo.entries .newest) ((before ++ [text]).filter (presentAt settings answer))
        (valueAt settings answer .newest) ∧
      outcome.memo.entries .presence = memo.entries .presence ∧
      outcome.requested = if text ∈ before then [] else
        if presentAt settings answer text then (newest settings action).asked answer else [] := by
  rw [List.filter_append]
  cases present : presentAt settings answer text with
  | false =>
    have dropped : [text].filter (presentAt settings answer) = [] := by simp [present]
    rw [dropped, List.append_nil]
    exact ⟨tabulates, rfl, by split <;> rfl⟩
  | true =>
    have added : [text].filter (presentAt settings answer) = [text] := by simp [present]
    -- Of an action that exists, either both answers are known or none is.
    have known : text ∈ before.filter (presentAt settings answer) ↔ text ∈ before := by
      simp [List.mem_filter, present]
    obtain ⟨after, url, filled, kept, asked⟩ := run_updateUrl parsed tabulates state
    have ran : (Rules.remarkAfter (remembering settings) key number uses (.remote action) true).run
        (Transport.fixed answer) memo state = _ := Task.run_bind_of asked _
    rw [added]
    dsimp only
    rw [ran]
    refine ⟨filled, kept, ?_⟩
    simp only [known, if_true]
    exact List.append_nil _

theorem run_registered (covers : Covers settings answer before memo) (state : σ) :
    let outcome := (Rules.registered (remembering settings) key number uses (.remote action)).run
      (Transport.fixed answer) memo state
    Covers settings answer (before ++ [text]) outcome.memo ∧
      outcome.requested = if text ∈ before then [] else requestsFor settings answer text := by
  intro outcome
  obtain ⟨middle, filled, kept, asked⟩ := run_ask parsed covers.presence state
  have newest := (kept .newest (by decide)).symm ▸ covers.newest
  obtain ⟨grown, untouched, requested⟩ := run_remarkAfter parsed key number uses newest state
  have split : outcome = _ :=
    (congrArg (Task.run (Transport.fixed answer) · memo state) (Rules.registered_eq ..)).trans
      (Task.run_bind_of asked _)
  rw [split]
  refine ⟨⟨untouched.symm ▸ filled, grown⟩, ?_⟩
  rw [requestsFor, parsed]
  refine (congrArg _ requested).trans ?_
  split <;> rfl

end Reference

theorem Task.visits_of_run {task : Task α} {text : String}
    (each : ∀ {σ : Type} {before : List String} {memo : Memo} (state : σ),
      Covers settings answer before memo →
      let outcome := task.run (Transport.fixed answer) memo state
      Covers settings answer (before ++ [text]) outcome.memo ∧
        outcome.requested = if text ∈ before then [] else requestsFor settings answer text) :
    task.Visits settings answer [text] where
  covers state covers := (each state covers).1
  requests {_ before _} state covers := by
    rw [(each state covers).2, List.eraseDups_append, List.flatMap_append]
    by_cases known : text ∈ before
    · simp [known, List.removeAll]
    · simp [known, List.removeAll, List.eraseDups_cons]

theorem registered_visits {action : RemoteAction} {text : String} (parsed : ActionRef.parse text = .remote action)
    (key : String) (number : Nat) (uses : String) :
    (Rules.registered (remembering settings) key number uses (.remote action)).Visits settings answer [text] :=
  Task.visits_of_run fun state covers => run_registered parsed key number uses covers state

end Registry

namespace Rules

open Registry (Reply remembering)

variable {settings : Registry.Settings} {answer : String → Reply}

theorem collectFrom_visits {α β : Type} {f : α → Nat → Registry.Task (List β)} {texts : α → List String}
    (each : ∀ item place, (f item place).Visits settings answer (texts item)) (start : Nat) (items : List α) :
    (collectFrom f start items).Visits settings answer (items.flatMap texts) := by
  induction items generalizing start with
  | nil => exact Registry.Task.visits_done []
  | cons item rest ih =>
    unfold collectFrom
    rw [List.flatMap_cons]
    refine Registry.Task.visits_bind (each item start) fun first => ?_
    exact Registry.Task.visits_map (ih (start + 1)) (first ++ ·)

variable (rules : RuleSettings) (settings answer)

theorem uses_visits (key : String) (number : Nat) (text : String) :
    (uses rules (remembering settings) key number text).Visits settings answer
      (lookedUp rules.internalNamespace [text]) := by
  have unasked : lookedUp? rules.internalNamespace text = none →
      lookedUp rules.internalNamespace [text] = [] := fun nothing => by simp [lookedUp, nothing]
  unfold uses
  cases parsed : ActionRef.parse text with
  | inTree raw =>
    rw [unasked (by simp [lookedUp?, parsed])]
    exact Registry.Task.visits_done _
  | unpinned raw =>
    rw [unasked (by simp [lookedUp?, parsed])]
    exact Registry.Task.visits_done _
  | remote action =>
    dsimp only
    cases problem : pathProblem rules.internalNamespace action with
    -- Nobody is asked, although the reference is remote.
    | some problem' =>
      rw [unasked (by simp [lookedUp?, parsed, problem])]
      exact Registry.Task.visits_done _
    | none =>
      have found := lookedUp?_eq_some.mpr ⟨parsed, problem⟩
      have asked : lookedUp rules.internalNamespace [text] = [text] := by simp [lookedUp, found]
      rw [asked]
      exact Registry.Task.visits_map (Registry.registered_visits parsed key number text) _

theorem step_visits (key : String) (item : Step) (number : Nat) :
    (step rules (remembering settings) key number item).Visits settings answer
      (lookedUp rules.internalNamespace item.uses.toList) := by
  unfold step
  cases item.uses with
  | none => exact Registry.Task.visits_map (Registry.Task.visits_done []) _
  | some text => exact Registry.Task.visits_map (uses_visits settings answer rules key number text) _

theorem job_visits (entry : String × Job) :
    (job rules (remembering settings) entry.1 entry.2).Visits settings answer
      (lookedUp rules.internalNamespace (entry.2.steps.filterMap Step.uses)) := by
  unfold job
  rw [steps_eq_collectFrom, List.filterMap_eq_flatMap_toList, lookedUp, List.filter_flatMap]
  refine Registry.Task.visits_map ?_ _
  exact collectFrom_visits (fun item number => step_visits settings answer rules entry.1 item number) 1 _

end Rules

namespace Workflow

open Registry (Memo Reply Transport remembering requestsFor)

theorem findings_visits (rules : RuleSettings) (settings : Registry.Settings) (answer : String → Reply)
    (workflow : Workflow) :
    (workflow.findings rules (remembering settings)).Visits settings answer
      (Rules.lookedUp rules.internalNamespace workflow.references) := by
  unfold findings
  rw [Rules.collect_eq_collectFrom _ 0, references, Rules.lookedUp, List.filter_flatMap]
  refine Registry.Task.visits_map ?_ _
  exact Rules.collectFrom_visits (fun entry _ => Rules.job_visits settings answer rules entry) 0 _

theorem eraseDups_again {before : List String} {text : String} (known : text ∈ before) (after : List String) :
    (before ++ text :: after).eraseDups = (before ++ after).eraseDups := by
  rw [List.eraseDups_append, List.eraseDups_append]
  simp [List.removeAll, known]

theorem lookedUp_eraseDups_skip {owners text : String} {before : List String}
    (skipped : text ∈ before ∨ Rules.lookedUp? owners text = none) (after : List String) :
    (Rules.lookedUp owners (before ++ text :: after)).eraseDups =
      (Rules.lookedUp owners (before ++ after)).eraseDups := by
  unfold Rules.lookedUp
  rw [List.filter_append, List.filter_append, List.filter_cons]
  split
  next found =>
    -- It is a text that is looked up, so the only excuse left is that it came before.
    have known : text ∈ before := skipped.resolve_right fun nothing => by simp [nothing] at found
    exact eraseDups_again (List.mem_filter.mpr ⟨known, found⟩) _
  next => rfl

/-- Linting a workflow with a fresh registry requests, for each text of a remote reference with a
complete path and in the order in which these texts first occur, what looking it up by itself requests.
So any other reference causes no request, whether it stays in its repository, has no revision, has an
incomplete path or comes again: the workflow without it causes the same ones. -/
theorem findings_requested (rules : RuleSettings) (settings : Registry.Settings) (answer : String → Reply)
    {σ : Type} (state : σ) (workflow : Workflow) :
    let requested (workflow : Workflow) := ((workflow.findings rules (remembering settings)).run
      (Transport.fixed answer) .empty state).requested
    requested workflow =
      (Rules.lookedUp rules.internalNamespace workflow.references).eraseDups.flatMap
        (requestsFor settings answer) ∧
    ∀ (without : Workflow) (before : List String) (text : String) (after : List String),
      workflow.references = before ++ text :: after → without.references = before ++ after →
      (text ∈ before ∨ ∀ action, ActionRef.parse text = .remote action →
        Rules.pathProblem rules.internalNamespace action ≠ none) →
      requested without = requested workflow := by
  intro requested
  have trace : ∀ workflow, requested workflow =
      (Rules.lookedUp rules.internalNamespace workflow.references).eraseDups.flatMap
        (requestsFor settings answer) := fun workflow =>
    (findings_visits rules settings answer workflow).requests state (Registry.covers_empty settings answer)
  refine ⟨trace workflow, ?_⟩
  intro without before text after whole rest skipped
  have unasked : text ∈ before ∨ Rules.lookedUp? rules.internalNamespace text = none := by
    refine skipped.imp_right fun unfit => Option.eq_none_iff_forall_ne_some.mpr fun action found => ?_
    obtain ⟨parsed, complete⟩ := Rules.lookedUp?_eq_some.mp found
    exact unfit action parsed complete
  rw [trace, trace, whole, rest, lookedUp_eraseDups_skip unasked after]

theorem findings_requested_twice :
    let workflow (texts : List String) : Workflow :=
      { jobs := some [("a", { steps := texts.map fun text => { uses := some text } })] }
    let requested (workflow : Workflow) := ((workflow.findings {} (remembering {})).run
      (Transport.fixed fun _ => .ok .null) .empty ()).requested
    requested (workflow ["o/r@1", "o/r@1"]) =
      ["https://api.github.com/repos/o/r", "https://api.github.com/repos/o/r/releases/latest"] ∧
    requested (workflow ["o/r@1"]) = requested (workflow ["o/r@1", "o/r@1"]) := by
  intro workflow requested
  obtain ⟨trace, skip⟩ := findings_requested {} {} (fun _ => .ok .null) () (workflow ["o/r@1", "o/r@1"])
  refine ⟨trace.trans (by decide +kernel), ?_⟩
  exact skip (workflow ["o/r@1"]) ["o/r@1"] "o/r@1" [] rfl rfl (.inl (.head _))

end Workflow

end WorkflowLint

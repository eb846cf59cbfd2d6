import WorkflowLint.Proofs.Action.Reference
import WorkflowLint.Proofs.Registry.Replay

/-! Histories of questions to one registry that remembers.

Nothing is assumed of the replies: the same URL may be answered differently each time. Still the whole
history reads as if one registry with fixed answers had been asked, since the memo has an entry for
every text from the first question about it on. What an entry costs in requests is bounded by the
lookup that fills it. -/

set_option autoImplicit false

namespace WorkflowLint.Registry

variable {α σ : Type}

inductive Query where
  | presence (text : String)
  | newest (text : String)
  | update (text : String)
  deriving DecidableEq, Repr

inductive Answer where
  | presence (found : Bool)
  | newest (sha : Option String)
  | update (url : Option String)
  deriving DecidableEq, Repr

def Table.cost : Table → Nat
  | .presence => 1
  | .newest => 3

namespace Query

def text : Query → String
  | .presence text => text
  | .newest text => text
  | .update text => text

/-- The table with the entry that settles a query: where an update is follows from the newest commit. -/
def table : Query → Table
  | .presence _ => .presence
  | .newest _ => .newest
  | .update _ => .newest

def entry (query : Query) : Table × String := (query.table, query.text)

def ask {m : Type → Type} [Monad m] (registry : ActionRegistry m) : Query → m Answer
  | .presence text => do return .presence (← registry.isPresent (.parse text))
  | .newest text => do return .newest (← registry.newest (.parse text))
  | .update text => do return .update (← registry.updateUrl (.parse text))

theorem ask_replays (settings : Settings) (query : Query) :
    (query.ask (remembering settings)).Replays fun _ => True := by
  cases query with
  | presence text =>
    exact Task.replays_bind (Registry.ask_replays settings _ .presence) fun _ _ => Task.replays_done trivial
  | newest text =>
    exact Task.replays_bind (Registry.ask_replays settings _ .newest) fun _ _ => Task.replays_done trivial
  | update text => exact Task.replays_bind (updateUrl_replays settings _) fun _ _ => Task.replays_done trivial

end Query

structure Exchange where
  query : Query
  answer : Answer
  requested : List String
  deriving DecidableEq, Repr

def exchanges (settings : Settings) (transport : Transport σ) : List Query → Memo → σ → List Exchange
  | [], _, _ => []
  | query :: rest, memo, state =>
    let outcome := (query.ask (remembering settings)).run transport memo state
    ⟨query, outcome.value, outcome.requested⟩ :: exchanges settings transport rest outcome.memo outcome.state

/-- The URLs requested by the queries that one entry settles. -/
def requestsAt (entry : Table × String) (history : List Exchange) : List String :=
  (history.filter fun exchange => exchange.query.entry = entry).flatMap Exchange.requested

section Recorded

namespace Memo

def Knows (memo : Memo) (entry : Table × String) : Prop :=
  ∃ value, (memo.entries entry.1).lookup entry.2 = some value

def recorded (settings : Settings) (memo : Memo) : ActionRegistry Id where
  isPresent
    | .remote action => (memo.presence.lookup action.raw).getD true
    | _ => true
  newest
    | .remote action => (memo.newest.lookup action.raw).getD none
    | _ => none
  commitUrl := commitUrl settings.webUrl

variable {settings : Settings} {memo : Memo} {table : Table}

theorem ask_recorded {action : RemoteAction} : (table.ask (memo.recorded settings) (.remote action) : Id _) =
    ((memo.entries table).lookup action.raw).getD table.otherwise := by
  cases table <;> rfl

theorem ask_recorded_elsewhere {reference : ActionRef} (elsewhere : ∀ action, reference ≠ .remote action) :
    (table.ask (memo.recorded settings) reference : Id _) = table.otherwise := by
  cases reference with
  | inTree raw => cases table <;> rfl
  | unpinned raw => cases table <;> rfl
  | remote action => exact absurd rfl (elsewhere action)

end Memo

variable (settings : Settings) {memo : Memo} {text : String}

/-- A table can settle what is asked about a text just when it is not remote or has an entry; the answer
is then the recorded one. -/
theorem settled_table {table : Table} {value : table.Value} :
    (table.ask (remembering settings) (.parse text)).Settled memo value ↔
      (∀ action, ActionRef.parse text = .remote action → memo.Knows (table, text)) ∧
        value = table.ask (memo.recorded settings) (.parse text) := by
  by_cases remote : ∃ action, ActionRef.parse text = .remote action
  · obtain ⟨action, parsed⟩ := remote
    rw [parsed, settled_ask_remote, Memo.ask_recorded, ActionRef.raw_of_parse parsed]
    unfold Memo.Knows
    cases (memo.entries table).lookup text with
    | none => simp
    | some known => simp [eq_comm]
  · have elsewhere : ∀ action, ActionRef.parse text ≠ .remote action := fun action same => remote ⟨action, same⟩
    rw [ask_elsewhere elsewhere, Memo.ask_recorded_elsewhere elsewhere]
    exact Task.settled_pure.trans ⟨fun same => ⟨fun action parsed => absurd parsed (elsewhere action), same⟩,
      And.right⟩

theorem settled_updateUrl {url : Option String} :
    ((remembering settings).updateUrl (.parse text)).Settled memo url ↔
      (∀ action, ActionRef.parse text = .remote action → memo.Knows (.newest, text)) ∧
        url = (memo.recorded settings).updateUrl (.parse text) := by
  have looked : ∀ sha, (Table.newest.ask (remembering settings) (.parse text)).Settled memo sha ↔ _ :=
    fun sha => settled_table settings
  cases parsed : ActionRef.parse text with
  | inTree raw =>
    exact Task.settled_pure.trans ⟨fun same => ⟨fun _ remote => (nomatch remote), same⟩, And.right⟩
  | unpinned raw =>
    exact Task.settled_pure.trans ⟨fun same => ⟨fun _ remote => (nomatch remote), same⟩, And.right⟩
  | remote action =>
    rw [parsed] at looked
    exact (Task.settled_bind_of looked).trans (and_congr_right' Task.settled_pure)

theorem settled_ask {query : Query} {answer : Answer} :
    (query.ask (remembering settings)).Settled memo answer ↔
      (∀ action, ActionRef.parse query.entry.2 = .remote action → memo.Knows query.entry) ∧
        answer = query.ask (memo.recorded settings) := by
  cases query with
  | presence text =>
    have looked : ∀ found, (Table.presence.ask (remembering settings) (.parse text)).Settled memo found ↔ _ :=
      fun found => settled_table settings
    exact (Task.settled_bind_of looked).trans (and_congr_right' Task.settled_pure)
  | newest text =>
    have looked : ∀ sha, (Table.newest.ask (remembering settings) (.parse text)).Settled memo sha ↔ _ :=
      fun sha => settled_table settings
    exact (Task.settled_bind_of looked).trans (and_congr_right' Task.settled_pure)
  | update text =>
    exact (Task.settled_bind_of fun _ => settled_updateUrl settings).trans (and_congr_right' Task.settled_pure)

end Recorded

section Cost

/-- The lookup comes to an end after so many requests at most, whatever is replied. -/
inductive Lookup.Within : Nat → Lookup α → Prop where
  | done {limit : Nat} {value : α} : Within limit (.done value)
  | ask {limit : Nat} {url : String} {next : Reply → Lookup α} :
      (∀ reply, Within limit (next reply)) → Within (limit + 1) (.ask url next)

theorem Lookup.Within.length_le {limit : Nat} {lookup : Lookup α} (within : lookup.Within limit)
    (transport : Transport σ) (state : σ) : (lookup.run transport state).2.2.length ≤ limit := by
  induction within generalizing state with
  | done => exact Nat.zero_le _
  | ask _ ih => exact Nat.succ_le_succ (ih _ _)

theorem Lookup.within_fetch {limit : Nat} {next : Json → Lookup (Option α)}
    (rest : ∀ json, (next json).Within limit) (url : Option String) :
    (Lookup.fetch url next).Within (limit + 1) := by
  cases url with
  | none => exact .done
  | some url =>
    refine .ask fun reply => ?_
    cases reply with
    | ok json => exact rest json
    | error failure => exact .done

variable (settings : Settings) (action : RemoteAction)

theorem presence_within : (presence settings action).Within 1 := by
  unfold presence
  split
  · exact .ask fun _ => .done
  · split
    · exact .ask fun _ => .done
    · exact .done

theorem commitOfTag_within (reference : Json) : (commitOfTag reference).Within 1 := by
  unfold commitOfTag
  split
  · exact .done
  · split
    · exact .done
    · exact Lookup.within_fetch (fun _ => .done) _

theorem newest_within : (newest settings action).Within 3 := by
  unfold newest
  split
  · exact Lookup.within_fetch (fun _ => .done) _
  · exact Lookup.within_fetch (fun _ => Lookup.within_fetch commitOfTag_within _) _

theorem lookup_within (table : Table) : (table.lookup settings action).Within table.cost := by
  cases table with
  | presence => exact presence_within settings action
  | newest => exact newest_within settings action

section Asked

variable (transport : Transport σ) (memo : Memo) (state : σ)

theorem requested_bind_done_le {β : Type} {task : Task α} {f : α → β} {limit : Nat}
    (bounded : (task.run transport memo state).requested.length ≤ limit) :
    ((task.bind fun value => .done (f value)).run transport memo state).requested.length ≤ limit := by
  rw [Task.run_bind]
  exact (congrArg List.length (List.append_nil _)).trans_le bounded

theorem ask_requested_le (table : Table) (reference : ActionRef) :
    ((table.ask (remembering settings) reference).run transport memo state).requested.length ≤ table.cost := by
  by_cases remote : ∃ action, reference = .remote action
  · obtain ⟨action, rfl⟩ := remote
    cases known : (memo.entries table).lookup action.raw with
    | some value =>
      rw [run_ask_known known]
      exact Nat.zero_le _
    | none =>
      rw [run_ask_fresh known]
      exact (lookup_within settings action table).length_le transport state
  · rw [ask_elsewhere fun action same => remote ⟨action, same⟩]
    exact Nat.zero_le _

theorem updateUrl_requested_le (reference : ActionRef) :
    (((remembering settings).updateUrl reference).run transport memo state).requested.length ≤ 3 := by
  cases reference with
  | inTree raw => exact Nat.zero_le _
  | unpinned raw => exact Nat.zero_le _
  | remote action =>
    exact requested_bind_done_le transport memo state
      (ask_requested_le settings transport memo state .newest (.remote action))

theorem Query.ask_requested_le (query : Query) :
    ((query.ask (remembering settings)).run transport memo state).requested.length ≤ query.entry.1.cost := by
  cases query with
  | presence text =>
    exact requested_bind_done_le transport memo state
      (Registry.ask_requested_le settings transport memo state .presence _)
  | newest text =>
    exact requested_bind_done_le transport memo state
      (Registry.ask_requested_le settings transport memo state .newest _)
  | update text =>
    exact requested_bind_done_le transport memo state (updateUrl_requested_le settings transport memo state _)

end Asked

end Cost

section Exchanges

variable (settings : Settings) (transport : Transport σ) (queries : List Query) (memo : Memo) (state : σ)

theorem exchanges_settled : ∃ later, memo.Extends later ∧
    ∀ exchange ∈ exchanges settings transport queries memo state,
      (exchange.query.ask (remembering settings)).Settled later exchange.answer := by
  induction queries generalizing memo state with
  | nil => exact ⟨memo, .refl memo, by simp [exchanges]⟩
  | cons query rest ih =>
    let outcome := (query.ask (remembering settings)).run transport memo state
    have replays := query.ask_replays settings
    -- The memo that settles the rest extends the one that this query has left, so it settles both.
    obtain ⟨later, grown, settled⟩ := ih outcome.memo outcome.state
    refine ⟨later, (replays.grows transport memo state).trans grown, ?_⟩
    intro exchange member
    rcases List.mem_cons.mp member with rfl | member
    · exact (replays.settles transport memo state).mono grown
    · exact settled exchange member

/-- A query asks nobody when the memo can settle another one with the same entry. -/
theorem quiet_of_settled {known : Query} {answer : Answer}
    (settled : (known.ask (remembering settings)).Settled memo answer) :
    ∀ exchange ∈ exchanges settings transport queries memo state,
      known.entry = exchange.query.entry → exchange.requested = [] := by
  induction queries generalizing memo state with
  | nil => simp [exchanges]
  | cons query rest ih =>
    intro exchange member same
    rcases List.mem_cons.mp member with rfl | member
    · have there := ((settled_ask settings).mp settled).1
      rw [show known.entry = query.entry from same] at there
      exact congrArg Task.Outcome.requested (((settled_ask settings).mpr ⟨there, rfl⟩).run transport state)
    · have grown := (query.ask_replays settings).grows transport memo state
      exact ih _ _ (settled.mono grown) exchange member same

theorem exchanges_quiet : (exchanges settings transport queries memo state).Pairwise
    fun earlier later => earlier.query.entry = later.query.entry → later.requested = [] := by
  induction queries generalizing memo state with
  | nil => exact .nil
  | cons query rest ih =>
    refine .cons ?_ (ih _ _)
    -- This query leaves a memo that settles it, and with it all later ones that have the same entry.
    exact quiet_of_settled settings transport rest _ _ ((query.ask_replays settings).settles transport memo state)

theorem exchanges_bounded : ∀ exchange ∈ exchanges settings transport queries memo state,
    exchange.requested.length ≤ exchange.query.entry.1.cost := by
  induction queries generalizing memo state with
  | nil => simp [exchanges]
  | cons query rest ih =>
    intro exchange member
    rcases List.mem_cons.mp member with rfl | member
    · exact query.ask_requested_le settings transport memo state
    · exact ih _ _ exchange member

theorem requestsAt_length_le {history : List Exchange}
    (bounded : ∀ exchange ∈ history, exchange.requested.length ≤ exchange.query.entry.1.cost)
    (quiet : history.Pairwise fun earlier later =>
      earlier.query.entry = later.query.entry → later.requested = []) (entry : Table × String) :
    (requestsAt entry history).length ≤ entry.1.cost := by
  induction quiet with
  | nil => exact Nat.zero_le _
  | @cons first rest quietRest _ ih =>
    by_cases same : first.query.entry = entry
    · -- The first query with this entry has made all the requests there are.
      have silent : requestsAt entry rest = [] := by
        simp only [requestsAt, List.flatMap_eq_nil_iff, List.mem_filter, decide_eq_true_eq]
        rintro exchange ⟨member, same'⟩
        exact quietRest exchange member (same.trans same'.symm)
      have split : requestsAt entry (first :: rest) = first.requested ++ requestsAt entry rest := by
        simp [requestsAt, same]
      rw [split, silent, List.append_nil, ← same]
      exact bounded first (.head _)
    · have split : requestsAt entry (first :: rest) = requestsAt entry rest := by
        simp [requestsAt, same]
      rw [split]
      exact ih fun exchange member => bounded exchange (.tail _ member)

theorem exchanges_query :
    (exchanges settings transport queries memo state).map Exchange.query = queries := by
  induction queries generalizing memo state with
  | nil => rfl
  | cons query rest ih => exact congrArg (query :: ·) (ih _ _)

end Exchanges

/-- Every query of a history is answered, and as one registry with fixed answers would: so all answers
on whether an action exists agree that are given for the same text, and all on its newest commit, those
that it does not exist or has no news included. For each text one request at most is made about its
presence and three at most about its newest commit and update, all of them by the first such query. A
reference that is not remote is never asked for. -/
theorem exchanges_remembered (settings : Settings) {σ : Type} (transport : Transport σ)
    (queries : List Query) (memo : Memo) (state : σ) :
    let history := exchanges settings transport queries memo state
    history.map Exchange.query = queries ∧
    (∃ fixed : ActionRegistry Id, ∀ exchange ∈ history, exchange.answer = exchange.query.ask fixed) ∧
    (∀ text, (requestsAt (.presence, text) history).length ≤ 1 ∧
      (requestsAt (.newest, text) history).length ≤ 3) ∧
    (history.Pairwise fun earlier later =>
      earlier.query.entry = later.query.entry → later.requested = []) ∧
    ∀ exchange ∈ history, (∀ action, ActionRef.parse exchange.query.text ≠ .remote action) →
      exchange.requested = [] := by
  intro history
  have quiet := exchanges_quiet settings transport queries memo state
  have bounded := exchanges_bounded settings transport queries memo state
  refine ⟨exchanges_query settings transport queries memo state, ?_, fun text =>
    ⟨requestsAt_length_le bounded quiet (.presence, text), requestsAt_length_le bounded quiet (.newest, text)⟩,
    quiet, ?_⟩
  · -- The memo at the end has all the answers, those that were given first included.
    obtain ⟨later, _, settled⟩ := exchanges_settled settings transport queries memo state
    exact ⟨later.recorded settings, fun exchange member =>
      ((settled_ask settings).mp (settled exchange member)).2⟩
  · intro exchange member elsewhere
    -- What is not remote is settled from the start, by every memo.
    have settled : (exchange.query.ask (remembering settings)).Settled memo _ :=
      (settled_ask settings).mpr ⟨fun action parsed => absurd parsed (elsewhere action), rfl⟩
    exact quiet_of_settled settings transport queries memo state settled exchange member rfl

/-- Says of the first thing that is asked for that it is not there, and finds everything afterwards. -/
def firstMissing : Transport Nat := fun _ asked =>
  (if asked = 0 then .error .notFound else .ok .null, asked + 1)

theorem exchanges_firstMissing :
    let missing : List String → Exchange := fun asked => ⟨.presence "o/r@1", .presence false, asked⟩
    let news : List String → Exchange := fun asked => ⟨.update "o/r@1", .update none, asked⟩
    let inTree : Exchange := ⟨.presence "./a", .presence true, []⟩
    let history := [missing ["https://api.github.com/repos/o/r"],
      news ["https://api.github.com/repos/o/r/releases/latest"], missing [], news [], inTree]
    exchanges {} firstMissing (history.map Exchange.query) .empty 0 = history ∧
    (∃ fixed : ActionRegistry Id, ∀ exchange ∈ history, exchange.answer = exchange.query.ask fixed) ∧
    (missing []).requested = [] ∧ inTree.requested = [] := by
  intro missing news inTree history
  have ran : exchanges {} firstMissing (history.map Exchange.query) .empty 0 = history := by decide +kernel
  have remembered := exchanges_remembered {} firstMissing (history.map Exchange.query) .empty 0
  rw [ran] at remembered
  obtain ⟨_, answered, _, quiet, silent⟩ := remembered
  refine ⟨ran, answered, ?_, ?_⟩
  · exact List.rel_of_pairwise_cons quiet (.tail _ (.head _)) rfl
  · refine silent inTree (by simp [history]) fun action parsed => ?_
    have local' : ActionRef.parse "./a" = .inTree "./a" := by decide
    cases local'.symm.trans parsed

end WorkflowLint.Registry

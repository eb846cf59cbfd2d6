import WorkflowLint.Proofs.Registry.Endpoint
import WorkflowLint.Proofs.Registry.Pool
import WorkflowLint.Proofs.Registry.Remembering

/-! A registry that cannot be reached says nothing, so that a workflow is linted as without a network.

Two causes are told apart: every request fails, each time in another way perhaps but never with the
word that something is missing; or there is no URL to request at all. -/

set_option autoImplicit false

namespace WorkflowLint.Registry

inductive Call where
  | presence (reference : ActionRef)
  | newest (reference : ActionRef)

def Call.task (settings : Settings) : Call → Task Unit
  | .presence reference => ((remembering settings).isPresent reference).bind fun _ => .done ()
  | .newest reference => ((remembering settings).newest reference).bind fun _ => .done ()

/-- The memo can be found after some steps of any questions, asked one after the other or side by side. -/
def Reached (settings : Settings) (replies : String → Reply → Prop) (memo : Memo) : Prop :=
  ∃ (calls : List Call) (pool : Pool Unit),
    Pool.Runs replies ⟨calls.map (Call.task settings), .empty⟩ pool ∧ pool.memo = memo

/-- Every entry says that the action exists and has no news. -/
def blind (asks : String → Prop) (replies : String → Reply → Prop) : Contract where
  asks := asks
  reply := replies
  presence _ found := found = true
  newest _ sha := sha = none

theorem offline_updateUrl (reference : ActionRef) :
    (ActionRegistry.offline.updateUrl reference : Id (Option String)) = none := by
  cases reference <;> rfl

section Blind

variable {settings : Settings} {asks : String → Prop} {replies : String → Reply → Prop}
  (presenceBlind : ∀ action,
    (Task.ofLookup (presence settings action)).Ensures (blind asks replies) (· = true))
  (newestBlind : ∀ action,
    (Task.ofLookup (newest settings action)).Ensures (blind asks replies) (· = none))

include presenceBlind in
theorem isPresent_blind (reference : ActionRef) :
    ((remembering settings).isPresent reference).Ensures (blind asks replies) (· = true) := by
  cases reference with
  | inTree raw => exact rfl
  | unpinned raw => exact rfl
  | remote action =>
    exact rememberedPresence_ensures (fun _ known => known)
      ((presenceBlind action).mono fun _ found => ⟨found, found⟩)

include newestBlind in
theorem newest_blind (reference : ActionRef) :
    ((remembering settings).newest reference).Ensures (blind asks replies) (· = none) := by
  cases reference with
  | inTree raw => exact rfl
  | unpinned raw => exact rfl
  | remote action =>
    exact rememberedNewest_ensures (fun _ known => known)
      ((newestBlind action).mono fun _ found => ⟨found, found⟩)

include presenceBlind newestBlind

theorem remembering_answers_offline :
    Rules.Answers (Task.results (blind asks replies)) (remembering settings) (.exactly .offline) where
  present text := isPresent_blind presenceBlind _
  update text := by
    cases ActionRef.parse text with
    | inTree raw => exact rfl
    | unpinned raw => exact rfl
    | remote action =>
      refine Task.ensures_bind (newest_blind newestBlind (.remote action)) ?_
      rintro _ rfl
      exact (Task.results (blind asks replies)).pure (offline_updateUrl _).symm

theorem Reached.blind {memo : Memo} (reached : Reached settings replies memo) :
    (blind asks replies).Admits memo := by
  obtain ⟨calls, pool, run, rfl⟩ := reached
  -- The calls that filled the memo are themselves under the contract that they establish.
  have start : Pool.Ensures (Registry.blind asks replies) (fun _ _ => True)
      ⟨calls.map (Call.task settings), .empty⟩ := by
    refine ⟨Contract.admits_empty _, fun place task selected => ?_⟩
    obtain ⟨call, _, rfl⟩ := List.mem_map.mp (List.mem_of_getElem? selected)
    cases call with
    | presence reference =>
      exact Task.ensures_bind (isPresent_blind presenceBlind reference) fun _ _ => trivial
    | newest reference =>
      exact Task.ensures_bind (newest_blind newestBlind reference) fun _ _ => trivial
  have kept : pool.Ensures (Registry.blind asks replies) fun _ _ => True := run.preserves start
  exact kept.memo

/-- From a memo that says nothing, through replies that say nothing, the findings are those without a
network, and only what may be requested is. -/
theorem findings_blind (rules : RuleSettings) (workflow : Workflow) {σ : Type} {transport : Transport σ}
    (replied : ∀ url state, replies url (transport url state).1) {memo : Memo}
    (reached : Reached settings replies memo) (state : σ) :
    let outcome := (workflow.findings rules (remembering settings)).run transport memo state
    outcome.value = (workflow.findings rules .offline : Id (List Finding)) ∧
      ∀ url ∈ outcome.requested, asks url := by
  intro outcome
  have ensured := Rules.findings_exactly rules
    (remembering_answers_offline presenceBlind newestBlind) workflow
  have ran := Task.Ensures.run ensured replied (reached.blind presenceBlind newestBlind) state
  exact ⟨ran.1, ran.2.2⟩

end Blind

section Failing

/-- A request fails, and not because something is missing. -/
def Failing (_ : String) (reply : Reply) : Prop :=
  ∃ failure, reply = .error failure ∧ failure ≠ .notFound

theorem saysPresent_failing (accepts : Json → Bool) {reply : Reply}
    (failing : ∃ failure, reply = .error failure ∧ failure ≠ .notFound) :
    saysPresent accepts reply = true := by
  obtain ⟨failure, rfl, known⟩ := failing
  cases failure with
  | notFound => exact absurd rfl known
  | rateLimited | unauthorized | status | network | decode => rfl

theorem presence_failing (settings : Settings) (action : RemoteAction) :
    (Task.ofLookup (presence settings action)).Ensures (blind (fun _ => True) Failing) (· = true) := by
  unfold presence
  split
  · exact ⟨trivial, fun _ failing => saysPresent_failing _ failing⟩
  · split
    · exact ⟨trivial, fun _ failing => saysPresent_failing _ failing⟩
    · exact rfl

theorem fetch_failing {α : Type} (url : Option String) (next : Json → Lookup (Option α)) :
    (Task.ofLookup (Lookup.fetch url next)).Ensures (blind (fun _ => True) Failing) (· = none) := by
  cases url with
  | none => exact rfl
  | some url =>
    refine ⟨trivial, fun reply failing => ?_⟩
    obtain ⟨failure, rfl, _⟩ := failing
    exact rfl

theorem newest_failing (settings : Settings) (action : RemoteAction) :
    (Task.ofLookup (newest settings action)).Ensures (blind (fun _ => True) Failing) (· = none) := by
  unfold newest
  split
  · exact fetch_failing _ _
  · exact fetch_failing _ _

end Failing

section Unusable

/-- The base URL is none, or one that cannot be a base. -/
def Settings.Unusable (settings : Settings) : Prop :=
  ∀ base, Url.parse (withoutTrailingSlashes settings.apiUrl) = some base → base.canBeBase = false

variable {settings : Settings} (unusable : settings.Unusable)
include unusable

theorem Settings.endpoint_unusable (action : RemoteAction) (extra : List String) :
    settings.endpoint action extra = none := by
  unfold Settings.endpoint
  cases action.repo with
  | none => rfl
  | some repo =>
    cases parsed : Url.parse (withoutTrailingSlashes settings.apiUrl) with
    | none => rfl
    | some base =>
      have rootless := unusable base parsed
      unfold Url.canBeBase at rootless
      show base.extendPath _ = none
      unfold Url.extendPath
      cases path : base.path with
      | rootless text => rfl
      | rooted segments => simp [path] at rootless

theorem presence_unusable (action : RemoteAction) : presence settings action = .done true :=
  presence_nowhere (settings.endpoint_unusable unusable action)

theorem newest_unusable (action : RemoteAction) : newest settings action = .done none :=
  newest_nowhere (settings.endpoint_unusable unusable action)

end Unusable

/-- A workflow is linted as without a network when no request gets an answer, from every memo that could
be filled that way; and when there is no base URL to ask, then without any request. -/
theorem unreachable_findings (rules : RuleSettings) (settings : Settings) (workflow : Workflow) :
    (∀ (σ : Type) (transport : Transport σ) (memo : Memo) (state : σ),
      (∀ url state, Failing url (transport url state).1) → Reached settings Failing memo →
      ((workflow.findings rules (remembering settings)).run transport memo state).value =
        (workflow.findings rules .offline : Id (List Finding))) ∧
    (settings.Unusable →
      ∀ (σ : Type) (transport : Transport σ) (memo : Memo) (state : σ),
        Reached settings (fun _ _ => True) memo →
        let outcome := (workflow.findings rules (remembering settings)).run transport memo state
        outcome.value = (workflow.findings rules .offline : Id (List Finding)) ∧
          outcome.requested = []) := by
  constructor
  · intro σ transport memo state failing reached
    exact (findings_blind (presence_failing settings) (newest_failing settings) rules workflow failing
      reached state).1
  · intro unusable σ transport memo state reached outcome
    -- No URL may be asked under this contract, and each lookup keeps to it by asking none.
    have presenceBlind : ∀ action, (Task.ofLookup (presence settings action)).Ensures
        (blind (fun _ => False) fun _ _ => True) (· = true) := by
      intro action
      rw [presence_unusable unusable]
      exact rfl
    have newestBlind : ∀ action, (Task.ofLookup (newest settings action)).Ensures
        (blind (fun _ => False) fun _ _ => True) (· = none) := by
      intro action
      rw [newest_unusable unusable]
      exact rfl
    have replied : ∀ url state, (fun (_ : String) (_ : Reply) => True) url (transport url state).1 :=
      fun _ _ => trivial
    obtain ⟨found, quiet⟩ := findings_blind presenceBlind newestBlind rules workflow replied reached state
    exact ⟨found, List.eq_nil_iff_forall_not_mem.mpr quiet⟩

theorem unreachable_findings_limited :
    let workflow : Workflow := { jobs := some [("a", { steps := [{ uses := some "o/r@main" }] })] }
    let transport : Transport Nat := fun _ asked =>
      (.error (if asked = 0 then .rateLimited else .status 502), asked + 1)
    let mail : Settings := { apiUrl := "mailto:team" }
    let outcome := (workflow.findings {} (remembering mail)).run transport .empty 0
    ((workflow.findings {} (remembering {})).run transport .empty 0).value =
        (workflow.findings {} .offline : Id (List Finding)) ∧
      outcome.value = (workflow.findings {} .offline : Id (List Finding)) ∧ outcome.requested = [] := by
  intro workflow transport mail outcome
  have failing : ∀ url asked, Failing url (transport url asked).1 := by
    intro url asked
    refine ⟨_, rfl, ?_⟩
    split <;> simp
  have unusable : mail.Unusable := by
    intro base parsed
    have rootless : (Url.parse (withoutTrailingSlashes mail.apiUrl)).all (!·.canBeBase) = true := by
      decide +kernel
    simpa [parsed] using rootless
  exact ⟨(unreachable_findings {} {} workflow).1 Nat transport .empty 0 failing ⟨[], _, .refl, rfl⟩,
    (unreachable_findings {} mail workflow).2 unusable Nat transport .empty 0 ⟨[], _, .refl, rfl⟩⟩

end WorkflowLint.Registry

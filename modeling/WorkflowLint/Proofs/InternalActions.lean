import WorkflowLint.Config.Settings
import WorkflowLint.Proofs.Registry.Endpoint
import WorkflowLint.Proofs.Registry.Remembering

/-! What is requested for internal actions, and what for all others.

The rules and the registry tell internal actions by the same owner. The registry asks for the history of
one that has a subpath and would take any other for an external one; the rules see to it that no internal
action without a subpath gets that far. -/

set_option autoImplicit false

namespace WorkflowLint

/-- The owner is the namespace, up to the case of ASCII letters, and the namespace is not empty. -/
def RemoteAction.OwnedBy (action : RemoteAction) (owners : String) : Prop :=
  owners ≠ "" ∧ RemoteAction.foldCase action.owner = RemoteAction.foldCase owners

theorem RemoteAction.isInternal_iff {action : RemoteAction} {owners : String} :
    action.isInternal owners = true ↔ action.OwnedBy owners := by
  simp [RemoteAction.isInternal, RemoteAction.OwnedBy]

namespace Registry

variable {settings : Settings} {action : RemoteAction} {asks : String → Prop}
  {replies : String → Reply → Prop}

/-- The reply to a request for a tag's reference says where the tag's object is found. -/
def PointsAt (reference : Json) (url : String) : Prop :=
  (reference.member? "object").bind (textAt? "url") = some url

section Lookups

theorem fetch_ensures {α : Type} {url : Option String} {next : Json → Lookup (Option α)}
    (requested : ∀ given, url = some given → asks given ∧ ∀ json, replies given (.ok json) →
      (Task.ofLookup (next json)).Ensures (.onRequests asks replies) fun _ => True) :
    (Task.ofLookup (Lookup.fetch url next)).Ensures (.onRequests asks replies) fun _ => True := by
  cases url with
  | none => trivial
  | some given =>
    obtain ⟨asked, rest⟩ := requested given rfl
    refine ⟨asked, fun reply replied => ?_⟩
    cases reply with
    | ok json => exact rest json replied
    | error failure => trivial

section Internal

variable (asked : ∀ url, settings.historyUrl action = some url → asks url)
  (internal : action.isInternal settings.internalNamespace = true)
  (below : action.subpath.isSome = true)
include internal below

theorem endpoint_of_no_history (missing : settings.historyUrl action = none) (extra : List String) :
    settings.endpoint action extra = none := by
  obtain ⟨subpath, given⟩ := Option.isSome_iff_exists.mp below
  simp only [Settings.historyUrl, internal, if_true, given, Option.bind_eq_bind, Option.bind_some,
    Option.bind_eq_none_iff] at missing
  have noHistory : settings.endpoint action ["commits"] = none := by
    refine Option.eq_none_iff_forall_ne_some.mpr fun commits found => ?_
    cases missing commits found
  exact Settings.endpoint_eq_none noHistory extra

include asked

theorem presence_internal :
    (Task.ofLookup (presence settings action)).Ensures (.onRequests asks replies) fun _ => True := by
  unfold presence
  cases given : settings.historyUrl action with
  | some url => exact ⟨asked url given, fun _ _ => trivial⟩
  | none =>
    simp only [Settings.repositoryUrl, endpoint_of_no_history internal below given, Option.map_none]
    trivial

theorem newest_internal :
    (Task.ofLookup (newest settings action)).Ensures (.onRequests asks replies) fun _ => True := by
  unfold newest
  cases given : settings.historyUrl action with
  | some url =>
    refine fetch_ensures fun other same => ?_
    cases same
    exact ⟨asked url given, fun _ _ => trivial⟩
  | none =>
    simp only [Settings.releaseUrl, endpoint_of_no_history internal below given, Option.map_none]
    trivial

end Internal

section External

variable (asked : ∀ url, settings.IsRepositoryUrl action url → asks url)
  (external : action.isInternal settings.internalNamespace = false)
include asked external

theorem presence_external :
    (Task.ofLookup (presence settings action)).Ensures (.onRequests asks replies) fun _ => True := by
  have noHistory : settings.historyUrl action = none := by simp [Settings.historyUrl, external]
  simp only [presence, noHistory]
  cases given : settings.repositoryUrl action with
  | some url => exact ⟨asked url (.inl given), fun _ _ => trivial⟩
  | none => trivial

theorem newest_external
    (followed : ∀ tag tagged reference url, settings.tagUrl action tag = some tagged →
      replies tagged (.ok reference) → PointsAt reference url → asks url) :
    (Task.ofLookup (newest settings action)).Ensures (.onRequests asks replies) fun _ => True := by
  have noHistory : settings.historyUrl action = none := by simp [Settings.historyUrl, external]
  simp only [newest, noHistory]
  refine fetch_ensures fun release given => ⟨asked release (.inr (.inl given)), fun latest _ => ?_⟩
  refine fetch_ensures fun tagged named => ?_
  obtain ⟨tag, _, tagUrl⟩ := Option.bind_eq_some_iff.mp named
  refine ⟨asked tagged (.inr (.inr ⟨tag, tagUrl⟩)), fun reference replied => ?_⟩
  unfold commitOfTag
  split
  · trivial
  next object pointing =>
    split
    · trivial
    · refine fetch_ensures fun url given => ⟨?_, fun _ _ => trivial⟩
      exact followed tag tagged reference url tagUrl replied (by simp [PointsAt, pointing, given])

end External

end Lookups

end Registry

namespace Rules

open Registry (Contract Reply Task remembering)

theorem subpath_isSome {owners : String} {action : RemoteAction}
    (internal : action.isInternal owners = true) (complete : pathProblem owners action = none) :
    action.subpath.isSome = true := by
  -- An internal action needs three segments, and without a subpath there are at most two.
  unfold pathProblem at complete
  rw [if_pos internal] at complete
  split at complete
  · cases complete
  next segments =>
    unfold RemoteAction.segmentCount at segments
    cases below : action.subpath with
    | some subpath => rfl
    | none =>
      rw [below] at segments
      split at segments <;> simp at segments

variable {settings : Registry.Settings} {action : RemoteAction} {asks : String → Prop}
  {replies : String → Reply → Prop}

section Registered

variable
  (presence : (Task.ofLookup (Registry.presence settings action)).Ensures (.onRequests asks replies)
    fun _ => True)
  (newest : (Task.ofLookup (Registry.newest settings action)).Ensures (.onRequests asks replies)
    fun _ => True)
include presence newest

theorem registered_ensures (key : String) (number : Nat) (text : String) :
    (registered (remembering settings) key number text (.remote action)).Ensures
      (.onRequests asks replies) fun _ => True := by
  have isPresent : ((remembering settings).isPresent (.remote action)).Ensures
      (.onRequests asks replies) fun _ => True :=
    Registry.rememberedPresence_ensures (fun _ _ => trivial) (presence.mono fun _ _ => ⟨trivial, trivial⟩)
  have newest : ((remembering settings).newest (.remote action)).Ensures
      (.onRequests asks replies) fun _ => True :=
    Registry.rememberedNewest_ensures (fun _ _ => trivial) (newest.mono fun _ _ => ⟨trivial, trivial⟩)
  have updateUrl : ((remembering settings).updateUrl (.remote action)).Ensures
      (.onRequests asks replies) fun _ => True :=
    Task.ensures_bind newest fun _ _ => trivial
  unfold registered
  refine Task.ensures_bind isPresent fun present _ => ?_
  cases present with
  | false => trivial
  | true =>
    refine Task.ensures_bind updateUrl fun url _ => ?_
    cases url <;> trivial

end Registered

/-- A remote reference leads to the lookups of its action, where its path is complete, and to no others. -/
theorem uses_ensures {rules : RuleSettings} {text : String}
    (parsed : ActionRef.parse text = .remote action)
    (lookups : pathProblem rules.internalNamespace action = none →
      (Task.ofLookup (Registry.presence settings action)).Ensures (.onRequests asks replies)
          (fun _ => True) ∧
        (Task.ofLookup (Registry.newest settings action)).Ensures (.onRequests asks replies)
          fun _ => True)
    (key : String) (number : Nat) :
    (uses rules (remembering settings) key number text).Ensures (.onRequests asks replies)
      fun _ => True := by
  unfold uses
  rw [parsed]
  dsimp only
  cases complete : pathProblem rules.internalNamespace action with
  | some problem => trivial
  | none =>
    obtain ⟨presence, newest⟩ := lookups complete
    exact Task.ensures_bind (registered_ensures presence newest key number text) fun _ _ => trivial

end Rules

theorem Settings.resolve_internalNamespace (files : FileSystem) (overrides : Overrides) (start : Path) :
    (Settings.resolve files overrides start).registry.internalNamespace =
      (Settings.resolve files overrides start).rules.internalNamespace := by
  unfold Settings.resolve Settings.merge
  rfl

section Requests

open Registry (Contract Reply Task Transport remembering)

variable {rules : RuleSettings} {settings : Registry.Settings}
  (shared : settings.internalNamespace = rules.internalNamespace)
  {σ : Type} (transport : Transport σ) (memo : Registry.Memo) (state : σ) (key : String) (number : Nat)
  {text : String}

section Remote

variable {action : RemoteAction} (parsed : ActionRef.parse text = .remote action)
include shared parsed

theorem requested_internal (owned : action.OwnedBy rules.internalNamespace) :
    ∀ url ∈ ((Rules.uses rules (remembering settings) key number text).run transport memo
        state).requested,
      settings.historyUrl action = some url ∧ ∀ other, ¬settings.IsRepositoryUrl other url := by
  intro url member
  have internal : action.isInternal rules.internalNamespace = true :=
    RemoteAction.isInternal_iff.mpr owned
  have ensured : (Rules.uses rules (remembering settings) key number text).Ensures
      (.onRequests (fun url => settings.historyUrl action = some url) fun _ _ => True) fun _ => True := by
    refine Rules.uses_ensures parsed (fun complete => ?_) key number
    have below := Rules.subpath_isSome internal complete
    rw [← shared] at internal
    exact ⟨Registry.presence_internal (fun _ given => given) internal below,
      Registry.newest_internal (fun _ given => given) internal below⟩
  have history := ensured.requested (Contract.onRequests_admits _ _ memo) state (fun _ _ => trivial)
    url member
  refine ⟨history, fun other repository => ?_⟩
  exact repository.not_isHistoryUrl (Registry.Settings.historyUrl_isHistoryUrl history)

theorem requested_external (foreign : ¬action.OwnedBy rules.internalNamespace) :
    let task := Rules.uses rules (remembering settings) key number text
    ∀ url ∈ (task.run transport memo state).requested,
      (settings.IsRepositoryUrl action url ∧ ¬settings.IsHistoryUrl url) ∨
      ∃ tag tagged reference, settings.tagUrl action tag = some tagged ∧
        (tagged, .ok reference) ∈ task.log transport memo state ∧ Registry.PointsAt reference url := by
  intro task url member
  have external : action.isInternal settings.internalNamespace = false := by
    rw [shared, ← Bool.not_eq_true, RemoteAction.isInternal_iff]
    exact foreign
  -- Replies are told by the log of the run, so that what follows from one follows from one received.
  let received : String → Reply → Prop := fun url reply => (url, reply) ∈ task.log transport memo state
  let asks : String → Prop := fun url => settings.IsRepositoryUrl action url ∨
    ∃ tag tagged reference, settings.tagUrl action tag = some tagged ∧
      received tagged (.ok reference) ∧ Registry.PointsAt reference url
  have ensured : task.Ensures (.onRequests asks received) fun _ => True := by
    refine Rules.uses_ensures parsed (fun _ => ⟨?_, ?_⟩) key number
    · exact Registry.presence_external (fun _ given => .inl given) external
    · refine Registry.newest_external (fun _ given => .inl given) external ?_
      intro tag tagged reference url tagUrl replied points
      exact .inr ⟨tag, tagged, reference, tagUrl, replied, points⟩
  refine (ensured.requested (Contract.onRequests_admits _ _ memo) state (fun _ member => member) url
    member).imp_left fun repository => ?_
  exact ⟨repository, repository.not_isHistoryUrl⟩

end Remote

theorem requested_elsewhere (other : ∀ action, ActionRef.parse text ≠ .remote action) :
    ((Rules.uses rules (remembering settings) key number text).run transport memo state).requested =
      [] := by
  unfold Rules.uses
  split
  · rfl
  · rfl
  next action parsed => exact absurd parsed (other action)

/-- The settings of a run name one owner whose actions are internal, to the rules and to the registry. For
a reference to an internal action nothing is requested but its history, which is no URL of a repository.
For any other action only its repository, its releases and its tags are, and no history; but where the
reply for a tag names the URL of an object, that one is requested as it stands. -/
theorem internal_requests (files : FileSystem) (overrides : Overrides) (start : Path) :
    let settings := Settings.resolve files overrides start
    let owners := settings.rules.internalNamespace
    settings.registry.internalNamespace = owners ∧
    ∀ {σ : Type} (transport : Transport σ) (memo : Registry.Memo) (state : σ) (key : String)
      (number : Nat) (text : String),
      let task := Rules.uses settings.rules (remembering settings.registry) key number text
      let requested := (task.run transport memo state).requested
      (∀ action, ActionRef.parse text = .remote action → action.OwnedBy owners →
        ∀ url ∈ requested, settings.registry.historyUrl action = some url ∧
          ∀ other, ¬settings.registry.IsRepositoryUrl other url) ∧
      (∀ action, ActionRef.parse text = .remote action → ¬action.OwnedBy owners →
        ∀ url ∈ requested,
          (settings.registry.IsRepositoryUrl action url ∧ ¬settings.registry.IsHistoryUrl url) ∨
          ∃ tag tagged reference, settings.registry.tagUrl action tag = some tagged ∧
            (tagged, .ok reference) ∈ task.log transport memo state ∧
            Registry.PointsAt reference url) ∧
      ((∀ action, ActionRef.parse text ≠ .remote action) → requested = []) := by
  have shared := Settings.resolve_internalNamespace files overrides start
  generalize Settings.resolve files overrides start = settings at shared ⊢
  refine ⟨shared, fun transport memo state key number text => ⟨?_, ?_, ?_⟩⟩
  · intro action parsed owned
    exact requested_internal shared transport memo state key number parsed owned
  · intro action parsed foreign
    exact requested_external shared transport memo state key number parsed foreign
  · exact requested_elsewhere transport memo state key number

def emptyFiles : FileSystem where
  root := .directory []
  workingDirectory := []

theorem internal_requests_missing :
    let settings := Settings.resolve emptyFiles {} ⟨"."⟩
    let missing : Transport Unit := Transport.fixed fun _ => .error .notFound
    let requested (text : String) : List String :=
      ((Rules.uses settings.rules (remembering settings.registry) "a" 1 text).run missing .empty ()).requested
    (∀ url ∈ requested "BitWarden/a/b@1",
      settings.registry.historyUrl ⟨"BitWarden/a/b@1", "BitWarden", some "a", some "b", "1"⟩ = some url) ∧
    (∀ url ∈ requested "o/r@1", ¬settings.registry.IsHistoryUrl url) ∧ requested "o@r/./x" = [] := by
  intro settings missing requested
  obtain ⟨_, requests⟩ := internal_requests emptyFiles {} ⟨"."⟩
  have owners : settings.rules.internalNamespace = "bitwarden" := by decide +kernel
  refine ⟨?_, ?_, ?_⟩
  · intro url member
    have owned : RemoteAction.OwnedBy ⟨"BitWarden/a/b@1", "BitWarden", some "a", some "b", "1"⟩
        settings.rules.internalNamespace := by
      rw [owners]
      exact ⟨by decide, by decide⟩
    exact ((requests missing .empty () "a" 1 "BitWarden/a/b@1").1 _ (by decide +kernel) owned url member).1
  · intro url member
    have foreign : ¬RemoteAction.OwnedBy ⟨"o/r@1", "o", some "r", none, "1"⟩
        settings.rules.internalNamespace := by
      rw [owners]
      exact fun owned => absurd owned.2 (by decide)
    rcases (requests missing .empty () "a" 1 "o/r@1").2.1 _ (by decide +kernel) foreign url member with
      repository | ⟨tag, tagged, reference, _, replied, _⟩
    · exact repository.2
    · have failing : ((Rules.uses settings.rules (remembering settings.registry) "a" 1 "o/r@1").log missing
          .empty ()).all (fun exchange => !exchange.2.isOk) = true := by
        decide +kernel
      cases List.all_eq_true.mp failing _ replied
  · exact (requests missing .empty () "a" 1 "o@r/./x").2.2 fun action parsed => by
      have other : ActionRef.parse "o@r/./x" = .inTree "o@r/./x" := by decide +kernel
      cases other.symm.trans parsed

/-- The tag of the latest release is an object of its own, which is said to be found where the history of
the action is: an action of another owner that has its history requested. -/
theorem history_requested :
    let settings := Settings.resolve emptyFiles {} ⟨"."⟩
    let text := "actions/cache/save@03ad9a873c39cdc95dd8d77dbbda67f84db43945"
    let history := "https://api.github.com/repos/actions/cache/commits?path=save"
    let transport : Transport Unit := Transport.fixed fun _ =>
      .ok (.object [("tag_name", .string "v4"),
        ("object", .object [("type", .string "tag"), ("url", .string history)])])
    let requested :=
      ((Rules.uses settings.rules (remembering settings.registry) "build" 1 text).run transport .empty ()).requested
    ∃ action, ActionRef.parse text = .remote action ∧ ¬action.OwnedBy settings.rules.internalNamespace ∧
      settings.registry.IsHistoryUrl history ∧ history ∈ requested := by
  intro settings text history transport requested
  let action : RemoteAction := ⟨text, "actions", some "cache", some "save",
    "03ad9a873c39cdc95dd8d77dbbda67f84db43945"⟩
  have owners : settings.rules.internalNamespace = "bitwarden" := by decide +kernel
  refine ⟨action, by decide +kernel, ?_, ?_, by decide +kernel⟩
  · rw [owners]
    exact fun owned => absurd owned.2 (by decide)
  · have found : (settings.registry.endpoint action ["commits"]).any
        (fun commits => (commits.appendPair "path" "save").text = history) = true := by
      decide +kernel
    obtain ⟨commits, extended, same⟩ := (Option.any_eq_true _ _).mp found
    exact ⟨action, "save", commits, extended, (of_decide_eq_true same).symm⟩

end Requests

end WorkflowLint

import WorkflowLint.Http.Client
import WorkflowLint.Proofs.Json.EmptyArray
import WorkflowLint.Registry.Basic

/-! When an action counts as missing over HTTP.

A reply is made of the final response, and an answer of the reply. Only one status says that something
is missing, and only one document says that there are no commits; whatever else comes back, or nothing,
leaves the action present. -/

set_option autoImplicit false

namespace WorkflowLint

theorem fromUTF8?_eq_some {bytes : ByteArray} {text : String} :
    String.fromUTF8? bytes = some text ↔ bytes = text.toUTF8 := by
  unfold String.fromUTF8?
  constructor
  · intro read
    split at read
    · cases read
      rfl
    · cases read
  · rintro rfl
    exact dif_pos text.isValidUTF8

namespace Http

variable {σ : Type}

/-- The final response to a lookup of a URL. There is none where nothing can be requested, where the
connection fails, and where redirects lead nowhere. -/
def Client.final (client : Client) (server : Server σ) (url : String) (state : σ) : Option Response := do
  let request ← client.request url
  (exchange server redirectLimit request state).1.toOption

/-- An exchange fails with the connection, never with what a response says. -/
theorem exchange_error {server : Server σ} {redirects : Nat} {request : Request} {state : σ}
    {failure : Registry.Failure}
    (failed : (exchange server redirects request state).1 = .error failure) :
    ∃ reason, failure = .network reason := by
  -- A redirect goes on with the next request; all other cases end here, one of them with a response.
  fun_induction exchange server redirects request state with
  | case2 => cases failed
  | case4 request state response state' served url redirects redirect http ih => exact ih failed
  | case1 | case3 | case5 =>
    cases failed
    exact ⟨_, rfl⟩

theorem transport_of_final (client : Client) (server : Server σ) (url : String) (state : σ) :
    match client.final server url state with
    | some response => (client.transport server url state).1 = replyOf response
    | none => ∃ reason, (client.transport server url state).1 = .error (.network reason) := by
  unfold Client.final Client.transport
  cases client.request url with
  | none => exact ⟨_, rfl⟩
  | some request =>
    dsimp only [Option.bind_eq_bind, Option.bind_some]
    cases exchanged : exchange server redirectLimit request state with
    | mk reply state' =>
      cases reply with
      | ok response => rfl
      | error failure =>
        obtain ⟨reason, rfl⟩ := exchange_error (congrArg Prod.fst exchanged)
        exact ⟨reason, rfl⟩

theorem failureOf_eq_notFound {status : Nat} {remaining : Option String} :
    failureOf status remaining = .notFound ↔ status = 404 := by
  unfold failureOf
  repeat' split
  all_goals simp_all

theorem replyOf_eq_notFound {response : Response} :
    replyOf response = .error .notFound ↔ response.status = 404 := by
  unfold replyOf
  split
  next success =>
    have other : response.status ≠ 404 := by
      intro missing
      simp [missing, isSuccess] at success
    split <;> simp [other]
  next => simp [failureOf_eq_notFound]

theorem replyOf_eq_ok {response : Response} {json : Json} :
    replyOf response = .ok json ↔ (200 ≤ response.status ∧ response.status < 300) ∧
      ∃ text, response.content = text.toUTF8 ∧ Json.read text = some json := by
  have success : isSuccess response.status = true ↔ 200 ≤ response.status ∧ response.status < 300 := by
    simp [isSuccess]
  simp only [← success, ← fromUTF8?_eq_some, ← Option.bind_eq_some_iff]
  unfold replyOf
  split
  next accepted =>
    rw [and_iff_right accepted]
    cases (String.fromUTF8? response.content).bind Json.read <;> simp
  next rejected => simp [rejected]

end Http

namespace Registry

theorem saysPresent_eq_false {accepts : Json → Bool} {reply : Reply} :
    saysPresent accepts reply = false ↔
      reply = .error .notFound ∨ ∃ json, reply = .ok json ∧ accepts json = false := by
  cases reply with
  | ok json => simp [saysPresent]
  | error failure => cases failure <;> simp [saysPresent]

theorem hasCommits_eq_false {json : Json} : hasCommits json = false ↔ json = .array [] := by
  unfold hasCommits
  split <;> simp_all

theorem endpoint_isSome {settings : Settings} {action : RemoteAction} {repo : String} {base : Url}
    (named : action.repo = some repo)
    (parsed : Url.parse (withoutTrailingSlashes settings.apiUrl) = some base)
    (hierarchical : base.canBeBase = true) (extra : List String) :
    ∃ url, settings.endpoint action extra = some url := by
  unfold Url.canBeBase at hierarchical
  split at hierarchical
  next segments rooted => exact ⟨_, by simp [Settings.endpoint, named, parsed, Url.extendPath, rooted]; rfl⟩
  next => cases hierarchical

/-- An internal action with a subpath is known by its history, any other one by its repository. -/
def Settings.byHistory (settings : Settings) (action : RemoteAction) : Bool :=
  action.isInternal settings.internalNamespace && action.subpath.isSome

theorem Settings.historyUrl_eq_none {settings : Settings} {action : RemoteAction}
    (other : settings.byHistory action = false) : settings.historyUrl action = none := by
  unfold Settings.historyUrl
  split
  next internal =>
    have bare : action.subpath = none := by simpa [Settings.byHistory, internal] using other
    simp [bare]
  next => rfl

def Settings.presenceUrl (settings : Settings) (action : RemoteAction) : Option String :=
  if settings.byHistory action then settings.historyUrl action else settings.repositoryUrl action

section Usable

variable {settings : Settings} {action : RemoteAction} {repo : String} {base : Url}
  (named : action.repo = some repo)
  (parsed : Url.parse (withoutTrailingSlashes settings.apiUrl) = some base)
  (hierarchical : base.canBeBase = true)
include named parsed hierarchical

/-- Where there is a base URL, an action is looked up by one request. Failures are judged alike for all
actions, and so is every document but a history without commits. -/
theorem presence_asks : ∃ url accepts, settings.presenceUrl action = some url ∧
    presence settings action = .ask url (fun reply => .done (saysPresent accepts reply)) ∧
      ∀ json, accepts json = false ↔ settings.byHistory action = true ∧ json = .array [] := by
  unfold Settings.presenceUrl
  cases history : settings.byHistory action with
  | true =>
    obtain ⟨internal, below⟩ := Bool.and_eq_true_iff.mp history
    obtain ⟨subpath, below⟩ := Option.isSome_iff_exists.mp below
    obtain ⟨commits, found⟩ := endpoint_isSome named parsed hierarchical ["commits"]
    let url := (commits.appendPair "path" subpath).text
    have historyUrl : settings.historyUrl action = some url := by
      simp [Settings.historyUrl, internal, below, found, url]
    refine ⟨url, hasCommits, historyUrl, by simp only [presence, historyUrl], fun json => ?_⟩
    rw [hasCommits_eq_false, and_iff_right rfl]
  | false =>
    have historyUrl : settings.historyUrl action = none := Settings.historyUrl_eq_none history
    obtain ⟨repository, found⟩ := endpoint_isSome named parsed hierarchical []
    have repositoryUrl : settings.repositoryUrl action = some repository.text := by
      simp [Settings.repositoryUrl, found]
    exact ⟨repository.text, fun _ => true, repositoryUrl,
      by simp only [presence, historyUrl, repositoryUrl], by simp⟩

end Usable

theorem run_isPresent {settings : Settings} {action : RemoteAction} {url : String} {judge : Reply → Bool}
    (asks : presence settings action = .ask url fun reply => .done (judge reply)) {σ : Type}
    (transport : Transport σ) {memo : Memo} (first : memo.presence.lookup action.raw = none) (state : σ) :
    let outcome := ((remembering settings).isPresent (.remote action)).run transport memo state
    outcome.requested = [url] ∧ outcome.value = judge (transport url state).1 := by
  simp [remembering, rememberedPresence, Task.run, first, asks, Task.ofLookup, Task.bind]

/-- Looked up for the first time over HTTP, an action is missing just when the final response has status
404, or when it is known by its history, the response succeeds and its content is an empty array. So no
failed connection, no other status whatever its headers say, and no other content hides an action. -/
theorem absent_iff (settings : Settings) (action : RemoteAction) {repo : String} {base : Url}
    (named : action.repo = some repo)
    (parsed : Url.parse (withoutTrailingSlashes settings.apiUrl) = some base)
    (hierarchical : base.canBeBase = true) {σ : Type} (client : Http.Client) (server : Http.Server σ)
    (memo : Memo) (first : memo.presence.lookup action.raw = none) (state : σ) :
    let outcome :=
      ((remembering settings).isPresent (.remote action)).run (client.transport server) memo state
    ∃ url, settings.presenceUrl action = some url ∧ outcome.requested = [url] ∧
      (outcome.value = false ↔ ∃ response, client.final server url state = some response ∧
        (response.status = 404 ∨
          settings.byHistory action = true ∧ (200 ≤ response.status ∧ response.status < 300) ∧
            ∃ text : String, response.content = text.toUTF8 ∧ Json.IsEmptyArray text.toList)) := by
  intro outcome
  obtain ⟨url, accepts, presenceUrl, asks, empty⟩ := presence_asks named parsed hierarchical
  obtain ⟨requested, value⟩ := run_isPresent asks (client.transport server) first state
  refine ⟨url, presenceUrl, requested, ?_⟩
  have replied := Http.transport_of_final client server url state
  simp only [outcome, value, saysPresent_eq_false, empty]
  cases final : client.final server url state with
  | none =>
    simp only [final] at replied
    obtain ⟨reason, failed⟩ := replied
    simp [failed]
  | some response =>
    simp only [final] at replied
    -- What is left apart is the order of the conditions.
    simp only [replied, Http.replyOf_eq_notFound, Http.replyOf_eq_ok, Option.some.injEq, exists_eq_left',
      ← Json.read_eq_emptyArray]
    refine or_congr_right ?_
    constructor
    · rintro ⟨_, ⟨success, text, content, read⟩, history, rfl⟩
      exact ⟨history, success, text, content, read⟩
    · rintro ⟨history, success, text, content, read⟩
      exact ⟨_, ⟨success, text, content, read⟩, history, rfl⟩

/-- An internal action whose history is served as an empty array is missing; with a quota that is used up
nothing is known about it. -/
theorem absent_emptyHistory :
    let action : RemoteAction := ⟨"bitwarden/a/b@1", "bitwarden", some "a", some "b", "1"⟩
    let serving (status : Nat) (headers : List (String × String)) : Http.Server Unit :=
      fun _ state => (some ⟨status, headers, "[ ]".toUTF8⟩, state)
    let client : Http.Client := ⟨some "secret"⟩
    let found (server : Http.Server Unit) : Bool :=
      (((remembering {}).isPresent (.remote action)).run (client.transport server) .empty ()).value
    found (serving 200 []) = false ∧ found (serving 403 [("X-RateLimit-Remaining", "0")]) = true := by
  intro action serving client found
  have usable : (Url.parse (withoutTrailingSlashes defaultApiUrl)).any Url.canBeBase = true := by
    decide +kernel
  obtain ⟨base, parsed, hierarchical⟩ := (Option.any_eq_true _ _).mp usable
  let history : String := "https://api.github.com/repos/bitwarden/a/commits?path=b"
  have only : Settings.presenceUrl {} action = some history := by decide +kernel
  have decided : ∀ server, found server = false ↔ ∃ response, client.final server history () = some response ∧
      (response.status = 404 ∨ (200 ≤ response.status ∧ response.status < 300) ∧
        ∃ text : String, response.content = text.toUTF8 ∧ Json.IsEmptyArray text.toList) := by
    intro server
    obtain ⟨url, given, _, decided⟩ := absent_iff {} action rfl parsed hierarchical client server .empty rfl ()
    obtain rfl := Option.some.inj (only.symm.trans given)
    have internal : Settings.byHistory {} action = true := by decide +kernel
    simpa only [internal, true_and] using decided
  constructor
  · have final : (client.final (serving 200 []) history ()).any
        (fun response => response.status = 200 ∧ response.content = "[ ]".toUTF8) = true := by
      decide +kernel
    obtain ⟨response, final, served⟩ := (Option.any_eq_true _ _).mp final
    obtain ⟨status, content⟩ := of_decide_eq_true served
    refine (decided _).mpr ⟨response, final, .inr ⟨by omega, "[ ]", content, [], [' '], [], rfl, ?_⟩⟩
    simp
  · have final : (client.final (serving 403 [("X-RateLimit-Remaining", "0")]) history ()).any
        (fun response => response.status = 403) = true := by
      decide +kernel
    obtain ⟨response, final, served⟩ := (Option.any_eq_true _ _).mp final
    have status := of_decide_eq_true served
    rw [← Bool.not_eq_false]
    intro absent
    obtain ⟨other, same, missing⟩ := (decided _).mp absent
    obtain rfl := Option.some.inj (final.symm.trans same)
    omega

end Registry

end WorkflowLint

import WorkflowLint.Proofs.Action.Segments
import WorkflowLint.Proofs.Http.Absence
import WorkflowLint.Proofs.Registry.Endpoint
import WorkflowLint.Proofs.RequestTrace

/-! Which complete paths are looked up.

A path is complete by the number of its parts, whichever these are, and a lookup needs the repository. So
with a subpath in its place, behind two slashes, nothing is requested and the action counts as present.
With a repository there is one request, below owner and repository, and its reply decides. -/

set_option autoImplicit false

namespace WorkflowLint

section Texts

variable {owners text : String} {action : RemoteAction}

/-- An internal action with a complete path has all its parts, any other one at least two of them. -/
theorem Rules.given_of_complete (complete : pathProblem owners action = none) :
    if action.isInternal owners then action.repo.isSome ∧ action.subpath.isSome
    else action.repo.isSome ∨ action.subpath.isSome := by
  have given := mt pathProblem_ne_none_iff.mpr (not_not.mpr complete)
  cases internal : action.isInternal owners <;> cases repo : action.repo <;>
    cases subpath : action.subpath <;> simp_all

namespace ActionRef

variable (remote : parse text = .remote action)
include remote

theorem text_of_repo {repo : String} (named : action.repo = some repo) :
    ∃ rest, text = action.owner ++ "/" ++ repo ++ rest := by
  obtain ⟨_, _, _, path, member, rfl⟩ := parse_eq_remote.mp remote
  obtain ⟨nameless, _⟩ | ⟨_, rfl⟩ | rfl := RemoteAction.mem_paths.mp member
  · cases nameless.symm.trans named
  · exact ⟨"@" ++ action.revision, by simp [named, String.append_assoc]⟩
  · exact ⟨"/" ++ action.subpath.getD "" ++ "@" ++ action.revision, by simp [named, String.append_assoc]⟩

theorem text_of_nameless (nameless : action.repo = none) (below : action.subpath.isSome) :
    ∃ rest, text = action.owner ++ "//" ++ rest := by
  obtain ⟨_, _, _, path, member, rfl⟩ := parse_eq_remote.mp remote
  obtain ⟨_, bare, _⟩ | ⟨bare, _⟩ | rfl := RemoteAction.mem_paths.mp member
  · simp [bare] at below
  · simp [bare] at below
  · refine ⟨action.subpath.getD "" ++ "@" ++ action.revision, ?_⟩
    apply String.toList_injective
    simp [nameless]

variable (given : action.repo.isSome ∨ action.subpath.isSome)
include given

theorem text_of_given : ∃ rest, text = action.owner ++ "/" ++ rest := by
  cases named : action.repo with
  | some repo =>
    obtain ⟨rest, rfl⟩ := text_of_repo remote named
    exact ⟨repo ++ rest, by simp only [String.append_assoc]⟩
  | none =>
    obtain ⟨rest, rfl⟩ := text_of_nameless remote named (by simpa [named] using given)
    refine ⟨"/" ++ rest, ?_⟩
    apply String.toList_injective
    simp

theorem owner_eq_empty_iff : action.owner = "" ↔ ['/'] <+: text.toList := by
  have slashless := (parse_eq_remote.mp remote).2.2.1.owner
  obtain ⟨rest, rfl⟩ := text_of_given remote given
  rw [← String.toList_eq_nil_iff]
  cases owner : action.owner.toList with
  | nil => simp [owner]
  | cons c cs =>
    have other : '/' ≠ c := by
      rintro rfl
      simp [owner] at slashless
    simp [owner, other]

theorem isDots_owner : Url.isDots action.owner = false := by
  have unmarked := (parse_eq_remote.mp remote).2.1
  obtain ⟨rest, rfl⟩ := text_of_given remote given
  apply eq_false_of_ne_true
  intro dots
  apply unmarked
  obtain one | two : action.owner = "." ∨ action.owner = ".." := by simpa [Url.isDots] using dots
  · exact ⟨[], rest.toList, by simp [one, inTreeMarker]⟩
  · exact ⟨['.'], rest.toList, by simp [two, inTreeMarker]⟩

theorem repo_eq_none_iff : action.repo = none ↔ (action.owner ++ "//").toList <+: text.toList := by
  constructor
  · intro nameless
    obtain ⟨rest, rfl⟩ := text_of_nameless remote nameless (by simpa [nameless] using given)
    exact ⟨rest.toList, by simp⟩
  · intro doubled
    apply Option.eq_none_iff_forall_ne_some.mpr
    intro repo named
    obtain ⟨filled, slashless⟩ := (parse_eq_remote.mp remote).2.2.1.repo repo named
    obtain ⟨rest, rfl⟩ := text_of_repo remote named
    -- What follows the first slash would have to be another one, which no repository starts with.
    obtain ⟨c, cs, first⟩ : ∃ c cs, repo.toList = c :: cs := by
      apply List.exists_cons_of_ne_nil
      simpa using filled
    obtain rfl : '/' = c := by simpa [first] using doubled
    simp [first] at slashless

end ActionRef

end Texts

namespace Registry

section Urls

variable {settings : Settings} {action : RemoteAction} {repo : String} {base : Url} {segments : List String}
  (parsed : Url.parse (withoutTrailingSlashes settings.apiUrl) = some base)
  (web : base.scheme = "http" ∨ base.scheme = "https") (rooted : base.path = .rooted segments)
  (named : action.repo = some repo) (ownerShown : Url.ShowsDots action.owner)
  (repoShown : Url.ShowsDots repo)
include parsed web rooted named ownerShown repoShown

/-- The URL that tells whether the action exists extends the base URL by owner and repository, and for a
history by the place of the commits and by the subpath. -/
theorem Settings.presenceUrl_shown :
    settings.presenceUrl action =
      let path := Url.stem segments ++ Settings.addressed action.owner repo
      some (if settings.byHistory action then
          ({ base with path := .rooted (path ++ ["commits"]) } : Url).appendPair "path"
            (action.subpath.getD "")
        else { base with path := .rooted path }).text := by
  have extended {extra : List String} (shown : ∀ segment ∈ extra, Url.ShowsDots segment) :=
    Settings.endpoint_shown parsed web rooted named ownerShown repoShown shown
  unfold Settings.presenceUrl
  cases history : settings.byHistory action with
  | true =>
    obtain ⟨internal, below⟩ := Bool.and_eq_true_iff.mp history
    obtain ⟨subpath, below⟩ := Option.isSome_iff_exists.mp below
    have commits : Url.ShowsDots "commits" ∧ Url.isDots "commits" = false ∧
        Url.encoded true "commits" = "commits" := by
      decide
    obtain ⟨shown, notDots, plain⟩ := commits
    have commits := extended (List.forall_mem_singleton.mpr shown)
    simp [Settings.historyUrl, internal, below, commits, notDots, plain]
  | false =>
    have repository := extended (List.forall_mem_nil _)
    simp [Settings.repositoryUrl, repository]

end Urls

section Runs

variable {settings : Settings} {action : RemoteAction} {σ : Type} (transport : Transport σ) {memo : Memo} (state : σ)

section Nameless

variable (nameless : action.repo = none)
include nameless

theorem run_isPresent_nameless (fresh : memo.presence.lookup action.raw = none) :
    ((remembering settings).isPresent (.remote action)).run transport memo state =
      ⟨true, { memo with presence := (action.raw, true) :: memo.presence }, state, []⟩ := by
  have unasked : presence settings action = .done true := presence_nowhere (Settings.endpoint_nameless nameless)
  simp [remembering, rememberedPresence, Task.run, fresh, unasked, Task.ofLookup, Task.bind]

theorem run_updateUrl_nameless (fresh : memo.newest.lookup action.raw = none) :
    ((remembering settings).updateUrl (.remote action)).run transport memo state =
      ⟨none, { memo with newest := (action.raw, none) :: memo.newest }, state, []⟩ := by
  have unasked : newest settings action = .done none := newest_nowhere (Settings.endpoint_nameless nameless)
  have noNews : ((remembering settings).newest (.remote action)).run transport memo state =
      ⟨none, { memo with newest := (action.raw, none) :: memo.newest }, state, []⟩ := by
    simp [remembering, rememberedNewest, Task.run, fresh, unasked, Task.ofLookup, Task.bind]
  change (((remembering settings).newest (.remote action)).bind _).run transport memo state = _
  rw [Task.run_bind, noNews]
  rfl

end Nameless

/-- An action with a repository is asked for by one request. It is missing if the reply says so, and if it
is known by its history and there are no commits. -/
theorem run_isPresent_named {repo : String} {base : Url} (named : action.repo = some repo)
    (parsed : Url.parse (withoutTrailingSlashes settings.apiUrl) = some base)
    (hierarchical : base.canBeBase = true) (fresh : memo.presence.lookup action.raw = none) :
    let present := ((remembering settings).isPresent (.remote action)).run transport memo state
    ∃ url, settings.presenceUrl action = some url ∧ present.requested = [url] ∧
      (present.value = false ↔ (transport url state).1 = .error .notFound ∨
        settings.byHistory action = true ∧ (transport url state).1 = .ok (.array [])) := by
  intro present
  obtain ⟨url, accepts, presenceUrl, asks, empty⟩ := presence_asks named parsed hierarchical
  obtain ⟨requested, value⟩ := run_isPresent asks transport fresh state
  have judged : present.value = saysPresent accepts (transport url state).1 := value
  refine ⟨url, presenceUrl, requested, ?_⟩
  rw [judged, saysPresent_eq_false]
  -- Of the documents, only a history without commits is not accepted.
  apply or_congr_right
  constructor
  · rintro ⟨json, replied, nothing⟩
    obtain ⟨history, rfl⟩ := (empty json).mp nothing
    exact ⟨history, replied⟩
  · rintro ⟨history, replied⟩
    exact ⟨_, replied, (empty _).mpr ⟨history, rfl⟩⟩

end Runs

end Registry

namespace Rules

open Registry (Memo Transport defaultApiUrl remembering run_isPresent_named run_isPresent_nameless
  run_updateUrl_nameless withoutTrailingSlashes)

section Uses

variable {rules : RuleSettings} {text : String} {action : RemoteAction} {σ : Type}
  (remote : ActionRef.parse text = .remote action)
  (complete : pathProblem rules.internalNamespace action = none) (key : String) (number : Nat)
  (transport : Transport σ) (state : σ)
include remote complete

/-- A reference with a complete path is looked up before anything is said on it but its revision, and is
asked about again only if it is present. -/
theorem run_uses_complete (registry : ActionRegistry Registry.Task) (memo : Memo) :
    let present := (registry.isPresent (.remote action)).run transport memo state
    let update := (registry.updateUrl (.remote action)).run transport present.memo present.state
    let outcome := (uses rules registry key number text).run transport memo state
    outcome.value =
        revision key number action ++ (remarkFor key number text present.value update.value).toList ∧
      outcome.requested = present.requested ++ if present.value then update.requested else [] := by
  intro present update outcome
  have looked : uses rules registry key number text =
      (registered registry key number text (.remote action)).bind fun found =>
        .done (revision key number action ++ found) := by
    unfold uses
    rw [remote]
    dsimp only
    rw [complete]
    rfl
  have asked : registered registry key number text (.remote action) =
      (registry.isPresent (.remote action)).bind (remarkAfter registry key number text (.remote action)) :=
    registered_eq registry key number text (.remote action)
  have ran : outcome = _ := congrArg (Registry.Task.run transport · memo state) looked
  rw [ran, asked, Registry.Task.run_bind, Registry.Task.run_bind]
  -- The first answer alone tells whether there is a second question.
  cases found : present.value with
  | false => simp [present, found, remarkAfter, Registry.Task.run, remarkFor, pure]
  | true =>
    have followed : remarkAfter registry key number text (.remote action) true =
        (registry.updateUrl (.remote action)).bind fun url =>
          .done (remarkFor key number text true url).toList := rfl
    simp [present, found, followed, Registry.Task.run_bind, Registry.Task.run, update]

variable {settings : Registry.Settings} {memo : Memo}

theorem run_uses_nameless (nameless : action.repo = none) (fresh : memo.presence.lookup action.raw = none)
    (fresh' : memo.newest.lookup action.raw = none) :
    let outcome := (uses rules (remembering settings) key number text).run transport memo state
    outcome.value = revision key number action ∧ outcome.requested = [] := by
  have ran := run_uses_complete remote complete key number transport state (remembering settings) memo
  have news : ((remembering settings).updateUrl (.remote action)).run transport
      ⟨(action.raw, true) :: memo.presence, memo.newest⟩ state = _ :=
    run_updateUrl_nameless transport state nameless fresh'
  simp only [run_isPresent_nameless transport state nameless fresh, news] at ran
  simpa [remarkFor] using ran

end Uses

/-- A reference whose path passes for complete is looked up for the first time, at a registry that is
reached over HTTP. The owner is empty just if the text starts with a slash, and it is never dots; the
repository is missing just if two slashes follow the owner, and never for an internal action. Without a
repository nothing is requested, the action counts as present, and only its revision can be found fault
with. With a repository there is one request before the answer, for the URL below owner and repository; the
action counts as missing, and is reported, just when the reply says so or is a history without commits. -/
theorem uses_lookedUp (settings : Registry.Settings) {base : Url}
    (parsed : Url.parse (withoutTrailingSlashes settings.apiUrl) = some base)
    (web : base.scheme = "http" ∨ base.scheme = "https") (rules : RuleSettings) {text : String}
    {action : RemoteAction} (remote : ActionRef.parse text = .remote action)
    (complete : pathProblem rules.internalNamespace action = none) (key : String) (number : Nat) {σ : Type}
    (transport : Transport σ) (memo : Memo) (fresh : memo.presence.lookup text = none)
    (fresh' : memo.newest.lookup text = none) (state : σ) :
    let present := ((remembering settings).isPresent (.parse text)).run transport memo state
    let outcome := (uses rules (remembering settings) key number text).run transport memo state
    (action.owner = "" ↔ ['/'] <+: text.toList) ∧ Url.isDots action.owner = false ∧
    (action.repo = none ↔ (action.owner ++ "//").toList <+: text.toList) ∧
    (action.isInternal rules.internalNamespace = true → action.repo.isSome) ∧
    (action.repo = none → present.value = true ∧ present.requested = [] ∧
      outcome.value = revision key number action ∧ outcome.requested = []) ∧
    ∀ repo, action.repo = some repo → ∃ url update rest,
      present.requested = [url] ∧ outcome.requested = url :: rest ∧
      outcome.value = revision key number action ++ (remarkFor key number text present.value update).toList ∧
      (present.value = false ↔ (transport url state).1 = .error .notFound ∨
        settings.byHistory action = true ∧ (transport url state).1 = .ok (.array [])) ∧
      (Url.ShowsDots action.owner → Url.ShowsDots repo → ∃ segments, base.path = .rooted segments ∧
        let path := Url.stem segments ++ Registry.Settings.addressed action.owner repo
        url = (if settings.byHistory action then
            ({ base with path := .rooted (path ++ ["commits"]) } : Url).appendPair "path"
              (action.subpath.getD "")
          else { base with path := .rooted path }).text) := by
  intro present outcome
  have given : action.repo.isSome ∨ action.subpath.isSome := by
    have given := given_of_complete complete
    split at given
    · exact .inl given.1
    · exact given
  have raw : action.raw = text := (ActionRef.parse_eq_remote.mp remote).1
  rw [← raw] at fresh fresh'
  have asked : present = ((remembering settings).isPresent (.remote action)).run transport memo state := by
    simp only [present, remote]
  refine ⟨ActionRef.owner_eq_empty_iff remote given, ActionRef.isDots_owner remote given,
    ActionRef.repo_eq_none_iff remote given, ?_, ?_, ?_⟩
  · intro internal
    have given := given_of_complete complete
    rw [if_pos internal] at given
    exact given.1
  · intro nameless
    rw [asked, run_isPresent_nameless transport state nameless fresh]
    exact ⟨rfl, rfl, run_uses_nameless remote complete key number transport state nameless fresh fresh'⟩
  · intro repo named
    obtain ⟨segments, rooted⟩ := Url.parse_rooted parsed (Url.isSpecial_of_web web)
    have hierarchical : base.canBeBase = true := by simp [Url.canBeBase, rooted]
    obtain ⟨url, presenceUrl, requested, missing⟩ :=
      run_isPresent_named transport state named parsed hierarchical fresh
    obtain ⟨found, requests⟩ :=
      run_uses_complete remote complete key number transport state (remembering settings) memo
    rw [← asked] at requested missing found requests
    rw [requested] at requests
    refine ⟨url, _, _, requested, requests, found, missing, ?_⟩
    intro owner shown
    have extended := Registry.Settings.presenceUrl_shown parsed web rooted named owner shown
    exact ⟨segments, rooted, Option.some.inj (presenceUrl.symm.trans extended)⟩

theorem uses_lookedUp_gap :
    let nothing : Transport Unit := fun _ state => (.error .notFound, state)
    let outcome (text : String) := (uses {} (remembering {}) "build" 1 text).run nothing .empty ()
    ((∃ rest, (outcome "o/r@1").requested = "https://api.github.com/repos/o/r" :: rest) ∧
      missingAction "build" 1 "o/r@1" ∈ (outcome "o/r@1").value) ∧ (outcome "o//s@1").requested = [] := by
  intro nothing outcome
  let base : Url := ⟨"https", "", "", some (.name "api.github.com"), none, .rooted [""], none, none⟩
  have parsed : Url.parse (withoutTrailingSlashes defaultApiUrl) = some base := by decide +kernel
  constructor
  · have remote : ActionRef.parse "o/r@1" = .remote ⟨"o/r@1", "o", some "r", none, "1"⟩ := by decide
    obtain ⟨_, _, _, _, _, lookedUp⟩ :=
      uses_lookedUp {} parsed (.inr rfl) {} remote (by decide) "build" 1 nothing .empty rfl rfl ()
    obtain ⟨url, _, rest, _, requests, found, missing, shown⟩ := lookedUp "r" rfl
    obtain ⟨_, ⟨⟩, address⟩ := shown (by decide) (by decide)
    have absent := missing.mpr (.inl rfl)
    have repository : url = "https://api.github.com/repos/o/r" := address.trans (by decide +kernel)
    refine ⟨⟨rest, repository ▸ requests⟩, ?_⟩
    rw [absent] at found
    simp [outcome, found, remarkFor]
  · have remote : ActionRef.parse "o//s@1" = .remote ⟨"o//s@1", "o", none, some "s", "1"⟩ := by decide
    obtain ⟨_, _, _, _, unasked, _⟩ :=
      uses_lookedUp {} parsed (.inr rfl) {} remote (by decide) "build" 1 nothing .empty rfl rfl ()
    obtain ⟨_, _, _, requests⟩ := unasked rfl
    exact requests

/-- A path that passes for complete has no repository, and another one has no owner. The first one is not
looked up, so nothing is said on it even where every lookup would tell that it is missing. -/
theorem uses_overlooked :
    let hash := "0123456789012345678901234567890123456789"
    let gap : RemoteAction := ⟨"owner//sub@" ++ hash, "owner", none, some "sub", hash⟩
    let slash : RemoteAction := ⟨"/repo@" ++ hash, "", some "repo", none, hash⟩
    let nothing : Transport Unit := fun _ state => (.error .notFound, state)
    let present := ((remembering {}).isPresent (.remote gap)).run nothing .empty ()
    let outcome := (uses {} (remembering {}) "build" 1 gap.raw).run nothing .empty ()
    ActionRef.parse gap.raw = .remote gap ∧ pathProblem "bitwarden" gap = none ∧
      present.value = true ∧ present.requested = [] ∧ outcome.value = [] ∧ outcome.requested = [] ∧
      ActionRef.parse slash.raw = .remote slash ∧ pathProblem "bitwarden" slash = none := by
  intro hash gap slash nothing present outcome
  have remote : ActionRef.parse gap.raw = .remote gap := by decide +kernel
  have complete : pathProblem "bitwarden" gap = none := by decide
  have pinned : revision "build" 1 gap = [] := by decide +kernel
  have asked : present = _ := run_isPresent_nameless nothing () rfl rfl
  obtain ⟨found, requests⟩ : outcome.value = _ ∧ outcome.requested = [] :=
    run_uses_nameless remote complete "build" 1 nothing () rfl rfl rfl
  have value : outcome.value = [] := found.trans pinned
  have slashRemote : ActionRef.parse slash.raw = .remote slash := by decide +kernel
  have slashComplete : pathProblem "bitwarden" slash = none := by decide
  rw [asked]
  exact ⟨remote, complete, rfl, rfl, value, requests, slashRemote, slashComplete⟩

end Rules

end WorkflowLint

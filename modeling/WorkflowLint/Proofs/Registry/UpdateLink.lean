import WorkflowLint.Proofs.Registry.Endpoint
import WorkflowLint.Proofs.Registry.History
import WorkflowLint.Proofs.Registry.Remembering

/-! Links to newer commits.

Both lookups of an action start below its repository, so nothing is requested for an action without one,
and there is no news of it. The memo keeps to that: its key is the raw text, which decides whether there
is a repository. So a link always names one, whatever was looked up before, in whatever order and with
whatever replies. -/

set_option autoImplicit false

namespace WorkflowLint.Registry

variable {settings : Settings} {action : RemoteAction}

/-- The memo can be found after some steps of any queries, asked one after the other or side by side, and
whatever is replied. -/
def Visited (settings : Settings) (memo : Memo) : Prop :=
  ∃ (queries : List Query) (pool : Pool Answer),
    Pool.Runs (fun _ _ => True) ⟨queries.map (Query.ask (remembering settings)), .empty⟩ pool ∧
      pool.memo = memo

section Visited

theorem visited_empty (settings : Settings) : Visited settings .empty :=
  ⟨[], _, .refl, rfl⟩

/-- Tasks can go on as before when more of them wait. -/
theorem Pool.Runs.append {α : Type} {replies : String → Reply → Prop} {before after : Pool α}
    (run : Pool.Runs replies before after) (waiting : List (Task α)) :
    Pool.Runs replies ⟨before.tasks ++ waiting, before.memo⟩ ⟨after.tasks ++ waiting, after.memo⟩ := by
  induction run with
  | refl => exact .refl
  | @tail middle _ _ step ih =>
    apply ih.tail
    obtain ⟨selected, step⟩ := step
    have inside := (List.getElem?_eq_some_iff.mp selected).1
    have still : (middle.tasks ++ waiting)[_]? = some _ := (List.getElem?_append_left inside).trans selected
    have advanced : Pool.Step replies ⟨middle.tasks ++ waiting, middle.memo⟩ _ := .advance still step
    rwa [List.set_append_left _ _ inside] at advanced

theorem Visited.ask {memo : Memo} (visited : Visited settings memo) (query : Query) {σ : Type}
    (transport : Transport σ) (state : σ) :
    Visited settings ((query.ask (remembering settings)).run transport memo state).memo := by
  obtain ⟨queries, pool, run, rfl⟩ := visited
  let task := query.ask (remembering settings)
  let outcome := task.run transport pool.memo state
  have last : Pool.Runs (fun _ _ => True) ⟨pool.tasks ++ [task], pool.memo⟩
      ⟨pool.tasks ++ [.done outcome.value], outcome.memo⟩ :=
    Pool.runs_task (fun _ _ => trivial) pool.tasks [] task pool.memo state
  refine ⟨queries ++ [query], ⟨pool.tasks ++ [.done outcome.value], outcome.memo⟩, ?_, rfl⟩
  rw [List.map_append]
  exact (run.append [task]).trans last

end Visited

section Named

def Named (action : RemoteAction) (sha : Option String) : Prop := sha.isSome → action.repo.isSome

def naming : Contract := .onNews (fun _ _ => True) Named

theorem newest_named (settings : Settings) (action : RemoteAction) :
    (Task.ofLookup (newest settings action)).Ensures naming (Named action) := by
  cases given : action.repo with
  | none =>
    rw [newest_nowhere (Settings.endpoint_nameless given)]
    exact nofun
  | some repo =>
    apply lookup_ensures_onNews
    intro sha _
    rw [given]
    rfl

theorem Query.ask_named (settings : Settings) (query : Query) :
    (query.ask (remembering settings)).Ensures naming fun _ => True := by
  have news := newest_ensures_onNews (newest_named settings)
  cases query with
  | presence text => exact Task.ensures_bind (isPresent_ensures_onNews _) fun _ _ => trivial
  | newest text => exact Task.ensures_bind (news text) fun _ _ => trivial
  | update text => exact Task.ensures_bind (updateUrl_ensures (news text)) fun _ _ => trivial

theorem Visited.admits {memo : Memo} (visited : Visited settings memo) : naming.Admits memo := by
  obtain ⟨queries, pool, run, rfl⟩ := visited
  have start : Pool.Ensures naming (fun _ _ => True)
      ⟨queries.map (Query.ask (remembering settings)), .empty⟩ := by
    refine ⟨Contract.admits_empty _, fun place task selected => ?_⟩
    obtain ⟨query, _, rfl⟩ := List.mem_map.mp (List.mem_of_getElem? selected)
    exact query.ask_named settings
  have kept : pool.Ensures naming fun _ _ => True := run.preserves start
  exact kept.memo

end Named

section Linked

variable {memo : Memo} {σ : Type} (transport : Transport σ) (state : σ) {text : String}

/-- News of an action, asked for or remembered, tell that its repository is given. -/
theorem Visited.named (visited : Visited settings memo) (parsed : ActionRef.parse text = .remote action)
    {sha : String}
    (news : (((remembering settings).newest (.parse text)).run transport memo state).value = some sha) :
    ∃ repo, action.repo = some repo := by
  have ensured := newest_ensures_onNews (newest_named settings) text
  have replied : ∀ url state, naming.reply url (transport url state).1 := fun _ _ => trivial
  obtain ⟨named, _⟩ := ensured.run replied visited.admits state
  exact Option.isSome_iff_exists.mp (named action parsed (by rw [news]; rfl))

/-- Asking for a link is asking for the newest commit, whatever links look like. -/
theorem run_updateUrl_of_remote (parsed : ActionRef.parse text = .remote action)
    (link : RemoteAction → String → String) :
    let registry : ActionRegistry Task := { remembering settings with commitUrl := link }
    let newest := ((remembering settings).newest (.parse text)).run transport memo state
    (registry.updateUrl (.parse text)).run transport memo state =
      { newest with
        value := newest.value.bind fun sha =>
          if sha = action.revision then none else some (link action sha) } := by
  intro registry newest
  have asked : (registry.updateUrl (.parse text)) = ((remembering settings).newest (.parse text)).bind fun sha =>
      .done (sha.bind fun sha => if sha = action.revision then none else some (link action sha)) := by
    rw [parsed]
    rfl
  rw [asked, Task.run_bind]
  simp [Task.run, newest]

theorem commitUrl_of_repo {repo : String} (given : action.repo = some repo) (webUrl sha : String) :
    commitUrl webUrl action sha =
      withoutTrailingSlashes webUrl ++ "/" ++ action.owner ++ "/" ++ repo ++ "/commit/" ++ sha := by
  simp [commitUrl, RemoteAction.repository, given, String.append_assoc]

/-- A link is made of news other than the pinned commit, and of nothing else. -/
theorem run_updateUrl_eq_some (parsed : ActionRef.parse text = .remote action) (url : String) :
    (((remembering settings).updateUrl (.parse text)).run transport memo state).value = some url ↔
      ∃ sha, (((remembering settings).newest (.parse text)).run transport memo state).value = some sha ∧
        sha ≠ action.revision ∧ commitUrl settings.webUrl action sha = url := by
  have updated : ((remembering settings).updateUrl (.parse text)).run transport memo state = _ :=
    run_updateUrl_of_remote transport state parsed (commitUrl settings.webUrl)
  rw [updated]
  simp [Option.bind_eq_some_iff]

/-- Links for actions without a repository may look like anything, since none is made. -/
theorem Visited.relinked (visited : Visited settings memo) (parsed : ActionRef.parse text = .remote action)
    {link : RemoteAction → String → String}
    (alike : ∀ sha, action.repo.isSome → link action sha = commitUrl settings.webUrl action sha) :
    let registry : ActionRegistry Task := { remembering settings with commitUrl := link }
    (registry.updateUrl (.parse text)).run transport memo state =
      ((remembering settings).updateUrl (.parse text)).run transport memo state := by
  intro registry
  let newest := ((remembering settings).newest (.parse text)).run transport memo state
  have linked : ((remembering settings).updateUrl (.parse text)).run transport memo state = _ :=
    run_updateUrl_of_remote transport state parsed (commitUrl settings.webUrl)
  have relinked : (registry.updateUrl (.parse text)).run transport memo state = _ :=
    run_updateUrl_of_remote transport state parsed link
  have same : (newest.value.bind fun sha => if sha = action.revision then none else some (link action sha)) =
      newest.value.bind fun sha =>
        if sha = action.revision then none else some (commitUrl settings.webUrl action sha) := by
    apply Option.bind_congr
    intro sha news
    have given := Option.isSome_iff_exists.mpr (visited.named transport state parsed news)
    rw [alike sha given]
  rw [linked, relinked, same]

end Linked

/-- After any earlier queries there is a link just where the newest commit is another one than the pinned
one, and asking for either makes the same requests and leaves the same memo. The link leads to this commit
in the repository of the action, which is given: links of actions without one are never made. -/
theorem updateUrl_linked (settings : Settings) {memo : Memo} (visited : Visited settings memo) {σ : Type}
    (transport : Transport σ) (state : σ) (text : String) :
    let newest := ((remembering settings).newest (.parse text)).run transport memo state
    let update := ((remembering settings).updateUrl (.parse text)).run transport memo state
    (update.value.isSome ↔ ∃ action sha, ActionRef.parse text = .remote action ∧
      newest.value = some sha ∧ sha ≠ action.revision) ∧
    (∀ url, update.value = some url → ∃ action repo sha, ActionRef.parse text = .remote action ∧
      newest.value = some sha ∧ sha ≠ action.revision ∧ action.repo = some repo ∧
      url = withoutTrailingSlashes settings.webUrl ++ "/" ++ action.owner ++ "/" ++ repo ++ "/commit/" ++ sha) ∧
    update = { newest with value := update.value } ∧
    ∀ link : RemoteAction → String → String,
      (∀ action sha, action.repo.isSome → link action sha = commitUrl settings.webUrl action sha) →
      let registry : ActionRegistry Task := { remembering settings with commitUrl := link }
      (registry.updateUrl (.parse text)).run transport memo state = update := by
  intro newest update
  cases remote : ActionRef.parse text with
  | inTree raw | unpinned raw =>
    have noLink : update = ⟨none, memo, state, []⟩ := by
      simp only [update, remote]
      rfl
    have noNews : newest = ⟨none, memo, state, []⟩ := by
      simp only [newest, remote]
      rfl
    exact ⟨by simp [noLink], by simp [noLink], by rw [noLink, noNews], fun _ _ => noLink.symm⟩
  | remote action =>
    have updated : update = _ := run_updateUrl_of_remote transport state remote (commitUrl settings.webUrl)
    have linked : ∀ url, update.value = some url ↔ ∃ sha, newest.value = some sha ∧ sha ≠ action.revision ∧
        commitUrl settings.webUrl action sha = url := run_updateUrl_eq_some transport state remote
    refine ⟨?_, ?_, by rw [updated], ?_⟩
    · rw [Option.isSome_iff_exists]
      constructor
      · rintro ⟨url, found⟩
        obtain ⟨sha, news, apart, _⟩ := (linked url).mp found
        exact ⟨action, sha, rfl, news, apart⟩
      · rintro ⟨_, sha, ⟨⟩, news, apart⟩
        exact ⟨_, (linked _).mpr ⟨sha, news, apart, rfl⟩⟩
    · intro url found
      obtain ⟨sha, news, apart, rfl⟩ := (linked url).mp found
      obtain ⟨repo, given⟩ := visited.named transport state remote news
      exact ⟨action, repo, sha, rfl, news, apart, given, commitUrl_of_repo given settings.webUrl sha⟩
    · intro link alike registry
      have same := visited.relinked transport state remote (alike action)
      rw [remote] at same
      exact same.trans (by simp only [update, remote])

theorem updateUrl_linked_history :
    let news : Transport Nat := fun _ asked => (.ok (.array [.object [("sha", .string "c")]]), asked + 1)
    let memo := (((Query.presence "bitwarden/a/b@1").ask (remembering {})).run news .empty 0).memo
    let update (text : String) := (((remembering {}).updateUrl (.parse text)).run news memo 1).value
    Visited {} memo ∧ update "bitwarden/a/b@1" = some "https://github.com/bitwarden/a/commit/c" ∧
      update "bitwarden//b@1" = none := by
  intro news memo update
  have visited : Visited {} memo := (visited_empty {}).ask (.presence "bitwarden/a/b@1") news 0
  refine ⟨visited, ?_, ?_⟩
  · let action : RemoteAction := ⟨"bitwarden/a/b@1", "bitwarden", some "a", some "b", "1"⟩
    have parsed : ActionRef.parse "bitwarden/a/b@1" = .remote action := by decide
    have newest : (((remembering {}).newest (.parse "bitwarden/a/b@1")).run news memo 1).value = some "c" := by
      decide +kernel
    obtain ⟨linked, links, _⟩ := updateUrl_linked {} visited news 1 "bitwarden/a/b@1"
    obtain ⟨url, found⟩ := Option.isSome_iff_exists.mp
      (linked.mpr ⟨action, "c", parsed, newest, by decide⟩)
    obtain ⟨_, repo, sha, parsed', newest', _, named, rfl⟩ := links url found
    cases parsed.symm.trans parsed'
    cases newest.symm.trans newest'
    cases named
    exact found
  · have parsed : ActionRef.parse "bitwarden//b@1" =
        .remote ⟨"bitwarden//b@1", "bitwarden", none, some "b", "1"⟩ := by decide
    obtain ⟨_, links, _⟩ := updateUrl_linked {} visited news 1 "bitwarden//b@1"
    apply Option.eq_none_iff_forall_ne_some.mpr
    intro url found
    obtain ⟨_, _, _, parsed', _, _, named, _⟩ := links url found
    cases parsed.symm.trans parsed'
    cases named

end WorkflowLint.Registry

import WorkflowLint.Proofs.Url.Query
import WorkflowLint.Registry.Remote

/-! The URLs at which a registry answers, and that histories are apart from all others.

Every one of them extends the path of the same base URL, by the owner and the repository of the action
first. Only the one of a history adds to the query, so that it is never the URL of a repository, a release
or a tag, of whatever action. -/

set_option autoImplicit false

namespace WorkflowLint.Registry.Settings

variable (settings : Settings) (action : RemoteAction) (url : String)

def IsHistoryUrl : Prop :=
  ∃ (action : RemoteAction) (subpath : String) (commits : Url),
    settings.endpoint action ["commits"] = some commits ∧ url = (commits.appendPair "path" subpath).text

def IsRepositoryUrl : Prop :=
  settings.repositoryUrl action = some url ∨ settings.releaseUrl action = some url ∨
    ∃ tag, settings.tagUrl action tag = some url

variable {settings action url}

theorem endpoint_eq_some {extra : List String} {extended : Url}
    (found : settings.endpoint action extra = some extended) :
    ∃ base segments, Url.parse (withoutTrailingSlashes settings.apiUrl) = some base ∧
      Url.Unmarked segments ∧ extended = { base with path := .rooted segments } := by
  simp only [endpoint, Option.bind_eq_bind, Option.bind_eq_some_iff] at found
  obtain ⟨repo, _, base, parsed, extends_⟩ := found
  obtain ⟨segments, unmarked, same⟩ := Url.extendPath_eq_some (Url.parse_unmarked parsed) extends_
  exact ⟨base, segments, parsed, unmarked, same⟩

/-- Whether there is a base to extend does not depend on what is looked for. -/
theorem endpoint_eq_none {extra : List String} (missing : settings.endpoint action extra = none)
    (other : List String) : settings.endpoint action other = none := by
  simp only [endpoint, Option.bind_eq_bind, Option.bind_eq_none_iff] at missing ⊢
  intro repo named base parsed
  have rootless := missing repo named base parsed
  unfold Url.extendPath at rootless ⊢
  split at rootless
  · rfl
  · cases rootless

/-- The segments for the owner and the repository of an action, either of which is left out if it is dots. -/
def addressed (owner repo : String) : List String :=
  (["repos", owner, repo].filter (!Url.isDots ·)).map (Url.encoded true)

/-- Reached over HTTP, a registry answers for an action below its owner and its repository. -/
theorem endpoint_shown {repo : String} {base : Url} {segments : List String}
    (parsed : Url.parse (withoutTrailingSlashes settings.apiUrl) = some base)
    (web : base.scheme = "http" ∨ base.scheme = "https") (rooted : base.path = .rooted segments)
    (named : action.repo = some repo) (ownerShown : Url.ShowsDots action.owner)
    (repoShown : Url.ShowsDots repo) {extra : List String}
    (shown : ∀ segment ∈ extra, Url.ShowsDots segment) :
    settings.endpoint action extra =
      some { base with
        path := .rooted (Url.stem segments ++
          (addressed action.owner repo ++ (extra.filter (!Url.isDots ·)).map (Url.encoded true))) } := by
  have special := Url.isSpecial_of_web web
  have noFile : base.scheme ≠ "file" := by
    intro file
    simp [file] at web
  have start : Url.isDots "repos" = false ∧ Url.encoded true "repos" ≠ "" ∧ Url.ShowsDots "repos" := by
    decide
  obtain ⟨notDots, filled, startShown⟩ := start
  have all : ∀ segment ∈ "repos" :: action.owner :: repo :: extra, Url.ShowsDots segment := by
    simp only [List.forall_mem_cons]
    exact ⟨startShown, ownerShown, repoShown, shown⟩
  rw [← special] at filled
  have extended := Url.extendPath_shown rooted noFile notDots filled all
  have pieces : "repos" :: action.owner :: repo :: extra = ["repos", action.owner, repo] ++ extra := rfl
  rw [special, pieces, List.filter_append, List.map_append] at extended
  simp only [endpoint, named, parsed, Option.bind_eq_bind, Option.bind_some, pieces, extended, addressed]

theorem historyUrl_isHistoryUrl (given : settings.historyUrl action = some url) :
    settings.IsHistoryUrl url := by
  unfold historyUrl at given
  split at given
  · simp only [Option.bind_eq_bind, Option.bind_eq_some_iff, Option.pure_def, Option.some.injEq] at given
    obtain ⟨subpath, _, commits, found, rfl⟩ := given
    exact ⟨action, subpath, commits, found, rfl⟩
  · cases given

theorem text_ne_historyUrl {extra : List String} {extended : Url}
    (found : settings.endpoint action extra = some extended) (history : settings.IsHistoryUrl url) :
    extended.text ≠ url := by
  obtain ⟨other, subpath, commits, found', rfl⟩ := history
  obtain ⟨base, segments, parsed, unmarked, rfl⟩ := endpoint_eq_some found
  obtain ⟨base', segments', parsed', unmarked', rfl⟩ := endpoint_eq_some found'
  obtain rfl := Option.some.inj (parsed.symm.trans parsed')
  obtain ⟨query, added, paired⟩ :=
    Url.appendPair_eq { base with path := .rooted segments' } "path" subpath
  rw [paired]
  exact Url.text_ne_of_query_ne unmarked unmarked' added.symm

theorem IsRepositoryUrl.not_isHistoryUrl (repository : settings.IsRepositoryUrl action url) :
    ¬settings.IsHistoryUrl url := by
  intro history
  have apart : ∀ extra, (settings.endpoint action extra).map Url.text ≠ some url := by
    intro extra same
    obtain ⟨extended, found, text⟩ := Option.map_eq_some_iff.mp same
    exact text_ne_historyUrl found history text
  rcases repository with given | given | ⟨tag, given⟩
  · exact apart _ given
  · exact apart _ given
  · exact apart _ given

end WorkflowLint.Registry.Settings

namespace WorkflowLint.Registry

variable {settings : Settings} {action : RemoteAction}

theorem Settings.endpoint_nameless (nameless : action.repo = none) (extra : List String) :
    settings.endpoint action extra = none := by
  simp [Settings.endpoint, nameless]

section Nowhere

variable (nowhere : ∀ extra, settings.endpoint action extra = none)
include nowhere

theorem Settings.historyUrl_nowhere : settings.historyUrl action = none := by
  simp [Settings.historyUrl, nowhere]

theorem Settings.releaseUrl_nowhere : settings.releaseUrl action = none := by
  simp [Settings.releaseUrl, nowhere]

theorem presence_nowhere : presence settings action = .done true := by
  simp [presence, Settings.historyUrl_nowhere nowhere, Settings.repositoryUrl, nowhere]

theorem newest_nowhere : newest settings action = .done none := by
  simp [newest, Settings.historyUrl_nowhere nowhere, Settings.releaseUrl_nowhere nowhere, Lookup.fetch]

end Nowhere

end WorkflowLint.Registry

import WorkflowLint.Proofs.Registry.Endpoint
import WorkflowLint.Proofs.Url.Decoding
import WorkflowLint.Proofs.Url.Trailing

/-! That names cannot tamper with the URLs of a registry.

Whatever signs the owner, the repository, a tag or a subpath holds, each is one piece of the URL: decoded, the
pieces behind the base path and the pair behind the base query are the very texts. So other names have other
URLs. -/

set_option autoImplicit false

namespace WorkflowLint.Registry

/-- The action has that repository, and no character in its names or in the segments behind them is one that
URLs ignore. -/
structure Names (action : RemoteAction) (repo : String) (extra : List String) : Prop where
  named : action.repo = some repo
  unbroken : ∀ segment ∈ action.owner :: repo :: extra, Url.IsUnbroken segment

def tagSegments (tag : String) : List String :=
  ["git", "ref", "tags"] ++ (Text.splitOn '/' tag.toList).map String.ofList

/-- The base path without one empty segment at its end. -/
def basePath (segments : List String) : List String :=
  if segments.getLast? = some "" then segments.dropLast else segments

/-- The URLs of a registry extend the base URL by the texts that they are built from, piece by piece. -/
structure Extends (settings : Settings) (base : Url) (start : List String) : Prop where
  endpoint {action : RemoteAction} {repo : String} {extra : List String} : Names action repo extra →
    ∃ added, settings.endpoint action extra = some { base with path := .rooted (start ++ added) } ∧
      added.map (fun segment => Url.percentDecode segment.toList) =
        (("repos" :: action.owner :: repo :: extra).filter (!Url.isDots ·)).map Url.utf8 ∧
      ∀ segment ∈ added, ∀ sign ∈ Url.segmentEnds, sign ∉ segment.toList
  tag {action : RemoteAction} {repo tag : String} : Names action repo [] → Url.IsUnbroken tag →
    Names action repo (tagSegments tag) ∧
      settings.tagUrl action tag = (settings.endpoint action (tagSegments tag)).map Url.text
  history {action : RemoteAction} {repo subpath : String} : Names action repo [] →
    action.isInternal settings.internalNamespace = true → action.subpath = some subpath →
    ∃ commits query, settings.endpoint action ["commits"] = some commits ∧
      settings.historyUrl action = some ({ commits with query := some query } : Url).text ∧
      Url.formPairs query.toList = base.queryPairs ++ [(Url.utf8 "path", Url.utf8 subpath)]
  endpoint_injective {action other : RemoteAction} {repo repo' : String} {extra extra' : List String} :
    Names action repo extra → Names other repo' extra' →
    (∀ segment ∈ action.owner :: repo :: extra, Url.isDots segment = false) →
    (∀ segment ∈ other.owner :: repo' :: extra', Url.isDots segment = false) →
    (settings.endpoint action extra).map Url.text = (settings.endpoint other extra').map Url.text →
    action.owner = other.owner ∧ repo = repo' ∧ extra = extra'
  history_injective {action other : RemoteAction} {repo repo' subpath subpath' : String} :
    Names action repo [] → Names other repo' [] →
    (∀ segment ∈ [action.owner, repo], Url.isDots segment = false) →
    (∀ segment ∈ [other.owner, repo'], Url.isDots segment = false) →
    action.isInternal settings.internalNamespace = true → other.isInternal settings.internalNamespace = true →
    action.subpath = some subpath → other.subpath = some subpath' →
    settings.historyUrl action = settings.historyUrl other →
    action.owner = other.owner ∧ repo = repo' ∧ subpath = subpath'

section Web

variable {settings : Settings} {base : Url} {segments : List String}
  (parsed : Url.parse (withoutTrailingSlashes settings.apiUrl) = some base)
  (web : base.scheme = "http" ∨ base.scheme = "https") (rooted : base.path = .rooted segments)

theorem stem_eq (segments : List String) :
    Url.stem segments = if segments = ["", ""] then [] else basePath segments := by
  unfold Url.stem Url.dropTrailingEmpty basePath
  match segments with
  | [] => rfl
  | [only] => by_cases empty : only = "" <;> simp [empty]
  | [one, two] => by_cases empty : one = "" <;> by_cases last : two = "" <;> simp [empty, last]
  | one :: two :: three :: rest =>
    by_cases last : (three :: rest).getLast? = some "" <;> simp [last]

def written (action : RemoteAction) (repo : String) (extra : List String) : List String :=
  (("repos" :: action.owner :: repo :: extra).filter (!Url.isDots ·)).map (Url.encoded true)

section Action

variable {action other : RemoteAction} {repo repo' : String} {extra extra' : List String}

theorem written_eq_cons (action : RemoteAction) (repo : String) (extra : List String) :
    ∃ rest, written action repo extra = "repos" :: rest := by
  exact ⟨_, rfl⟩

include parsed web rooted in
theorem endpoint_written (names : Names action repo extra) :
    settings.endpoint action extra =
      some { base with path := .rooted (Url.stem segments ++ written action repo extra) } := by
  obtain ⟨owner, others⟩ := List.forall_mem_cons.mp names.unbroken
  obtain ⟨named, further⟩ := List.forall_mem_cons.mp others
  have shown := Settings.endpoint_shown parsed web rooted names.named owner.showsDots named.showsDots
    fun segment member => (further segment member).showsDots
  have pieces : written action repo extra = Settings.addressed action.owner repo ++
      (extra.filter (!Url.isDots ·)).map (Url.encoded true) := by
    rw [written, Settings.addressed, ← List.map_append, ← List.filter_append]
    rfl
  rw [shown, pieces]

theorem written_decoded (names : Names action repo extra) :
    (written action repo extra).map (fun segment => Url.percentDecode segment.toList) =
      (("repos" :: action.owner :: repo :: extra).filter (!Url.isDots ·)).map Url.utf8 := by
  have unbroken : ∀ segment ∈ "repos" :: action.owner :: repo :: extra, Url.IsUnbroken segment :=
    List.forall_mem_cons.mpr ⟨by decide +kernel, names.unbroken⟩
  rw [written, List.map_map, List.map_congr_left]
  intro segment member
  rw [Function.comp_apply, Url.percentDecode_encoded (unbroken segment (List.mem_of_mem_filter member))]

theorem sign_notMem_written {segment : String} (member : segment ∈ written action repo extra) {sign : Char}
    (ends : sign ∈ Url.segmentEnds) : sign ∉ segment.toList := by
  obtain ⟨given, _, rfl⟩ := List.mem_map.mp member
  exact Url.notMem_encoded ends given

/-- Names without dots can be told from how they are written. -/
theorem written_injective (names : Names action repo extra) (other_names : Names other repo' extra')
    (solid : ∀ segment ∈ action.owner :: repo :: extra, Url.isDots segment = false)
    (other_solid : ∀ segment ∈ other.owner :: repo' :: extra', Url.isDots segment = false)
    (same : written action repo extra = written other repo' extra') :
    action.owner = other.owner ∧ repo = repo' ∧ extra = extra' := by
  have decoded := written_decoded names
  rw [same, written_decoded other_names] at decoded
  -- Without dots no segment is left out, so all that was decoded are the names.
  have kept : ∀ {owner name : String} {more : List String},
      (∀ segment ∈ owner :: name :: more, Url.isDots segment = false) →
        ("repos" :: owner :: name :: more).filter (!Url.isDots ·) = "repos" :: owner :: name :: more := by
    intro owner name more solid
    refine List.filter_eq_self.mpr fun segment member => ?_
    rcases List.mem_cons.mp member with rfl | given
    · decide
    · simp [solid segment given]
  rw [kept solid, kept other_solid] at decoded
  have segments := List.map_injective_iff.mpr Url.utf8_injective decoded
  simp only [List.cons.injEq, true_and] at segments
  exact ⟨segments.1.symm, segments.2.1.symm, segments.2.2.symm⟩

include parsed web rooted in
theorem unmarked_written (names : Names action repo extra) :
    Url.Unmarked (Url.stem segments ++ written action repo extra) := by
  obtain ⟨_, shown, _, unmarked, same⟩ := Settings.endpoint_eq_some (endpoint_written parsed web rooted names)
  cases congrArg Url.path same
  exact unmarked

include parsed web rooted in
theorem written_of_text (names : Names action repo extra) (other_names : Names other repo' extra')
    {query query' : Option String}
    (same : ({ base with path := .rooted (Url.stem segments ++ written action repo extra), query := query } : Url).text =
      ({ base with path := .rooted (Url.stem segments ++ written other repo' extra'), query := query' } : Url).text) :
    query = query' ∧ written action repo extra = written other repo' extra' := by
  have unmarked := unmarked_written parsed web rooted names
  have unmarked' := unmarked_written parsed web rooted other_names
  have free : ∀ {action : RemoteAction} {repo : String} {extra : List String},
      ∀ segment ∈ written action repo extra, '/' ∉ segment.toList :=
    fun segment member => sign_notMem_written member (by decide)
  obtain ⟨rest, opened⟩ := written_eq_cons action repo extra
  obtain ⟨rest', opened'⟩ := written_eq_cons other repo' extra'
  rw [opened] at same unmarked ⊢
  rw [opened'] at same unmarked' ⊢
  have parts := Url.parts_of_text (by decide) unmarked unmarked' (opened ▸ free) (opened' ▸ free) same
  exact ⟨parts.1, congrArg ("repos" :: ·) parts.2⟩

end Action

theorem Names.commits {action : RemoteAction} {repo : String} (names : Names action repo []) :
    Names action repo ["commits"] := by
  obtain ⟨owner, others⟩ := List.forall_mem_cons.mp names.unbroken
  obtain ⟨named, _⟩ := List.forall_mem_cons.mp others
  exact ⟨names.named, List.forall_mem_cons.mpr ⟨owner, List.forall_mem_cons.mpr ⟨named, by decide⟩⟩⟩

theorem Names.tag {action : RemoteAction} {repo tag : String} (names : Names action repo [])
    (unbroken : Url.IsUnbroken tag) : Names action repo (tagSegments tag) := by
  obtain ⟨owner, others⟩ := List.forall_mem_cons.mp names.unbroken
  obtain ⟨named, _⟩ := List.forall_mem_cons.mp others
  have pieces : ∀ segment ∈ (Text.splitOn '/' tag.toList).map String.ofList, Url.IsUnbroken segment := by
    intro segment member c inSegment
    obtain ⟨piece, cut, rfl⟩ := List.mem_map.mp member
    rw [String.toList_ofList] at inSegment
    exact unbroken c (Text.mem_of_mem_splitOn cut c inSegment)
  refine ⟨names.named, List.forall_mem_cons.mpr ⟨owner, List.forall_mem_cons.mpr ⟨named, ?_⟩⟩⟩
  exact List.forall_mem_append.mpr ⟨by decide, pieces⟩

include parsed web rooted in
theorem historyUrl_written {action : RemoteAction} {repo subpath : String} (names : Names action repo [])
    (internal : action.isInternal settings.internalNamespace = true) (below : action.subpath = some subpath) :
    ∃ query, settings.historyUrl action = some ({ base with
        path := .rooted (Url.stem segments ++ written action repo ["commits"]), query := some query } : Url).text ∧
      Url.formPairs query.toList = base.queryPairs ++ [(Url.utf8 "path", Url.utf8 subpath)] := by
  have commits := endpoint_written parsed web rooted names.commits
  obtain ⟨query, appended, pairs⟩ := Url.appendPair_eq_some
    { base with path := .rooted (Url.stem segments ++ written action repo ["commits"]) } "path" subpath
  refine ⟨query, ?_, pairs⟩
  simp [Settings.historyUrl, internal, below, commits, appended]

include parsed web rooted in
theorem extends_base : Extends settings base (Url.stem segments) where
  endpoint {action repo extra} names :=
    ⟨written action repo extra, endpoint_written parsed web rooted names, written_decoded names,
      fun _ member _ ends => sign_notMem_written member ends⟩
  tag names unbroken := ⟨names.tag unbroken, rfl⟩
  history names internal below := by
    have commits := endpoint_written parsed web rooted names.commits
    obtain ⟨query, shown, pairs⟩ := historyUrl_written parsed web rooted names internal below
    exact ⟨_, query, commits, shown, pairs⟩
  endpoint_injective names other_names solid other_solid same := by
    rw [endpoint_written parsed web rooted names, endpoint_written parsed web rooted other_names] at same
    obtain ⟨-, parts⟩ := written_of_text parsed web rooted names other_names (Option.some.inj same)
    exact written_injective names other_names solid other_solid parts
  history_injective {action other repo repo' _ _} names other_names solid other_solid internal other_internal below
      other_below same := by
    have commits : ∀ {owner name : String}, (∀ segment ∈ [owner, name], Url.isDots segment = false) →
        ∀ segment ∈ [owner, name, "commits"], Url.isDots segment = false := by
      intro owner name solid
      have further : Url.isDots "commits" = false := by decide
      simpa [further] using solid
    obtain ⟨query, shown, pairs⟩ := historyUrl_written parsed web rooted names internal below
    obtain ⟨query', shown', pairs'⟩ := historyUrl_written parsed web rooted other_names other_internal other_below
    rw [shown, shown'] at same
    obtain ⟨queries, parts⟩ :=
      written_of_text parsed web rooted names.commits other_names.commits (Option.some.inj same)
    obtain ⟨owners, repos, -⟩ := written_injective names.commits other_names.commits (commits solid)
      (commits other_solid) parts
    -- Of the same pairs the last ones are the same, and the subpath is its value.
    rw [Option.some.inj queries, pairs', List.append_cancel_left_eq] at pairs
    have values := congrArg Prod.snd (List.cons.inj pairs).1
    exact ⟨owners, repos, (Url.utf8_injective values).symm⟩

end Web

/-- Whatever the names hold, the URLs of a registry have the authority of the base URL, and extend its path
and its query by these names alone. Of the base path, an empty segment at its end does not stay; where the
path is two slashes, neither of its segments does. -/
theorem urls_extend {settings : Settings} {given : Url} (parsed : Url.parse settings.apiUrl = some given)
    (web : given.scheme = "http" ∨ given.scheme = "https") :
    ∃ base segments, Url.parse (withoutTrailingSlashes settings.apiUrl) = some base ∧
      (base.scheme = given.scheme ∧ base.username = given.username ∧ base.password = given.password ∧
        base.host = given.host ∧ base.port = given.port) ∧
      base.path = .rooted segments ∧
      Extends settings base (if segments = ["", ""] then [] else basePath segments) := by
  obtain ⟨base, read, scheme, authority⟩ := Url.parse_dropTrailing parsed web
  have base_web : base.scheme = "http" ∨ base.scheme = "https" := scheme ▸ web
  obtain ⟨segments, rooted⟩ := Url.parse_rooted read (Url.isSpecial_of_web base_web)
  exact ⟨base, segments, read, ⟨scheme, authority⟩, rooted, stem_eq segments ▸ extends_base read base_web rooted⟩

def tampering : RemoteAction := ⟨"a/b?c#d/../%2e@1", "a/b?c#d", some "../%2e", none, "1"⟩

theorem urls_extend_tampering :
    let settings : Settings := { apiUrl := "https://u:p@h:8/api/?k=v#f" }
    ∃ base segments, Url.parse (withoutTrailingSlashes settings.apiUrl) = some base ∧
      base.path = .rooted segments ∧ basePath segments = ["api"] ∧ Names tampering "../%2e" [] ∧
      (settings.endpoint tampering []).map Url.text =
        some "https://u:p@h:8/api/repos/a%2Fb%3Fc%23d/..%2F%252e?k=v#f" ∧
      Extends settings base (if segments = ["", ""] then [] else basePath segments) := by
  intro settings
  let given : Url := ⟨"https", "u", "p", some (.name "h"), some 8, .rooted ["api", ""], some "k=v", some "f"⟩
  have kept : withoutTrailingSlashes settings.apiUrl = settings.apiUrl := by decide +kernel
  have shortened : Url.parse (withoutTrailingSlashes settings.apiUrl) = some given := by decide +kernel
  have parsed : Url.parse settings.apiUrl = some given := (congrArg Url.parse kept).symm.trans shortened
  have text : (settings.endpoint tampering []).map Url.text =
      some "https://u:p@h:8/api/repos/a%2Fb%3Fc%23d/..%2F%252e?k=v#f" := by decide +kernel
  obtain ⟨base, segments, read, -, rooted, extends_⟩ := urls_extend parsed (.inr rfl)
  have same : base = given := Option.some.inj (read.symm.trans shortened)
  have parts : segments = ["api", ""] := by
    rw [same] at rooted
    exact (Url.Path.rooted.inj rooted).symm
  have start : basePath segments = ["api"] := by
    rw [parts]
    decide
  exact ⟨base, segments, read, rooted, start, ⟨rfl, by decide +kernel⟩, text, extends_⟩

/-- Of a base path of two slashes nothing stays, so that the names come behind one slash. -/
theorem basePath_lost :
    let settings : Settings := { apiUrl := "http://h//?x=1" }
    let action : RemoteAction := ⟨"o/r@1", "o", some "r", none, "1"⟩
    ∃ base, Url.parse (withoutTrailingSlashes settings.apiUrl) = some base ∧ base.path = .rooted ["", ""] ∧
      settings.endpoint action [] = some { base with path := .rooted ["repos", "o", "r"] } ∧
      ∀ added, Url.Path.rooted ["repos", "o", "r"] ≠ .rooted (basePath ["", ""] ++ added) := by
  intro settings action
  let base : Url := ⟨"http", "", "", some (.name "h"), none, .rooted ["", ""], some "x=1", none⟩
  have parsed : Url.parse (withoutTrailingSlashes settings.apiUrl) = some base := by decide +kernel
  have names : Names action "r" [] := ⟨rfl, by decide +kernel⟩
  have shown := endpoint_written parsed (.inl rfl) rfl names
  have pieces : Url.stem ["", ""] ++ written action "r" [] = ["repos", "o", "r"] := by decide +kernel
  refine ⟨base, parsed, rfl, pieces ▸ shown, fun added same => ?_⟩
  have first : "repos" = "" := (List.cons.inj (Url.Path.rooted.inj same)).1
  exact absurd first (by decide)

end WorkflowLint.Registry

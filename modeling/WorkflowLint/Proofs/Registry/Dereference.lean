import WorkflowLint.Proofs.Registry.Chain

/-! Where the newest commit of an action comes from that is not known by its history.

The tag of the latest release points at an object. One that is said to be a commit is the answer; of any
other the object behind it is, and that one is not asked what it is. So a tag that points at a commit is
followed to it, and a tag that points at another tag ends at that one. -/

set_option autoImplicit false

namespace WorkflowLint.Registry

variable {α : Type} {settings : Settings} {replies : String → Reply → Prop}

section Explained

/-- Some exchanges in which each request gets one of its replies take the lookup to that value. -/
def Lookup.Yields (replies : String → Reply → Prop) (lookup : Lookup α) (value : α) : Prop :=
  ∃ log, (∀ exchange ∈ log, replies exchange.1 exchange.2) ∧ lookup.Exchanged log value

/-- Every entry about news is what a lookup of its reference yields. -/
def explaining (settings : Settings) (replies : String → Reply → Prop) : Contract where
  asks _ := True
  reply := replies
  presence _ _ := True
  newest raw sha := ∀ action, ActionRef.parse raw = .remote action →
    (newest settings action).Yields replies sha

theorem ofLookup_yields (lookup : Lookup α) :
    (Task.ofLookup lookup).Ensures (explaining settings replies) (lookup.Yields replies) := by
  induction lookup with
  | done value => exact ⟨[], nofun, .done⟩
  | ask url next ih =>
    refine ⟨trivial, fun reply replied => (ih reply).mono ?_⟩
    rintro value ⟨log, allowed, exchanged⟩
    exact ⟨(url, reply) :: log, List.forall_mem_cons.mpr ⟨replied, allowed⟩, .ask exchanged⟩

def Explained (settings : Settings) (replies : String → Reply → Prop) : Query × Answer → Prop
  | (.newest text, .newest sha) =>
    ∀ action, ActionRef.parse text = .remote action → (newest settings action).Yields replies sha
  | _ => True

theorem Query.ask_explained (query : Query) :
    (query.ask (remembering settings)).Ensures (explaining settings replies) fun answer =>
      Explained settings replies (query, answer) := by
  have news (text : String) : ((remembering settings).newest (.parse text)).Ensures
      (explaining settings replies) fun sha => Explained settings replies (.newest text, .newest sha) :=
    newest_ensures_onNews (fun _ => ofLookup_yields _) text
  cases query with
  | presence text => exact Task.ensures_bind (isPresent_ensures_onNews _) fun _ _ => trivial
  | newest text => exact Task.ensures_bind (news text) fun _ explained => explained
  | update text => exact Task.ensures_bind (updateUrl_ensures (news text)) fun _ _ => trivial

theorem Worker.task_explained (worker : Worker) :
    (worker.task settings).Ensures (explaining settings replies) fun answered =>
      ∀ exchange ∈ answered, Explained settings replies exchange := by
  induction worker with
  | rest => exact nofun
  | ask query next ih =>
    refine Task.ensures_bind (query.ask_explained) fun answer explained => ?_
    refine Task.ensures_bind (ih answer) fun others answered => ?_
    exact List.forall_mem_cons.mpr ⟨explained, answered⟩

end Explained

section Dereferenced

variable {action : RemoteAction} {reference : Reply} {log : List (String × Reply)} {value : Option String}
  {sha : String} {answer : String → Reply} {tags : List String} {commit : String}

/-- The hash is that of a commit, or of the object behind the one that the tag points at. -/
def Sourced (replies : String → Reply → Prop) (reference : Reply) (sha : String) : Prop :=
  told (objectText "type") reference = some "commit" ∧ told (objectText "sha") reference = some sha ∨
    told (objectText "type") reference ≠ some "commit" ∧ ∃ url followed,
      told (objectText "url") reference = some url ∧ replies url followed ∧
        told (objectText "sha") followed = some sha

/-- The hashes of the tags between a reply about a tag and the commit that it leads to in the end. -/
inductive Leads (answer : String → Reply) : Reply → List String → String → Prop where
  | commit {reply : Reply} {sha : String} : told (objectText "type") reply = some "commit" →
      told (objectText "sha") reply = some sha → Leads answer reply [] sha
  | tag {reply : Reply} {sha url commit : String} {tags : List String} :
      told (objectText "type") reply ≠ some "commit" → told (objectText "sha") reply = some sha →
      told (objectText "url") reply = some url → Leads answer (answer url) tags commit →
      Leads answer reply (sha :: tags) commit

theorem Leads.told_sha (leads : Leads answer reference tags commit) :
    told (objectText "sha") reference = some (tags.headD commit) := by
  cases leads with
  | commit _ named => exact named
  | tag _ named => exact named

theorem Dereferenced.sourced (dereferenced : Dereferenced reference log value)
    (replied : ∀ exchange ∈ log, replies exchange.1 exchange.2) (found : value = some sha) :
    Sourced replies reference sha := by
  cases dereferenced with
  | commit commit => exact .inl ⟨commit, found⟩
  | unaddressed => cases found
  | @annotated url followed other addressed =>
    exact .inr ⟨other, url, followed, addressed, replied (url, followed) (.head _), found⟩

-- One tag object is followed. What comes behind it is not looked at again, so the rest of the way only
-- matters by its first hash.
theorem Dereferenced.of_leads (dereferenced : Dereferenced reference log value)
    (replied : ∀ exchange ∈ log, exchange.2 = answer exchange.1)
    (leads : Leads answer reference tags commit) : value = some (tags.tail.headD commit) := by
  cases dereferenced with
  | commit kind =>
    cases leads with
    | commit _ named => exact named
    | tag other => exact absurd kind other
  | unaddressed other missing =>
    cases leads with
    | commit kind => exact absurd kind other
    | tag _ _ addressed => cases missing.symm.trans addressed
  | @annotated url followed other addressed =>
    cases leads with
    | commit kind => exact absurd kind other
    | tag _ _ addressed' rest =>
      cases addressed.symm.trans addressed'
      have answered : followed = answer url := replied (url, followed) (.head _)
      rw [answered]
      exact rest.told_sha

/-- Without a history, news come by the tag of the latest release. -/
theorem Chain.sourced (chain : Chain settings action log value) (other : settings.historyUrl action = none)
    (replied : ∀ exchange ∈ log, replies exchange.1 exchange.2) (found : value = some sha) :
    ∃ tag tagged reference, settings.tagUrl action tag = some tagged ∧ replies tagged reference ∧
      Sourced replies reference sha := by
  cases chain with
  | history history => cases other.symm.trans history
  | unaddressed | unreleased => cases found
  | released _ _ _ tagUrl dereferenced =>
    obtain ⟨_, others⟩ := List.forall_mem_cons.mp replied
    obtain ⟨about, behind⟩ := List.forall_mem_cons.mp others
    exact ⟨_, _, _, tagUrl, about, dereferenced.sourced behind found⟩

theorem Chain.of_leads (chain : Chain settings action log value) (other : settings.historyUrl action = none)
    (replied : ∀ exchange ∈ log, exchange.2 = answer exchange.1) {release tag tagged : String}
    (releaseUrl : settings.releaseUrl action = some release)
    (named : told (textAt? "tag_name") (answer release) = some tag)
    (tagUrl : settings.tagUrl action tag = some tagged)
    (leads : Leads answer (answer tagged) tags commit) : value = some (tags.tail.headD commit) := by
  cases chain with
  | history history => cases other.symm.trans history
  | unaddressed _ missing => cases missing.symm.trans releaseUrl
  | @unreleased release' latest _ released missing =>
    cases releaseUrl.symm.trans released
    obtain rfl : latest = answer release := replied (release, latest) (.head _)
    cases missing.symm.trans named
  | @released release' tag' tagged' latest reference rest _ _ released named' tagUrl' dereferenced =>
    cases releaseUrl.symm.trans released
    obtain ⟨first, others⟩ := List.forall_mem_cons.mp replied
    obtain ⟨second, behind⟩ := List.forall_mem_cons.mp others
    obtain rfl : latest = answer release := first
    cases named.symm.trans named'
    cases tagUrl.symm.trans tagUrl'
    obtain rfl : reference = answer tagged := second
    exact dereferenced.of_leads behind leads

end Dereferenced

section Served

def pointing (kind sha url : String) : Reply :=
  .ok (.object [("object", .object [("type", .string kind), ("sha", .string sha), ("url", .string url)])])

def gitUrl (path : String) : String := "https://api.github.com/repos/o/r/git/" ++ path

def serving (objects : List (String × Reply)) (url : String) : Reply :=
  if url = "https://api.github.com/repos/o/r/releases/latest" then .ok (.object [("tag_name", .string "v1")])
  else ((objects.map fun (path, reply) => (gitUrl path, reply)).lookup url).getD (.error .notFound)

theorem serving_objectText {objects : List (String × Reply)} {url name text : String}
    (found : told (objectText name) (serving objects url) = some text) :
    ∃ object ∈ objects, serving objects url = object.2 := by
  unfold serving at found ⊢
  split at found
  · cases found
  next elsewhere =>
    rw [if_neg elsewhere]
    cases known : (objects.map fun (path, reply) => (gitUrl path, reply)).lookup url with
    | none =>
      rw [known] at found
      cases found
    | some reply =>
      obtain ⟨before, after, split, _⟩ := List.lookup_eq_some_iff.mp known
      have member : (url, reply) ∈ objects.map fun (path, reply) => (gitUrl path, reply) := by simp [split]
      obtain ⟨object, listed, same⟩ := List.mem_map.mp member
      exact ⟨object, listed, (congrArg Prod.snd same).symm⟩

def oneTag : List (String × Reply) :=
  [("ref/tags/v1", pointing "tag" "outer" (gitUrl "tags/outer")),
    ("tags/outer", pointing "commit" "c" (gitUrl "commits/c"))]

def twoTags : List (String × Reply) :=
  [("ref/tags/v1", pointing "tag" "outer" (gitUrl "tags/outer")),
    ("tags/outer", pointing "tag" "inner" (gitUrl "tags/inner")),
    ("tags/inner", pointing "commit" "c" (gitUrl "commits/c"))]

end Served

/-- What workers that share a memo are told to be the newest commit of an action without history, in every
schedule. It is the object of the release's tag, if that is a commit, or else the object behind it, which
may be anything. Where every URL has one answer and the tag leads to a commit in the end, it is this commit
only if there is at most one tag object before it, and the second tag object otherwise. -/
theorem newest_dereferenced (settings : Settings) (workers : List Worker) (replies : String → Reply → Prop)
    {pool : Pool (List (Query × Answer))} {values : List (List (Query × Answer))}
    (schedule : Pool.Runs replies ⟨workers.map (Worker.task settings), .empty⟩ pool)
    (finished : pool.Finished values) {answered : List (Query × Answer)} (member : answered ∈ values)
    {text : String} {action : RemoteAction} {value : Option String}
    (asked : (.newest text, .newest value) ∈ answered) (parsed : ActionRef.parse text = .remote action)
    (other : settings.historyUrl action = none) :
    (∀ sha, value = some sha → ∃ tag tagged reference, settings.tagUrl action tag = some tagged ∧
      replies tagged reference ∧ Sourced replies reference sha) ∧
    ∀ (answer : String → Reply) (release tag tagged : String) (tags : List String) (commit : String),
      (∀ url reply, replies url reply → reply = answer url) → settings.releaseUrl action = some release →
      told (textAt? "tag_name") (answer release) = some tag → settings.tagUrl action tag = some tagged →
      Leads answer (answer tagged) tags commit → value = some (tags.tail.headD commit) := by
  -- The memo starts empty, so from the start on all that is kept or answered is what some lookup yields.
  have start : Pool.Ensures (explaining settings replies)
      (fun _ answered => ∀ exchange ∈ answered, Explained settings replies exchange)
      ⟨workers.map (Worker.task settings), .empty⟩ := by
    refine ⟨Contract.admits_empty _, fun place task selected => ?_⟩
    obtain ⟨worker, _, rfl⟩ := List.mem_map.mp (List.mem_of_getElem? selected)
    exact worker.task_explained
  have run : Pool.Runs (explaining settings replies).reply ⟨workers.map (Worker.task settings), .empty⟩ pool :=
    schedule
  obtain ⟨place, selected⟩ := List.mem_iff_getElem?.mp member
  have explained := (run.values start finished).2 place answered selected _ asked
  obtain ⟨log, replied, exchanged⟩ := explained action parsed
  have chain := chain_of_exchanged exchanged
  refine ⟨fun sha found => chain.sourced other replied found, ?_⟩
  intro answer release tag tagged tags commit functional releaseUrl named tagUrl leads
  have answers : ∀ exchange ∈ log, exchange.2 = answer exchange.1 :=
    fun exchange member => functional _ _ (replied exchange member)
  exact chain.of_leads other answers releaseUrl named tagUrl leads

theorem newest_dereferenced_oneTag :
    let worker : Worker := .ask (.newest "o/r@1") fun _ => .rest
    let replies : String → Reply → Prop := fun url reply => reply = serving oneTag url
    let value : Option String := some "c"
    ∃ pool, Pool.Runs replies ⟨[worker].map (Worker.task {}), .empty⟩ pool ∧
      pool.Finished [[(.newest "o/r@1", .newest value)]] ∧
      (∃ reference, Sourced replies reference "c") ∧
      Leads (serving oneTag) (serving oneTag (gitUrl "ref/tags/v1")) ["outer"] "c" ∧
      value = some (["outer"].tail.headD "c") := by
  intro worker replies value
  let action : RemoteAction := ⟨"o/r@1", "o", some "r", none, "1"⟩
  have parsed : ActionRef.parse "o/r@1" = .remote action := by decide +kernel
  have other : Settings.historyUrl {} action = none := by decide +kernel
  have tagUrl : Settings.tagUrl {} action "v1" = some (gitUrl "ref/tags/v1") := by decide +kernel
  have released : Settings.releaseUrl {} action =
      some "https://api.github.com/repos/o/r/releases/latest" := by decide +kernel
  have leads : Leads (serving oneTag) (serving oneTag (gitUrl "ref/tags/v1")) ["outer"] "c" := by
    have last : Leads (serving oneTag) (serving oneTag (gitUrl "tags/outer")) [] "c" :=
      .commit (by decide +kernel) (by decide +kernel)
    exact .tag (by decide +kernel) (by decide +kernel) (by decide +kernel) last
  have replied : ∀ (url : String) (state : Unit), replies url (Transport.fixed (serving oneTag) url state).1 :=
    fun _ _ => rfl
  obtain ⟨pool, schedule, finished⟩ :=
    Pool.runs_inOrder replied ([worker].map (Worker.task {})) .empty ()
  have ran : ((Task.inOrder ([worker].map (Worker.task {}))).run (Transport.fixed (serving oneTag)) .empty
      ()).value = [[(.newest "o/r@1", .newest value)]] := by decide +kernel
  rw [ran] at finished
  obtain ⟨sourced, followed⟩ := newest_dereferenced {} [worker] replies schedule finished (.head _)
    (.head _) parsed other
  obtain ⟨_, _, reference, _, _, sourced⟩ := sourced "c" rfl
  exact ⟨pool, schedule, finished, ⟨reference, sourced⟩, leads,
    followed (serving oneTag) _ "v1" _ ["outer"] "c" (fun _ _ => id) released (by decide +kernel) tagUrl leads⟩

/-- Of two tag objects before a commit, the second is taken for it. No reply calls that one a commit. -/
theorem newest_misses_commit :
    let action : RemoteAction := ⟨"o/r@1", "o", some "r", none, "1"⟩
    ActionRef.parse "o/r@1" = .remote action ∧ Settings.historyUrl {} action = none ∧
    (((remembering {}).newest (.remote action)).run (Transport.fixed (serving twoTags)) .empty ()).value =
      some "inner" ∧
    Settings.tagUrl {} action "v1" = some (gitUrl "ref/tags/v1") ∧
    Leads (serving twoTags) (serving twoTags (gitUrl "ref/tags/v1")) ["outer", "inner"] "c" ∧
    ¬∃ url, told (objectText "type") (serving twoTags url) = some "commit" ∧
      told (objectText "sha") (serving twoTags url) = some "inner" := by
  intro action
  have inner : Leads (serving twoTags) (serving twoTags (gitUrl "tags/outer")) ["inner"] "c" := by
    have last : Leads (serving twoTags) (serving twoTags (gitUrl "tags/inner")) [] "c" :=
      .commit (by decide +kernel) (by decide +kernel)
    exact .tag (by decide +kernel) (by decide +kernel) (by decide +kernel) last
  have outer : Leads (serving twoTags) (serving twoTags (gitUrl "ref/tags/v1")) ["outer", "inner"] "c" :=
    .tag (by decide +kernel) (by decide +kernel) (by decide +kernel) inner
  refine ⟨by decide +kernel, by decide +kernel, by decide +kernel, by decide +kernel, outer, ?_⟩
  rintro ⟨url, kind, named⟩
  have apart : ∀ object ∈ twoTags, told (objectText "type") object.2 = some "commit" →
      told (objectText "sha") object.2 ≠ some "inner" := by decide +kernel
  obtain ⟨object, listed, same⟩ := serving_objectText kind
  rw [same] at kind named
  exact apart object listed kind named

end WorkflowLint.Registry

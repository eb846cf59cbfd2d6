import WorkflowLint.Proofs.Path.Components
import WorkflowLint.Proofs.Registry.Endpoint
import WorkflowLint.Proofs.Registry.Overlap
import WorkflowLint.Proofs.Unreachable

/-! The requests that lead to the newest commit of an action.

An internal action takes one request, for its history. Any other takes up to three, each for what the
reply before it names: the latest release, the tag of that release, and what the tag points at unless it
is said to be a commit. A reply that fails, or that does not name what is needed, ends the chain. -/

set_option autoImplicit false

namespace WorkflowLint.Registry

variable {α σ : Type}

namespace Lookup

def exchanges (transport : Transport σ) : Lookup α → σ → List (String × Reply)
  | .done _, _ => []
  | .ask url next, state =>
    let (reply, state) := transport url state
    (url, reply) :: exchanges transport (next reply) state

/-- These exchanges, one after the other, take the lookup to its value. -/
inductive Exchanged : Lookup α → List (String × Reply) → α → Prop where
  | done {value : α} : Exchanged (.done value) [] value
  | ask {url : String} {next : Reply → Lookup α} {reply : Reply} {rest : List (String × Reply)} {value : α} :
      Exchanged (next reply) rest value → Exchanged (.ask url next) ((url, reply) :: rest) value

theorem exchanged_run (transport : Transport σ) (lookup : Lookup α) (state : σ) :
    lookup.Exchanged (lookup.exchanges transport state) (lookup.run transport state).1 := by
  induction lookup generalizing state with
  | done value => exact .done
  | ask url next ih => exact .ask (ih _ _)

theorem asked_eq (transport : Transport σ) (lookup : Lookup α) (state : σ) :
    (lookup.run transport state).2.2 = (lookup.exchanges transport state).map Prod.fst := by
  induction lookup generalizing state with
  | done value => rfl
  | ask url next ih => exact congrArg (url :: ·) (ih _ _)

theorem exchanged_done {log : List (String × Reply)} {value result : α}
    (exchanged : (Lookup.done value).Exchanged log result) : log = [] ∧ result = value := by
  cases exchanged
  exact ⟨rfl, rfl⟩

/-- A lookup that starts with a request goes on with the document in the reply, if there is one. -/
theorem exchanged_fetch {url : String} {next : Json → Lookup (Option α)} {log : List (String × Reply)}
    {value : Option α} (exchanged : (fetch (some url) next).Exchanged log value) :
    (∃ failure, log = [(url, .error failure)] ∧ value = none) ∨
    ∃ json rest, log = (url, .ok json) :: rest ∧ (next json).Exchanged rest value := by
  rcases exchanged with _ | @⟨_, _, reply, rest, _, others⟩
  cases reply with
  | ok json => exact .inr ⟨json, rest, rfl, others⟩
  | error failure =>
    obtain ⟨rfl, rfl⟩ := exchanged_done others
    exact .inl ⟨failure, rfl, rfl⟩

end Lookup

/-- What a reply tells, where it succeeds. -/
def told (read : Json → Option String) : Reply → Option String
  | .ok json => read json
  | .error _ => none

def objectText (name : String) (json : Json) : Option String :=
  (json.member? "object").bind (textAt? name)

/-- The exchanges behind the reply about a tag, with the hash that they end in: the object's own where it
is said to be a commit, or else the one that its URL leads to. -/
inductive Dereferenced (reference : Reply) : List (String × Reply) → Option String → Prop where
  | commit : told (objectText "type") reference = some "commit" →
      Dereferenced reference [] (told (objectText "sha") reference)
  | unaddressed : told (objectText "type") reference ≠ some "commit" →
      told (objectText "url") reference = none → Dereferenced reference [] none
  | annotated {url : String} {followed : Reply} : told (objectText "type") reference ≠ some "commit" →
      told (objectText "url") reference = some url →
      Dereferenced reference [(url, followed)] (told (objectText "sha") followed)

/-- The exchanges that lead to the newest commit of an action, or break off without one. -/
inductive Chain (settings : Settings) (action : RemoteAction) :
    List (String × Reply) → Option String → Prop where
  | unaddressed : settings.historyUrl action = none → settings.releaseUrl action = none →
      Chain settings action [] none
  | history {url : String} {commits : Reply} : settings.historyUrl action = some url →
      Chain settings action [(url, commits)] (newestOf commits)
  | unreleased {release : String} {latest : Reply} : settings.historyUrl action = none →
      settings.releaseUrl action = some release → told (textAt? "tag_name") latest = none →
      Chain settings action [(release, latest)] none
  | released {release tag tagged : String} {latest reference : Reply} {rest : List (String × Reply)}
      {value : Option String} : settings.historyUrl action = none →
      settings.releaseUrl action = some release → told (textAt? "tag_name") latest = some tag →
      settings.tagUrl action tag = some tagged → Dereferenced reference rest value →
      Chain settings action ((release, latest) :: (tagged, reference) :: rest) value

section Exchanged

variable {settings : Settings} {action : RemoteAction} {log : List (String × Reply)} {value : Option String}

theorem dereferenced_commitOfTag {reference : Json} (exchanged : (commitOfTag reference).Exchanged log value) :
    Dereferenced (.ok reference) log value := by
  unfold commitOfTag at exchanged
  cases pointing : reference.member? "object" with
  | none =>
    rw [pointing] at exchanged
    obtain ⟨rfl, rfl⟩ := Lookup.exchanged_done exchanged
    exact .unaddressed (by simp [told, objectText, pointing]) (by simp [told, objectText, pointing])
  | some object =>
    -- All texts that are asked of the reply are those of this object.
    have texts : ∀ name, told (objectText name) (.ok reference) = textAt? name object := fun name => by
      simp [told, objectText, pointing]
    rw [pointing] at exchanged
    dsimp only at exchanged
    split at exchanged
    next commit =>
      obtain ⟨rfl, rfl⟩ := Lookup.exchanged_done exchanged
      rw [← texts]
      exact .commit ((texts "type").trans commit)
    next other =>
      have noCommit := (texts "type").trans_ne other
      cases addressed : textAt? "url" object with
      | none =>
        rw [addressed] at exchanged
        obtain ⟨rfl, rfl⟩ := Lookup.exchanged_done exchanged
        exact .unaddressed noCommit ((texts "url").trans addressed)
      | some url =>
        rw [addressed] at exchanged
        have found := (texts "url").trans addressed
        obtain ⟨failure, rfl, rfl⟩ | ⟨tag, rest, rfl, others⟩ := Lookup.exchanged_fetch exchanged
        · exact .annotated noCommit found
        · obtain ⟨rfl, rfl⟩ := Lookup.exchanged_done others
          exact .annotated noCommit found

theorem dereferenced_tag {tagged : String}
    (exchanged : (Lookup.fetch (some tagged) commitOfTag).Exchanged log value) :
    ∃ reference rest, log = (tagged, reference) :: rest ∧ Dereferenced reference rest value := by
  obtain ⟨failure, rfl, rfl⟩ | ⟨reference, rest, rfl, others⟩ := Lookup.exchanged_fetch exchanged
  · exact ⟨.error failure, [], rfl, .unaddressed nofun rfl⟩
  · exact ⟨.ok reference, rest, rfl, dereferenced_commitOfTag others⟩

theorem tagUrl_isSome {release : String} (released : settings.releaseUrl action = some release) (tag : String) :
    ∃ tagged, settings.tagUrl action tag = some tagged := by
  rw [← Option.ne_none_iff_exists']
  intro missing
  have without := Settings.endpoint_eq_none (Option.map_eq_none_iff.mp missing) ["releases", "latest"]
  simp [Settings.releaseUrl, without] at released

theorem chain_of_exchanged (exchanged : (newest settings action).Exchanged log value) :
    Chain settings action log value := by
  -- The cases follow the lookup: what it asks first, and then what each reply lacks.
  cases history : settings.historyUrl action with
  | some url =>
    rw [newest_asks history] at exchanged
    rcases exchanged with _ | others
    obtain ⟨rfl, rfl⟩ := Lookup.exchanged_done others
    exact .history history
  | none =>
    simp only [newest, history] at exchanged
    cases released : settings.releaseUrl action with
    | none =>
      rw [released] at exchanged
      obtain ⟨rfl, rfl⟩ := Lookup.exchanged_done exchanged
      exact .unaddressed history released
    | some release =>
      rw [released] at exchanged
      obtain ⟨failure, rfl, rfl⟩ | ⟨latest, rest, rfl, others⟩ := Lookup.exchanged_fetch exchanged
      · exact .unreleased history released rfl
      · cases named : textAt? "tag_name" latest with
        | none =>
          rw [named] at others
          obtain ⟨rfl, rfl⟩ := Lookup.exchanged_done others
          exact .unreleased history released named
        | some tag =>
          obtain ⟨tagged, tagUrl⟩ := tagUrl_isSome released tag
          rw [named, Option.bind_some, tagUrl] at others
          obtain ⟨reference, rest, rfl, dereferenced⟩ := dereferenced_tag others
          exact .released history released named tagUrl dereferenced

end Exchanged

section Chains

variable {settings : Settings} {action : RemoteAction} {log : List (String × Reply)} {value : Option String}
  {reference : Reply}

theorem Dereferenced.length_le (dereferenced : Dereferenced reference log value) : log.length ≤ 1 := by
  cases dereferenced <;> simp

theorem Chain.length_le (chain : Chain settings action log value) : log.length ≤ 3 := by
  cases chain with
  | unaddressed => simp
  | history => simp
  | unreleased => simp
  | released _ _ _ _ dereferenced =>
    have behind := dereferenced.length_le
    simp only [List.length_cons]
    omega

/-- A request that fails is the last one, and then nothing is found. -/
def Stops (log : List (String × Reply)) (value : Option String) : Prop :=
  ∀ before url failure after, log = before ++ (url, .error failure) :: after → after = [] ∧ value = none

theorem stops_nil : Stops [] value := by
  intro before url failure after same
  simp at same

-- The first request may fail only where nothing comes after it.
theorem stops_cons {url : String} {reply : Reply}
    (failed : ∀ failure, reply = .error failure → log = [] ∧ value = none) (rest : Stops log value) :
    Stops ((url, reply) :: log) value := by
  intro before url' failure after same
  rcases before with _ | ⟨first, before⟩
  · obtain ⟨here, rfl⟩ := List.cons.inj same
    exact failed failure (Prod.mk.inj here).2
  · exact rest before url' failure after (List.cons.inj same).2

theorem told_ne_error {read : Json → Option String} {reply : Reply} {text : String} {failure : Failure}
    (found : told read reply = some text) : reply ≠ .error failure := by
  rintro rfl
  cases found

theorem Dereferenced.stops (dereferenced : Dereferenced reference log value) :
    (∀ failure, reference = .error failure → log = [] ∧ value = none) ∧ Stops log value := by
  cases dereferenced with
  | commit commit => exact ⟨fun _ failed => absurd failed (told_ne_error commit), stops_nil⟩
  | unaddressed => exact ⟨fun _ _ => ⟨rfl, rfl⟩, stops_nil⟩
  | annotated _ addressed =>
    refine ⟨fun _ failed => absurd failed (told_ne_error addressed), stops_cons ?_ stops_nil⟩
    rintro failure rfl
    exact ⟨rfl, rfl⟩

theorem Chain.stops (chain : Chain settings action log value) : Stops log value := by
  cases chain with
  | unaddressed => exact stops_nil
  | history =>
    refine stops_cons ?_ stops_nil
    rintro failure rfl
    exact ⟨rfl, rfl⟩
  | unreleased => exact stops_cons (fun _ _ => ⟨rfl, rfl⟩) stops_nil
  | released _ _ named _ dereferenced =>
    obtain ⟨failed, stops⟩ := dereferenced.stops
    exact stops_cons (fun _ failed => absurd failed (told_ne_error named)) (stops_cons failed stops)

end Chains

theorem newestOf_eq_some {reply : Reply} {sha : String} :
    newestOf reply = some sha ↔
      ∃ commit rest, reply = .ok (.array (commit :: rest)) ∧ textAt? "sha" commit = some sha := by
  rcases reply with failure | json
  · simp [newestOf]
  · cases json with
    | array commits => cases commits <;> simp [newestOf, Json.item?]
    | null | bool | integer | real | string | object => simp [newestOf, Json.item?]

theorem saysPresent_of_newestOf {reply : Reply} {sha : String} (found : newestOf reply = some sha) :
    saysPresent hasCommits reply = true := by
  obtain ⟨commit, rest, rfl, _⟩ := newestOf_eq_some.mp found
  rfl

theorem tagUrl_pieces (settings : Settings) (action : RemoteAction) (tag : String) :
    ∃ pieces, pieces ≠ [] ∧ Path.Free pieces ∧ "/".intercalate pieces = tag ∧
      settings.tagUrl action tag =
        (settings.endpoint action (["git", "ref", "tags"] ++ pieces)).map Url.text :=
  let path : Path := ⟨tag⟩
  ⟨path.pieces, path.pieces_ne_nil, path.pieces_free, path.intercalate_pieces, rfl⟩

section Newest

variable {settings : Settings} {action : RemoteAction} {log : List (String × Reply)} {value : Option String}

theorem Settings.not_unusable (usable : ¬settings.Unusable) :
    ∃ base, Url.parse (withoutTrailingSlashes settings.apiUrl) = some base ∧ base.canBeBase = true := by
  simpa [Settings.Unusable] using usable

theorem Chain.of_unreachable (chain : Chain settings action log value)
    (unreachable : action.repo = none ∨ settings.Unusable) : log = [] ∧ value = none := by
  have without : ∀ extra, settings.endpoint action extra = none := by
    intro extra
    rcases unreachable with nameless | unusable
    · exact Settings.endpoint_nameless nameless extra
    · exact settings.endpoint_unusable unusable action extra
  have noHistory := Settings.historyUrl_nowhere without
  have noRelease := Settings.releaseUrl_nowhere without
  cases chain with
  | unaddressed => exact ⟨rfl, rfl⟩
  | history history => cases noHistory.symm.trans history
  | unreleased _ released => cases noRelease.symm.trans released
  | released _ released => cases noRelease.symm.trans released

theorem Settings.historyUrl_eq_some {repo : String} (named : action.repo = some repo)
    (usable : ¬settings.Unusable) (history : settings.byHistory action = true) :
    ∃ url, settings.historyUrl action = some url := by
  obtain ⟨base, parsed, hierarchical⟩ := settings.not_unusable usable
  obtain ⟨url, _, found, _⟩ := presence_asks named parsed hierarchical
  exact ⟨url, by simpa [Settings.presenceUrl, history] using found⟩

theorem Settings.releaseUrl_eq_some {repo : String} (named : action.repo = some repo)
    (usable : ¬settings.Unusable) : ∃ url, settings.releaseUrl action = some url := by
  obtain ⟨base, parsed, hierarchical⟩ := settings.not_unusable usable
  obtain ⟨url, found⟩ := endpoint_isSome named parsed hierarchical ["releases", "latest"]
  exact ⟨url.text, by simp [Settings.releaseUrl, found]⟩

/-- What is looked up by its history takes the one request, and exists as soon as it has news. -/
theorem Chain.of_history (chain : Chain settings action log value) {url : String}
    (history : settings.historyUrl action = some url) :
    ∃ reply, log = [(url, reply)] ∧ value = newestOf reply ∧
      (value.isSome → ∀ (σ : Type) (transport : Transport σ) (state : σ),
        (transport url state).1 = reply → ((presence settings action).run transport state).1 = true) := by
  cases chain with
  | @history url' commits history' =>
    obtain rfl : url = url' := Option.some.inj (history.symm.trans history')
    refine ⟨commits, rfl, rfl, ?_⟩
    rintro news σ transport state rfl
    obtain ⟨sha, found⟩ := Option.isSome_iff_exists.mp news
    have present := saysPresent_of_newestOf found
    simpa only [presence, history, Lookup.run] using present
  | unaddressed none | unreleased none | released none => cases none.symm.trans history

theorem Chain.of_release (chain : Chain settings action log value) (other : settings.historyUrl action = none)
    {release : String} (released : settings.releaseUrl action = some release) :
    ∃ latest rest, log = (release, latest) :: rest := by
  cases chain with
  | history history => cases other.symm.trans history
  | unaddressed _ none => cases none.symm.trans released
  | unreleased _ released' | released _ released' =>
    obtain rfl := Option.some.inj (released.symm.trans released')
    exact ⟨_, _, rfl⟩

end Newest

/-- The requests for the newest commit of an action, and what comes of their replies. There are at most
three, each for what the reply before it names, and after one that fails there is no other. By history
it is one; by release they start with the latest one; with no repository or base URL there are none. -/
theorem newest_chained (settings : Settings) (action : RemoteAction) {σ : Type} (transport : Transport σ)
    (state : σ) :
    let ran := (newest settings action).run transport state
    let log := (newest settings action).exchanges transport state
    (ran.2.2 = log.map Prod.fst ∧ log.length ≤ 3 ∧ Stops log ran.1 ∧ Chain settings action log ran.1) ∧
    (∀ repo, action.repo = some repo → ¬settings.Unusable → settings.byHistory action = true →
      ∃ url reply, settings.historyUrl action = some url ∧ log = [(url, reply)] ∧
        (∀ sha, ran.1 = some sha ↔
          ∃ commit rest, reply = .ok (.array (commit :: rest)) ∧ textAt? "sha" commit = some sha) ∧
        (ran.1.isSome → ∀ (τ : Type) (other : Transport τ) (start : τ),
          (other url start).1 = reply → ((presence settings action).run other start).1 = true)) ∧
    (∀ repo, action.repo = some repo → ¬settings.Unusable → settings.byHistory action = false →
      ∃ release latest rest, settings.historyUrl action = none ∧
        settings.releaseUrl action = some release ∧ log = (release, latest) :: rest) ∧
    (action.repo = none ∨ settings.Unusable → log = [] ∧ ran.1 = none) ∧
    ∀ tag, ∃ pieces, pieces ≠ [] ∧ Path.Free pieces ∧ "/".intercalate pieces = tag ∧
      settings.tagUrl action tag =
        (settings.endpoint action (["git", "ref", "tags"] ++ pieces)).map Url.text := by
  intro ran log
  have chain : Chain settings action log ran.1 :=
    chain_of_exchanged (Lookup.exchanged_run transport (newest settings action) state)
  refine ⟨⟨?asked, chain.length_le, chain.stops, chain⟩, ?history, ?release, chain.of_unreachable,
    tagUrl_pieces settings action⟩
  case asked => exact Lookup.asked_eq transport (newest settings action) state
  case history =>
    intro repo named usable history
    obtain ⟨url, found⟩ := Settings.historyUrl_eq_some named usable history
    obtain ⟨reply, only, value, present⟩ := chain.of_history found
    exact ⟨url, reply, found, only, fun sha => value ▸ newestOf_eq_some, present⟩
  case release =>
    intro repo named usable other
    have none := Settings.historyUrl_eq_none other
    obtain ⟨release, found⟩ := Settings.releaseUrl_eq_some named usable
    obtain ⟨latest, rest, first⟩ := chain.of_release none found
    exact ⟨release, latest, rest, none, found, first⟩

/-- The latest release of an action has an annotated tag with a slash in its name. -/
theorem newest_chained_annotated :
    let action : RemoteAction := ⟨"o/r@1", "o", some "r", none, "1"⟩
    let internal : RemoteAction := ⟨"bitwarden/a/b@1", "bitwarden", some "a", some "b", "1"⟩
    let nameless : RemoteAction := ⟨"o@1", "o", none, none, "1"⟩
    let transport : Transport Nat := fun _ asked =>
      (.ok (match asked with
        | 0 => .object [("tag_name", .string "v/1")]
        | 1 => .object [("object", .object [("type", .string "tag"), ("url", .string "any text")])]
        | _ => .object [("object", .object [("sha", .string "c")])]), asked + 1)
    let asked : RemoteAction → List String := fun action => ((newest {} action).run transport 0).2.2
    asked action = ["https://api.github.com/repos/o/r/releases/latest",
        "https://api.github.com/repos/o/r/git/ref/tags/v/1", "any text"] ∧
      ((newest {} action).run transport 0).1 = some "c" ∧
      Chain {} action ((newest {} action).exchanges transport 0) (some "c") ∧
      Settings.releaseUrl {} action = (asked action).head? ∧
      (∃ url, asked internal = [url]) ∧ asked nameless = [] := by
  intro action internal nameless transport asked
  have usable : ¬Settings.Unusable {} := by
    intro unusable
    have hierarchical : (Url.parse (withoutTrailingSlashes defaultApiUrl)).any Url.canBeBase = true := by
      decide +kernel
    obtain ⟨base, parsed, hierarchical⟩ := (Option.any_eq_true _ _).mp hierarchical
    simp [unusable base parsed] at hierarchical
  have found : ((newest {} action).run transport 0).1 = some "c" := by decide +kernel
  obtain ⟨⟨requests, _, _, chain⟩, _, byRelease, _⟩ := newest_chained {} action transport 0
  obtain ⟨release, latest, rest, _, released, first⟩ := byRelease "r" rfl usable (by decide +kernel)
  obtain ⟨⟨requested, _⟩, byHistory, _⟩ := newest_chained {} internal transport 0
  obtain ⟨url, reply, _, only, _⟩ := byHistory "a" rfl usable (by decide +kernel)
  obtain ⟨⟨requested', _⟩, _, _, nothing, _⟩ := newest_chained {} nameless transport 0
  refine ⟨by decide +kernel, found, found ▸ chain, ?_, ⟨url, ?_⟩, ?_⟩
  · rw [released]
    exact (congrArg List.head? (requests.trans (congrArg _ first))).symm
  · exact requested.trans (by rw [only]; rfl)
  · exact requested'.trans (by rw [(nothing (.inl rfl)).1]; rfl)

end WorkflowLint.Registry

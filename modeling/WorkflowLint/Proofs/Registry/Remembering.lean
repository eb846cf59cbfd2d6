import WorkflowLint.Proofs.Action.Reference
import WorkflowLint.Proofs.Registry.Contract
import WorkflowLint.Proofs.Rules.Assembly

/-! What the registry that remembers answers, under a contract on its memo and on the replies.

Under stable replies every entry is the answer that a fresh lookup gives. It can be, because the raw
text of a reference determines all its parts. -/

set_option autoImplicit false

namespace WorkflowLint

namespace Registry

variable {α : Type} {contract : Contract} {settings : Settings} {action : RemoteAction}

theorem rememberedPresence_ensures {post : Bool → Prop}
    (recalled : ∀ found, contract.presence action.raw found → post found)
    (asked : (Task.ofLookup (presence settings action)).Ensures contract fun found =>
      contract.presence action.raw found ∧ post found) :
    (rememberedPresence settings action).Ensures contract post := by
  intro known valid
  cases known with
  | some found => exact recalled found (valid found rfl)
  | none => exact Task.ensures_bind asked fun found holds => holds

theorem rememberedNewest_ensures {post : Option String → Prop}
    (recalled : ∀ sha, contract.newest action.raw sha → post sha)
    (asked : (Task.ofLookup (newest settings action)).Ensures contract fun sha =>
      contract.newest action.raw sha ∧ post sha) :
    (rememberedNewest settings action).Ensures contract post := by
  intro known valid
  cases known with
  | some sha => exact recalled sha (valid sha rfl)
  | none => exact Task.ensures_bind asked fun sha holds => holds

section News

/-- Nothing is said of requests and of what is present; every entry about news keeps to `news`. -/
def Contract.onNews (replies : String → Reply → Prop) (news : RemoteAction → Option String → Prop) :
    Contract where
  asks _ := True
  reply := replies
  presence _ _ := True
  newest raw sha := ∀ action, ActionRef.parse raw = .remote action → news action sha

variable {replies : String → Reply → Prop} {news : RemoteAction → Option String → Prop}

theorem lookup_ensures_onNews {post : α → Prop} (holds : ∀ value, post value) (lookup : Lookup α) :
    (Task.ofLookup lookup).Ensures (.onNews replies news) post := by
  induction lookup with
  | done value => exact holds value
  | ask url next ih => exact ⟨trivial, fun reply _ => ih reply⟩

theorem isPresent_ensures_onNews (reference : ActionRef) :
    ((remembering settings).isPresent reference).Ensures (.onNews replies news) fun _ => True := by
  cases reference with
  | inTree raw | unpinned raw => trivial
  | remote action =>
    exact rememberedPresence_ensures (fun _ _ => trivial)
      (lookup_ensures_onNews (fun _ => ⟨trivial, trivial⟩) _)

/-- What holds of news that are looked up holds of those that are remembered, too. -/
theorem newest_ensures_onNews
    (looked : ∀ action, (Task.ofLookup (newest settings action)).Ensures (.onNews replies news) (news action))
    (text : String) :
    ((remembering settings).newest (.parse text)).Ensures (.onNews replies news)
      ((Contract.onNews replies news).newest text) := by
  cases parsed : ActionRef.parse text with
  | inTree raw | unpinned raw =>
    intro action remote
    cases parsed.symm.trans remote
  | remote action =>
    obtain rfl := ActionRef.raw_of_parse parsed
    refine rememberedNewest_ensures (fun sha kept => kept) ((looked action).mono fun sha holds => ?_)
    -- Another action with this text is this one.
    have only : (Contract.onNews replies news).newest action.raw sha := by
      intro other parsed'
      cases parsed.symm.trans parsed'
      exact holds
    exact ⟨only, only⟩

end News

theorem updateUrl_ensures {post : Option String → Prop} {reference : ActionRef}
    (asked : ((remembering settings).newest reference).Ensures contract post) :
    ((remembering settings).updateUrl reference).Ensures contract fun _ => True := by
  cases reference with
  | inTree raw | unpinned raw => trivial
  | remote action => exact Task.ensures_bind asked fun _ _ => trivial

section Direct

def direct (settings : Settings) (answer : String → Reply) : ActionRegistry Id where
  isPresent
    | .remote action => ((presence settings action).run (Transport.fixed answer) ()).1
    | _ => true
  newest
    | .remote action => ((newest settings action).run (Transport.fixed answer) ()).1
    | _ => none
  commitUrl := commitUrl settings.webUrl

/-- Every request may be made and gets its answer; every entry is what a fresh lookup gives for the
reference with that raw text. -/
def faithful (settings : Settings) (answer : String → Reply) : Contract where
  asks _ := True
  reply url reply := reply = answer url
  presence raw found := ∀ action, ActionRef.parse raw = .remote action →
    found = (direct settings answer).isPresent (.remote action)
  newest raw sha := ∀ action, ActionRef.parse raw = .remote action →
    sha = (direct settings answer).newest (.remote action)

variable {answer : String → Reply}

theorem ofLookup_ensures (lookup : Lookup α) :
    (Task.ofLookup lookup).Ensures (faithful settings answer)
      (· = (lookup.run (Transport.fixed answer) ()).1) := by
  induction lookup with
  | done value => exact rfl
  | ask url next ih =>
    refine ⟨trivial, fun reply replied => ?_⟩
    subst replied
    exact ih (answer url)

section Parsed

variable {text : String} (parsed : ActionRef.parse text = .remote action)
include parsed

theorem rememberedPresence_directly : (rememberedPresence settings action).Ensures
    (faithful settings answer) (· = (direct settings answer).isPresent (.remote action)) := by
  obtain rfl := ActionRef.raw_of_parse parsed
  refine rememberedPresence_ensures (fun found valid => valid action parsed) ?_
  refine (ofLookup_ensures _).mono fun found looked => ⟨fun other parsed' => ?_, looked⟩
  -- Another reference with this raw text is this one.
  cases parsed.symm.trans parsed'
  exact looked

theorem rememberedNewest_directly : (rememberedNewest settings action).Ensures
    (faithful settings answer) (· = (direct settings answer).newest (.remote action)) := by
  obtain rfl := ActionRef.raw_of_parse parsed
  refine rememberedNewest_ensures (fun sha valid => valid action parsed) ?_
  refine (ofLookup_ensures _).mono fun sha looked => ⟨fun other parsed' => ?_, looked⟩
  cases parsed.symm.trans parsed'
  exact looked

end Parsed

/-- The registry that remembers answers as one that does not, as long as its memo is faithful. -/
theorem remembering_answers_directly (settings : Settings) (answer : String → Reply) :
    Rules.Answers (Task.results (faithful settings answer)) (remembering settings)
      (.exactly (direct settings answer)) where
  present text := by
    cases parsed : ActionRef.parse text with
    | inTree raw => exact rfl
    | unpinned raw => exact rfl
    | remote action => exact rememberedPresence_directly parsed
  update text := by
    cases parsed : ActionRef.parse text with
    | inTree raw => exact rfl
    | unpinned raw => exact rfl
    | remote action =>
      refine Task.ensures_bind (rememberedNewest_directly parsed) ?_
      rintro sha rfl
      exact rfl

end Direct

end Registry

end WorkflowLint

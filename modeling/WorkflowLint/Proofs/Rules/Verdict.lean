import WorkflowLint.Proofs.Gate
import WorkflowLint.Proofs.Unreachable

/-! What is said about a reference, and what the registry is asked for it.

The text of a reference decides which of its checks are made. Both checks of the revision are made for
every remote reference; after these comes one remark at most, on the path or on what the registry says.
The registry is asked for complete paths only, and for the newest commit only of an action that exists. -/

set_option autoImplicit false

namespace WorkflowLint

open Registry (Call)

section Recorded

variable {α σ : Type}

/-- Gets the answer to a question, and writes the question down. -/
def Registry.Call.record (call : Call) (answer : StateM σ α) : StateM (σ × List Call) α :=
  fun (state, asked) => ((answer.run state).1, (answer.run state).2, asked ++ [call])

def ActionRegistry.recorded (registry : ActionRegistry (StateM σ)) :
    ActionRegistry (StateM (σ × List Call)) where
  isPresent reference := (Call.presence reference).record (registry.isPresent reference)
  newest reference := (Call.newest reference).record (registry.newest reference)
  commitUrl := registry.commitUrl

theorem Registry.Call.run_record {call : Call} {answer : StateM σ α} {state after : σ} {value : α}
    (ran : answer.run state = (value, after)) (asked : List Call) :
    (call.record answer).run (state, asked) = (value, after, asked ++ [call]) := by
  change ((answer.run state).1, (answer.run state).2, asked ++ [call]) = _
  rw [ran]

end Recorded

namespace Rules

def revisionErrors (key : String) (number : Nat) (revision : List Char) : List Finding :=
  (if revision.length = 40 then [] else [hashError key number "not 40 characters"]) ++
    (if revision ≠ [] ∧ revision.all fun c => c ∈ "0123456789abcdef".toList then []
      else [hashError key number "not all hexadecimal characters"])

variable {σ : Type} (settings : RuleSettings) (registry : ActionRegistry (StateM σ)) (key : String)
  (number : Nat) (text : String)

section Answers

variable (action : RemoteAction) (state : σ)

def presentFrom : Bool := ((registry.isPresent (.remote action)).run state).1

def newestFrom : Option String :=
  ((registry.newest (.remote action)).run ((registry.isPresent (.remote action)).run state).2).1

inductive Remarked : Option Finding → List Call → Prop where
  | incomplete {problem : String} : pathProblem settings.internalNamespace action = some problem →
      Remarked (some (pathError key number problem)) []
  | missing : pathProblem settings.internalNamespace action = none →
      presentFrom registry action state = false →
      Remarked (some (missingAction key number text)) [.presence (.remote action)]
  | current : pathProblem settings.internalNamespace action = none →
      presentFrom registry action state = true →
      (∀ sha, newestFrom registry action state = some sha → sha = action.revision) →
      Remarked none [.presence (.remote action), .newest (.remote action)]
  | outdated {sha : String} : pathProblem settings.internalNamespace action = none →
      presentFrom registry action state = true →
      newestFrom registry action state = some sha → sha ≠ action.revision →
      Remarked (some (outdatedAction key number (registry.commitUrl action sha)))
        [.presence (.remote action), .newest (.remote action)]

end Answers

/-- The findings on a reference, with the questions that lead to them. -/
inductive Judged (state : σ) : List Finding → List Call → Prop where
  | inTree : ['.', '/'] <:+: text.toList → ActionRef.parse text = .inTree text → Judged state [] []
  | unpinned : ¬['.', '/'] <:+: text.toList → '@' ∉ text.toList → ActionRef.parse text = .unpinned text →
      Judged state [hashError key number "missing '@' character"] []
  | remote {path revision : List Char} {action : RemoteAction} {remark : Option Finding}
      {asked : List Call} : ¬['.', '/'] <:+: text.toList → text.toList = path ++ '@' :: revision →
      '@' ∉ revision → ActionRef.parse text = .remote action → action.revision.toList = revision →
      Remarked settings registry key number text action state remark asked →
      Judged state (revisionErrors key number revision ++ remark.toList) asked

section Runs

variable {settings registry key number text} {action : RemoteAction}

theorem revision_eq (action : RemoteAction) :
    revision key number action = revisionErrors key number action.revision.toList := by
  have full : action.hasFullRevision = true ↔ action.revision.toList.length = 40 := by
    simp [RemoteAction.hasFullRevision, RemoteAction.revisionLength, String.length_toList]
  have hex : action.hasHexRevision = true ↔
      action.revision.toList ≠ [] ∧ action.revision.toList.all fun c => c ∈ "0123456789abcdef".toList := by
    simp only [RemoteAction.hasHexRevision, Bool.and_eq_true, List.all_eq_true, isHexDigit_iff]
    simp
  unfold revision revisionErrors
  simp only [full, hex]

section Registered

variable {τ : Type} {asked : ActionRegistry (StateM τ)} {before between after : τ}
variable (key number text)

theorem run_registered_missing (absent : (asked.isPresent (.remote action)).run before = (false, between)) :
    (registered asked key number text (.remote action)).run before =
      ([missingAction key number text], between) := by
  unfold registered
  rw [StateT.run_bind, absent]
  rfl

theorem run_registered_present {newest : Option String}
    (present : (asked.isPresent (.remote action)).run before = (true, between))
    (answered : (asked.newest (.remote action)).run between = (newest, after)) :
    let link := newest.bind fun sha =>
      if sha = action.revision then none else some (asked.commitUrl action sha)
    (registered asked key number text (.remote action)).run before =
      ((link.map (outdatedAction key number)).toList, after) := by
  intro link
  have updated : (asked.updateUrl (.remote action)).run between = (link, after) := by
    unfold ActionRegistry.updateUrl
    rw [StateT.run_bind, answered]
    rfl
  unfold registered
  rw [StateT.run_bind, present]
  change StateT.run (_ >>= _) between = _
  rw [StateT.run_bind, updated]
  cases link <;> rfl

end Registered

section Recorded

variable (registry key number text) (state : σ)

/-- Writing the questions down changes neither the remark nor what the registry does. -/
theorem run_registered_recorded (complete : pathProblem settings.internalNamespace action = none) :
    ∃ remark asked after, Remarked settings registry key number text action state remark asked ∧
      (registered registry.recorded key number text (.remote action)).run (state, []) =
        (remark.toList, after, asked) ∧
      (registered registry key number text (.remote action)).run state = (remark.toList, after) := by
  rcases first : (registry.isPresent (.remote action)).run state with ⟨present, between⟩
  have presence : presentFrom registry action state = present := congrArg Prod.fst first
  have firstRecorded : (registry.recorded.isPresent (.remote action)).run (state, []) =
      (present, between, [.presence (.remote action)]) := Call.run_record first []
  cases present with
  | false =>
    exact ⟨_, _, between, .missing complete presence, run_registered_missing key number text firstRecorded,
      run_registered_missing key number text first⟩
  | true =>
    rcases second : (registry.newest (.remote action)).run between with ⟨newest, after⟩
    have news : newestFrom registry action state = newest := by
      rw [newestFrom, first, second]
    have secondRecorded : (registry.recorded.newest (.remote action)).run
        (between, [.presence (.remote action)]) =
          (newest, after, [.presence (.remote action), .newest (.remote action)]) :=
      Call.run_record second [.presence (.remote action)]
    have recorded := run_registered_present key number text firstRecorded secondRecorded
    have plain := run_registered_present key number text first second
    cases newest with
    | none => exact ⟨none, _, after, .current complete presence (by simp [news]), recorded, plain⟩
    | some sha =>
      by_cases same : sha = action.revision
      · simp only [Option.bind_some, if_pos same] at recorded plain
        exact ⟨none, _, after, .current complete presence (by simp [news, same]), recorded, plain⟩
      · simp only [Option.bind_some, if_neg same] at recorded plain
        exact ⟨_, _, after, .outdated complete presence news same, recorded, plain⟩

variable (settings) in
/-- The check of a reference does what the reference and the answers call for. -/
theorem run_uses_recorded :
    ∃ found asked after, Judged settings registry key number text state found asked ∧
      (uses settings registry.recorded key number text).run (state, []) = (found, after, asked) ∧
      (uses settings registry key number text).run state = (found, after) := by
  unfold uses
  obtain ⟨marked, parsed⟩ | ⟨unmarked, bare, parsed⟩ |
    ⟨unmarked, path, tail, cut, last, parsed⟩ := ActionRef.parse_cases text
  · rw [parsed]
    exact ⟨_, _, state, .inTree marked parsed, rfl, rfl⟩
  · rw [parsed]
    exact ⟨_, _, state, .unpinned unmarked bare parsed, rfl, rfl⟩
  · rw [parsed]
    have pinned : (RemoteAction.ofParts text path tail).revision.toList = tail := by simp
    generalize RemoteAction.ofParts text path tail = action at parsed pinned
    dsimp only
    rw [revision_eq, pinned]
    cases problem : pathProblem settings.internalNamespace action with
    | some problem' =>
      exact ⟨_, _, state, .remote unmarked cut last parsed pinned (.incomplete problem), rfl, rfl⟩
    | none =>
      obtain ⟨remark, asked, after, remarked, recorded, plain⟩ :=
        run_registered_recorded registry key number text state problem
      refine ⟨_, asked, after, .remote unmarked cut last parsed pinned remarked, ?_, ?_⟩
      · rw [StateT.run_bind, recorded]
        rfl
      · rw [StateT.run_bind, plain]
        rfl

end Recorded

section Judgements

variable {state : σ} {found : List Finding} {asked : List Call}

theorem mem_revisionErrors {revision : List Char} {finding : Finding}
    (member : finding ∈ revisionErrors key number revision) : finding.level = .error := by
  unfold revisionErrors at member
  rcases List.mem_append.mp member with short | foreign
  · split at short
    · cases short
    · cases List.mem_singleton.mp short
      rfl
  · split at foreign
    · cases foreign
    · cases List.mem_singleton.mp foreign
      rfl

variable (key number) in
theorem length_revisionErrors_le (revision : List Char) :
    (revisionErrors key number revision).length ≤ 2 := by
  unfold revisionErrors
  rw [List.length_append]
  split <;> split <;> simp

theorem revisionErrors_hash {revision : List Char} (hash : IsCommitHash revision) :
    revisionErrors key number revision = [] := by
  have given : revision ≠ [] := by
    rintro rfl
    exact absurd hash.1 (by decide)
  have digits : (revision.all fun c => c ∈ "0123456789abcdef".toList) = true :=
    List.all_eq_true.mpr fun c member => decide_eq_true (hash.2 c member)
  unfold revisionErrors
  rw [if_pos hash.1, if_pos ⟨given, digits⟩, List.append_nil]

theorem Judged.mem_asked (judged : Judged settings registry key number text state found asked) (call : Call) :
    call ∈ asked ↔ ∃ action, ActionRef.parse text = .remote action ∧
      pathProblem settings.internalNamespace action = none ∧
      (call = .presence (.remote action) ∨
        presentFrom registry action state = true ∧ call = .newest (.remote action)) := by
  cases judged with
  | inTree _ parsed => simp [parsed]
  | unpinned _ _ parsed => simp [parsed]
  | remote _ _ _ parsed _ remarked =>
    cases remarked with
    | incomplete problem => simp [parsed, problem]
    | missing complete absent => simp [parsed, complete, absent]
    | current complete present => simp [parsed, complete, present]
    | outdated complete present => simp [parsed, complete, present]

theorem Judged.warned_iff (judged : Judged settings registry key number text state found asked) :
    (∃ finding ∈ found, finding.level = .warning) ↔ ∃ action sha, ActionRef.parse text = .remote action ∧
      pathProblem settings.internalNamespace action = none ∧ presentFrom registry action state = true ∧
      newestFrom registry action state = some sha ∧ sha ≠ action.revision := by
  cases judged with
  | inTree _ parsed => simp [parsed]
  | unpinned _ _ parsed => simp [parsed, hashError, Finding.error]
  | @remote _ revision action remark _ _ _ _ parsed _ remarked =>
    -- The errors on the revision are no warnings, so only the remark can be one.
    have only : (∃ finding ∈ revisionErrors key number revision ++ remark.toList,
        finding.level = .warning) ↔ ∃ finding, remark = some finding ∧ finding.level = .warning := by
      constructor
      · rintro ⟨finding, member, light⟩
        rcases List.mem_append.mp member with heavy | remarked
        · cases light.symm.trans (mem_revisionErrors heavy)
        · exact ⟨finding, Option.mem_toList.mp remarked, light⟩
      · rintro ⟨finding, remarked, light⟩
        exact ⟨finding, List.mem_append_right _ (Option.mem_toList.mpr remarked), light⟩
    rw [only]
    cases remarked with
    | incomplete problem => simp [parsed, problem, pathError, Finding.error]
    | missing complete absent => simp [parsed, complete, absent, missingAction, Finding.error]
    | current complete present known =>
      simp only [reduceCtorEq, false_and, exists_false, false_iff]
      rintro ⟨other, sha, parsed', _, _, news, apart⟩
      cases parsed.symm.trans parsed'
      exact apart (known sha news)
    | outdated complete present news apart =>
      exact ⟨fun _ => ⟨action, _, parsed, complete, present, news, apart⟩, fun _ => ⟨_, rfl, rfl⟩⟩

theorem Judged.length_le (judged : Judged settings registry key number text state found asked) :
    found.length ≤ 3 := by
  cases judged with
  | inTree => simp
  | unpinned => simp
  | @remote _ revision _ remark _ _ _ _ _ _ _ =>
    have remarks : remark.toList.length ≤ 1 := by cases remark <;> simp
    have errors := length_revisionErrors_le key number revision
    rw [List.length_append]
    omega

/-- What is pinned to a full hash, has a complete path and exists can only be outdated. -/
theorem Judged.of_pinned (judged : Judged settings registry key number text state found asked)
    (parsed : ActionRef.parse text = .remote action) (hash : IsCommitHash action.revision.toList)
    (complete : pathProblem settings.internalNamespace action = none)
    (present : presentFrom registry action state = true) :
    (∀ finding ∈ found, finding.level = .warning) ∧ found.length ≤ 1 := by
  cases judged with
  | inTree _ parsed' => cases parsed.symm.trans parsed'
  | unpinned _ _ parsed' => cases parsed.symm.trans parsed'
  | remote _ _ _ parsed' pinned remarked =>
    cases parsed.symm.trans parsed'
    rw [← pinned, revisionErrors_hash hash, List.nil_append]
    cases remarked with
    | incomplete problem => cases complete.symm.trans problem
    | missing _ absent => cases present.symm.trans absent
    | current => simp
    | outdated => simp [outdatedAction, Finding.warning]

end Judgements

end Runs

/-- The findings on a reference and the questions that it causes, for every registry and from every state
of it. Nothing is said about what stays in its repository, and one error about what has no revision. Of
any other reference, the errors on the revision come first, the length before the characters, and then
at most one remark. The registry is asked just for complete paths, and for the newest commit just of an
action that exists; a warning says that this commit is another one than the pinned one. -/
theorem uses_judged (state : σ) :
    let run := (uses settings registry.recorded key number text).run (state, [])
    let found := run.1
    let asked := run.2.2
    (uses settings registry key number text).run state = (found, run.2.1) ∧
    Judged settings registry key number text state found asked ∧
    (∀ call, call ∈ asked ↔ ∃ action, ActionRef.parse text = .remote action ∧
      pathProblem settings.internalNamespace action = none ∧
      (call = .presence (.remote action) ∨
        presentFrom registry action state = true ∧ call = .newest (.remote action))) ∧
    ((∃ finding ∈ found, finding.level = .warning) ↔ ∃ action sha,
      ActionRef.parse text = .remote action ∧ pathProblem settings.internalNamespace action = none ∧
      presentFrom registry action state = true ∧ newestFrom registry action state = some sha ∧
      sha ≠ action.revision) ∧
    found.length ≤ 3 ∧
    ∀ action, ActionRef.parse text = .remote action → IsCommitHash action.revision.toList →
      pathProblem settings.internalNamespace action = none → presentFrom registry action state = true →
      (∀ finding ∈ found, finding.level = .warning) ∧ found.length ≤ 1 := by
  intro run found asked
  obtain ⟨_, _, _, judged, recorded, plain⟩ :=
    run_uses_recorded settings registry key number text state
  simp only [run, found, asked, recorded]
  refine ⟨plain, judged, judged.mem_asked, judged.warned_iff, judged.length_le, ?_⟩
  intro action parsed hash complete present
  exact judged.of_pinned parsed hash complete present

theorem uses_judged_outdated :
    let registry : ActionRegistry (StateM Nat) :=
      { isPresent := fun _ => modifyGet fun asked => (true, asked + 1)
        newest := fun _ => modifyGet fun asked => (some "c", asked + 1)
        commitUrl := Registry.commitUrl Registry.defaultWebUrl }
    let text := "o/r@0123456789012345678901234567890123456789"
    let found := ((uses {} registry.recorded "a" 1 text).run (0, [])).1
    (∃ finding ∈ found, finding.level = .warning) ∧ (∀ finding ∈ found, finding.level = .warning) ∧
      found.length ≤ 1 := by
  intro registry text found
  obtain ⟨_, _, _, warned, _, pinned⟩ := uses_judged {} registry "a" 1 text 0
  let action : RemoteAction := ⟨text, "o", some "r", none, "0123456789012345678901234567890123456789"⟩
  have parsed : ActionRef.parse text = .remote action := by decide +kernel
  have complete : pathProblem "bitwarden" action = none := by decide +kernel
  have apart : "c" ≠ action.revision := by decide
  have hash : IsCommitHash action.revision.toList :=
    (isCommitHash_iff action).mpr ⟨by decide +kernel, by decide +kernel⟩
  exact ⟨warned.mpr ⟨action, "c", parsed, complete, rfl, rfl, apart⟩,
    pinned action parsed hash complete rfl⟩

end Rules

end WorkflowLint

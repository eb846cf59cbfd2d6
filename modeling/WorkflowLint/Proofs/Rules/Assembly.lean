import WorkflowLint.Proofs.Rules.Results

/-! Findings as the document's own findings with the remarks of a registry between them.

All that a registry adds is at most one remark on each step whose reference is looked up. Whatever the
registry does in between, the findings are assembled from the document and these remarks alone. -/

set_option autoImplicit false

namespace WorkflowLint

namespace Rules

/-- The action that a reference names, where it is remote and its path is complete. -/
def lookedUp? (owners text : String) : Option RemoteAction :=
  match ActionRef.parse text with
  | .remote action => if (pathProblem owners action).isNone then some action else none
  | _ => none

theorem lookedUp?_eq_some {owners text : String} {action : RemoteAction} :
    lookedUp? owners text = some action ↔
      ActionRef.parse text = .remote action ∧ pathProblem owners action = none := by
  unfold lookedUp?
  cases ActionRef.parse text with
  | inTree raw => simp
  | unpinned raw => simp
  | remote other =>
    simp only [Option.isNone_iff_eq_none, Option.ite_none_right_eq_some, Option.some.injEq,
      ActionRef.remote.injEq]
    constructor
    · rintro ⟨complete, rfl⟩
      exact ⟨rfl, complete⟩
    · rintro ⟨rfl, complete⟩
      exact ⟨complete, rfl⟩

def missingAction (key : String) (number : Nat) (text : String) : Finding :=
  .error ("Step " ++ toString number ++ " of job key '" ++ key ++ "'" ++
    " uses a non-existing action: " ++ text ++ ".")

def outdatedAction (key : String) (number : Nat) (url : String) : Finding :=
  .warning ("Step " ++ toString number ++ " of job key '" ++ key ++ "'" ++
    " uses an outdated action, consider updating it '" ++ url ++ "'.")

def remarkFor (key : String) (number : Nat) (text : String) (present : Bool) (update : Option String) :
    Option Finding :=
  if present then update.map (outdatedAction key number) else some (missingAction key number text)

def pathError (key : String) (number : Nat) (problem : String) : Finding :=
  .error ("Step " ++ toString number ++ " of job key '" ++ key ++
    "' does not have a valid action path. (" ++ problem ++ ")")

/-- The findings on a reference that its text alone leads to. -/
def written (settings : RuleSettings) (key : String) (number : Nat) (text : String) : List Finding :=
  match ActionRef.parse text with
  | .inTree _ => []
  | .unpinned _ => [hashError key number "missing '@' character"]
  | .remote action =>
    revision key number action ++
      ((pathProblem settings.internalNamespace action).map (pathError key number)).toList

def stepPart (settings : RuleSettings) (key : String) (step : Step) (number : Nat)
    (remark : Option Finding) : List Finding :=
  stepName key number step.name ++
    ((step.uses.map (written settings key number)).getD [] ++ remark.toList) ++
    script key number step.run

def jobPart (settings : RuleSettings) (entry : String × Job) (remarks : Nat → Option Finding) :
    List Finding :=
  runner settings entry.2.runsOn ++ jobName entry.1 entry.2.name ++ environment entry.1 entry.2.env ++
    (entry.2.steps.zipIdx 1).flatMap fun numbered =>
      stepPart settings entry.1 numbered.1 numbered.2 (remarks numbered.2)

/-- What is known of the answers of a registry: whether an action exists, and where its update is. -/
structure AnswerLaw where
  present : ActionRef → Bool → Prop
  update : ActionRef → Option String → Prop

/-- The remark on a reference follows from answers that keep to the law; without a lookup there is none. -/
def ExplainsUse (law : AnswerLaw) (owners key : String) (number : Nat) (text : String)
    (remark : Option Finding) : Prop :=
  match lookedUp? owners text with
  | none => remark = none
  | some action => ∃ present url, law.present (.remote action) present ∧
      (present = true → law.update (.remote action) url) ∧
      remark = remarkFor key number text present url

def Explains (law : AnswerLaw) (owners key : String) (step : Step) (number : Nat)
    (remark : Option Finding) : Prop :=
  match step.uses with
  | none => remark = none
  | some text => ExplainsUse law owners key number text remark

end Rules

namespace Workflow

def entries (workflow : Workflow) : List (String × Job) := workflow.jobs.getD []

/-- The findings on a workflow, with a remark for each place of a job and each number of a step. -/
def assemble (settings : RuleSettings) (remarks : Nat → Nat → Option Finding) (workflow : Workflow) :
    List Finding :=
  Rules.workflowName workflow.name ++ workflow.entries.zipIdx.flatMap fun placed =>
    Rules.jobPart settings placed.1 (remarks placed.2)

def Explained (law : Rules.AnswerLaw) (owners : String) (remarks : Nat → Nat → Option Finding)
    (workflow : Workflow) : Prop :=
  ∀ entry place, (entry, place) ∈ workflow.entries.zipIdx →
    ∀ step number, (step, number) ∈ entry.2.steps.zipIdx 1 →
      Rules.Explains law owners entry.1 step number (remarks place number)

end Workflow

namespace Rules

variable {m : Type → Type} [Monad m]

structure Answers (logic : ResultLogic m) (registry : ActionRegistry m) (law : AnswerLaw) : Prop where
  present : ∀ text, logic.Holds (registry.isPresent (ActionRef.parse text))
    (law.present (ActionRef.parse text))
  update : ∀ text, logic.Holds (registry.updateUrl (ActionRef.parse text))
    (law.update (ActionRef.parse text))

variable {logic : ResultLogic m} {registry : ActionRegistry m} {law : AnswerLaw}
  (settings : RuleSettings) (answers : Answers logic registry law)
include answers

theorem registered_holds (key : String) (number : Nat) (text : String) :
    logic.Holds (registered registry key number text (ActionRef.parse text)) fun found =>
      ∃ present url, law.present (ActionRef.parse text) present ∧
        (present = true → law.update (ActionRef.parse text) url) ∧
        found = (remarkFor key number text present url).toList := by
  unfold registered
  refine logic.bind (answers.present text) fun present known => ?_
  cases present with
  -- Nothing is asked about updates here, so any URL serves as the answer.
  | false => exact logic.pure ⟨false, none, known, by simp, rfl⟩
  | true =>
    refine logic.bind (answers.update text) fun url followed => ?_
    cases url with
    | none => exact logic.pure ⟨true, none, known, fun _ => followed, rfl⟩
    | some url => exact logic.pure ⟨true, some url, known, fun _ => followed, rfl⟩

theorem uses_holds (key : String) (number : Nat) (text : String) :
    logic.Holds (uses settings registry key number text) fun found => ∃ remark,
      ExplainsUse law settings.internalNamespace key number text remark ∧
      found = written settings key number text ++ remark.toList := by
  have asked := registered_holds answers key number text
  unfold uses ExplainsUse lookedUp? written
  generalize ActionRef.parse text = reference at asked
  cases reference with
  | inTree raw => exact logic.pure ⟨none, rfl, rfl⟩
  | unpinned raw => exact logic.pure ⟨none, rfl, rfl⟩
  | remote action =>
    dsimp only
    cases pathProblem settings.internalNamespace action with
    -- The registry is not asked, although the reference is remote.
    | some problem => exact logic.pure ⟨none, rfl, by simp [pathError]⟩
    | none =>
      refine logic.bind asked ?_
      rintro _ ⟨present, url, known, followed, rfl⟩
      exact logic.pure ⟨_, ⟨present, url, known, followed, rfl⟩, by simp⟩

theorem step_holds (key : String) (item : Step) (number : Nat) :
    logic.Holds (step settings registry key number item) fun found => ∃ remark,
      Explains law settings.internalNamespace key item number remark ∧
      found = stepPart settings key item number remark := by
  unfold step Explains stepPart
  cases item.uses with
  | none =>
    have nothing : logic.Holds (pure []) (· = ([] : List Finding)) := logic.pure rfl
    refine logic.bind nothing ?_
    rintro _ rfl
    exact logic.pure ⟨none, rfl, rfl⟩
  | some text =>
    refine logic.bind (uses_holds settings answers key number text) ?_
    rintro _ ⟨remark, explained, rfl⟩
    exact logic.pure ⟨remark, explained, rfl⟩

theorem job_holds (entry : String × Job) :
    logic.Holds (job settings registry entry.1 entry.2) fun found =>
      ∃ remarks : Nat → Option Finding,
        (∀ step number, (step, number) ∈ entry.2.steps.zipIdx 1 →
          Explains law settings.internalNamespace entry.1 step number (remarks number)) ∧
        found = jobPart settings entry remarks := by
  unfold job
  rw [steps_eq_collectFrom]
  refine logic.bind (collectFrom_holds logic 1 entry.2.steps fun item number _ =>
    step_holds settings answers entry.1 item number) ?_
  rintro _ ⟨remarks, explained, rfl⟩
  exact logic.pure ⟨remarks, explained, rfl⟩

/-- Whatever a registry answers, the findings are assembled from the document and from remarks that
these answers explain. -/
theorem findings_holds (workflow : Workflow) :
    logic.Holds (workflow.findings settings registry) fun found => ∃ remarks,
      workflow.Explained law settings.internalNamespace remarks ∧
      found = workflow.assemble settings remarks := by
  unfold Workflow.findings
  rw [collect_eq_collectFrom _ 0]
  refine logic.bind (collectFrom_holds logic 0 _ fun entry _ _ => job_holds settings answers entry) ?_
  rintro _ ⟨remarks, explained, rfl⟩
  exact logic.pure ⟨remarks, explained, rfl⟩

end Rules

section Exact

variable {m : Type → Type} [Monad m] {logic : ResultLogic m} {registry : ActionRegistry m}

def Rules.AnswerLaw.exactly (other : ActionRegistry Id) : Rules.AnswerLaw where
  present reference present := present = other.isPresent reference
  update reference url := url = other.updateUrl reference

theorem Rules.answers_exactly (other : ActionRegistry Id) :
    Rules.Answers ResultLogic.ofId other (.exactly other) where
  present _ := rfl
  update _ := rfl

/-- Either no reference of the step is looked up, and there is no remark; or the remark is the one that
the answers lead to. -/
theorem Rules.explains_cases {law : Rules.AnswerLaw} {owners key : String} {step : Step} {number : Nat}
    {remark : Option Finding} (explained : Rules.Explains law owners key step number remark) :
    ((∀ text, step.uses = some text → Rules.lookedUp? owners text = none) ∧ remark = none) ∨
    ∃ text action present url, step.uses = some text ∧ Rules.lookedUp? owners text = some action ∧
      law.present (.remote action) present ∧ (present = true → law.update (.remote action) url) ∧
      remark = Rules.remarkFor key number text present url := by
  cases used : step.uses with
  | none =>
    simp only [Rules.Explains, used] at explained
    exact .inl ⟨by simp, explained⟩
  | some text =>
    simp only [Rules.Explains, Rules.ExplainsUse, used] at explained
    cases found : Rules.lookedUp? owners text with
    | none =>
      simp only [found] at explained
      exact .inl ⟨by simp [found], explained⟩
    | some action =>
      simp only [found] at explained
      obtain ⟨present, url, known, followed, same⟩ := explained
      exact .inr ⟨text, action, present, url, rfl, found, known, followed, same⟩

theorem Rules.explains_exactly_unique {other : ActionRegistry Id} {owners key : String} {step : Step}
    {number : Nat} {first second : Option Finding}
    (left : Rules.Explains (.exactly other) owners key step number first)
    (right : Rules.Explains (.exactly other) owners key step number second) : first = second := by
  rcases Rules.explains_cases left with
    ⟨unasked, rfl⟩ | ⟨text, action, present, url, used, found, known, followed, rfl⟩
  -- Whether there is a lookup is a matter of the document, so the mixed cases cannot be.
  · rcases Rules.explains_cases right with ⟨_, rfl⟩ | ⟨text, action, _, _, used, found, _⟩
    · rfl
    · cases (unasked text used).symm.trans found
  · rcases Rules.explains_cases right with
      ⟨unasked, _⟩ | ⟨text', action', present', url', used', found', known', followed', rfl⟩
    · cases (unasked text used).symm.trans found
    · obtain rfl : text = text' := Option.some.inj (used.symm.trans used')
      obtain rfl : action = action' := Option.some.inj (found.symm.trans found')
      obtain rfl : present = present' := known.trans known'.symm
      cases present with
      | false => rfl
      | true => rw [followed rfl, followed' rfl]

theorem Workflow.assemble_congr (settings : RuleSettings) {first second : Nat → Nat → Option Finding}
    (workflow : Workflow)
    (same : ∀ entry place, (entry, place) ∈ workflow.entries.zipIdx →
      ∀ step number, (step, number) ∈ entry.2.steps.zipIdx 1 → first place number = second place number) :
    workflow.assemble settings first = workflow.assemble settings second := by
  unfold Workflow.assemble
  refine congrArg (Rules.workflowName workflow.name ++ ·) (List.flatMap_congr fun entry member => ?_)
  refine congrArg (_ ++ ·) (List.flatMap_congr fun step numbered => ?_)
  rw [same entry.1 entry.2 member step.1 step.2 numbered]

theorem Rules.findings_exactly {other : ActionRegistry Id} (settings : RuleSettings)
    (answers : Rules.Answers logic registry (.exactly other)) (workflow : Workflow) :
    logic.Holds (workflow.findings settings registry)
      (· = (workflow.findings settings other : Id (List Finding))) := by
  obtain ⟨remarks, explained, assembled⟩ :=
    Rules.findings_holds settings (Rules.answers_exactly other) workflow
  refine logic.mono ?_ (Rules.findings_holds settings answers workflow)
  rintro _ ⟨others, othersExplained, rfl⟩
  rw [assembled]
  exact workflow.assemble_congr settings fun entry place member step number numbered =>
    Rules.explains_exactly_unique (othersExplained entry place member step number numbered)
      (explained entry place member step number numbered)

end Exact

end WorkflowLint

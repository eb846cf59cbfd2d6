import WorkflowLint.Proofs.Rules.Levels

/-! What a registry adds to the findings without a network.

It adds at most one remark to each step whose reference is looked up, and nothing that it answers moves,
hides or changes any other finding. So the findings without a network are what remains of those with any
registry once the remarks are taken out. -/

set_option autoImplicit false

namespace WorkflowLint

namespace Rules

/-- One of the two remarks that a registry can lead to on a step. It needs a remote reference with a
complete path. -/
def IsRemark (owners key : String) (step : Step) (number : Nat) (finding : Finding) : Prop :=
  ∃ text action, step.uses = some text ∧ ActionRef.parse text = .remote action ∧
    pathProblem owners action = none ∧
    (finding = missingAction key number text ∨ ∃ url, finding = outdatedAction key number url)

def AnswerLaw.anything : AnswerLaw where
  present _ _ := True
  update _ _ := True

theorem isRemark_of_explains {law : AnswerLaw} {owners key : String} {step : Step} {number : Nat}
    {remark : Option Finding} (explained : Explains law owners key step number remark)
    {finding : Finding} (given : remark = some finding) : IsRemark owners key step number finding := by
  subst given
  obtain ⟨_, same⟩ | ⟨text, action, present, url, used, found, _, _, same⟩ := explains_cases explained
  · cases same
  · obtain ⟨parsed, complete⟩ := lookedUp?_eq_some.mp found
    refine ⟨text, action, used, parsed, complete, ?_⟩
    cases present with
    | false => exact .inl (Option.some.inj same)
    | true =>
      obtain ⟨url, _, same⟩ := Option.map_eq_some_iff.mp same.symm
      exact .inr ⟨url, same.symm⟩

theorem explains_offline {owners key : String} {step : Step} {number : Nat} {remark : Option Finding}
    (explained : Explains (.exactly .offline) owners key step number remark) : remark = none := by
  obtain ⟨_, same⟩ | ⟨text, action, present, url, used, found, known, followed, rfl⟩ :=
    explains_cases explained
  · exact same
  · obtain rfl : present = true := known
    obtain rfl : url = none := followed rfl
    rfl

section Kinds

variable {owners key : String} {step : Step} {number : Nat} {finding : Finding}

theorem Plain.not_isRemark (plain : Plain finding) : ¬IsRemark owners key step number finding := by
  rintro ⟨_, _, _, _, _, rfl | ⟨url, rfl⟩⟩
  · cases plain.level
  · exact plain.start (by simp [outdatedAction, Finding.warning])

theorem Bracketed.not_isRemark (bracketed : Bracketed finding) :
    ¬IsRemark owners key step number finding := by
  rintro ⟨text, _, _, _, _, rfl | ⟨url, rfl⟩⟩
  · -- Errors on the text of a reference end in a bracket, this one in a full stop.
    have ending : (missingAction key number text).description.toList.getLast? = some '.' := by
      rw [missingAction, Finding.error, String.toList_append]
      exact List.getLast?_concat
    cases bracketed.ending.symm.trans ending
  · cases bracketed.level

end Kinds

section Keeping

variable {keep : Finding → Bool} (keepsPlain : ∀ finding, Plain finding → keep finding = true)
  (keepsBracketed : ∀ finding, Bracketed finding → keep finding = true)
include keepsPlain keepsBracketed

theorem stepPart_filter (settings : RuleSettings) (key : String) (step : Step) (number : Nat)
    {remark : Option Finding} (dropped : ∀ finding, remark = some finding → keep finding = false) :
    (stepPart settings key step number remark).filter keep = stepPart settings key step number none := by
  have named := List.filter_eq_self.mpr fun finding found =>
    keepsPlain finding (plain_stepName key number step.name finding found)
  have scripted := List.filter_eq_self.mpr fun finding found =>
    keepsPlain finding (plain_script key number step.run finding found)
  have referred : ((step.uses.map (written settings key number)).getD []).filter keep =
      (step.uses.map (written settings key number)).getD [] := by
    refine List.filter_eq_self.mpr fun finding found => keepsBracketed finding ?_
    cases used : step.uses with
    | none => simp [used] at found
    | some text =>
      simp only [used, Option.map_some, Option.getD_some] at found
      exact bracketed_written settings key number text finding found
  have remarked : remark.toList.filter keep = (none : Option Finding).toList :=
    List.filter_eq_nil_iff.mpr fun finding found => by
      simp [dropped finding (Option.mem_toList.mp found)]
  unfold stepPart
  simp only [List.filter_append, named, scripted, referred, remarked]

theorem jobPart_filter (settings : RuleSettings) (entry : String × Job) {remarks : Nat → Option Finding}
    (dropped : ∀ step number, (step, number) ∈ entry.2.steps.zipIdx 1 →
      ∀ finding, remarks number = some finding → keep finding = false) :
    (jobPart settings entry remarks).filter keep = jobPart settings entry fun _ => none := by
  have pinned := List.filter_eq_self.mpr fun finding found =>
    keepsPlain finding (plain_runner settings entry.2.runsOn finding found)
  have named := List.filter_eq_self.mpr fun finding found =>
    keepsPlain finding (plain_jobName entry.1 entry.2.name finding found)
  have underscored := List.filter_eq_self.mpr fun finding found =>
    keepsPlain finding (plain_environment entry.1 entry.2.env finding found)
  unfold jobPart
  simp only [List.filter_append, List.filter_flatMap, pinned, named, underscored]
  refine congrArg (_ ++ ·) (List.flatMap_congr fun numbered member => ?_)
  exact stepPart_filter keepsPlain keepsBracketed settings entry.1 numbered.1 numbered.2
    (dropped numbered.1 numbered.2 member)

end Keeping

end Rules

namespace Workflow

def IsRemark (owners : String) (workflow : Workflow) (finding : Finding) : Prop :=
  ∃ entry ∈ workflow.entries, ∃ numbered ∈ entry.2.steps.zipIdx 1,
    Rules.IsRemark owners entry.1 numbered.1 numbered.2 finding

noncomputable def withoutRemarks (owners : String) (workflow : Workflow) (findings : List Finding) :
    List Finding :=
  open scoped Classical in findings.filter fun finding => ¬workflow.IsRemark owners finding

/-- Each remark stands on a step that the registry was asked for. -/
def Remarked (owners : String) (remarks : Nat → Nat → Option Finding) (workflow : Workflow) : Prop :=
  ∀ entry place, (entry, place) ∈ workflow.entries.zipIdx →
    ∀ step number, (step, number) ∈ entry.2.steps.zipIdx 1 →
      ∀ finding, remarks place number = some finding →
        Rules.IsRemark owners entry.1 step number finding

theorem withoutRemarks_assemble (settings : RuleSettings) {workflow : Workflow}
    {remarks : Nat → Nat → Option Finding}
    (remarked : workflow.Remarked settings.internalNamespace remarks) :
    workflow.withoutRemarks settings.internalNamespace (workflow.assemble settings remarks) =
      workflow.assemble settings fun _ _ => none := by
  classical
  have keepsPlain : ∀ finding, Rules.Plain finding →
      decide (¬workflow.IsRemark settings.internalNamespace finding) = true := fun finding plain =>
    decide_eq_true fun ⟨_, _, _, _, isRemark⟩ => plain.not_isRemark isRemark
  have keepsBracketed : ∀ finding, Rules.Bracketed finding →
      decide (¬workflow.IsRemark settings.internalNamespace finding) = true := fun finding bracketed =>
    decide_eq_true fun ⟨_, _, _, _, isRemark⟩ => bracketed.not_isRemark isRemark
  have named := List.filter_eq_self.mpr fun finding found =>
    keepsPlain finding (Rules.plain_workflowName workflow.name finding found)
  unfold withoutRemarks assemble
  rw [List.filter_append, List.filter_flatMap, named]
  refine congrArg (_ ++ ·) (List.flatMap_congr fun placed member => ?_)
  refine Rules.jobPart_filter keepsPlain keepsBracketed settings placed.1
    fun step number numbered finding given => decide_eq_false (not_not.mpr ?_)
  exact ⟨placed.1, List.fst_mem_of_mem_zipIdx member, (step, number), numbered,
    remarked placed.1 placed.2 member step number numbered finding given⟩

/-- Without a network there are no remarks. -/
theorem findings_offline (settings : RuleSettings) (workflow : Workflow) :
    (workflow.findings settings .offline : Id (List Finding)) =
      workflow.assemble settings fun _ _ => none := by
  obtain ⟨remarks, explained, assembled⟩ :=
    Rules.findings_holds settings (Rules.answers_exactly .offline) workflow
  rw [assembled]
  exact workflow.assemble_congr settings fun entry place member step number numbered =>
    Rules.explains_offline (explained entry place member step number numbered)

theorem findings_remarked {σ : Type} (settings : RuleSettings) (workflow : Workflow)
    (registry : ActionRegistry (StateM σ)) (state : σ) :
    ∃ remarks, workflow.Remarked settings.internalNamespace remarks ∧
      ((workflow.findings settings registry).run state).1 = workflow.assemble settings remarks := by
  have answers : Rules.Answers (.ofState σ) registry .anything :=
    ⟨fun _ _ => trivial, fun _ _ => trivial⟩
  obtain ⟨remarks, explained, assembled⟩ := Rules.findings_holds settings answers workflow state
  exact ⟨remarks, fun entry place member step number numbered finding given =>
    Rules.isRemark_of_explains (explained entry place member step number numbered) given, assembled⟩

/-- With any registry, whatever it answers and remembers, the findings are those without a network and
between them at most one remark for each step, where it is asked for a remote reference with a complete
path. So they contain the findings without a network in order, weigh no less, and differ from those with
any other registry by remarks alone. -/
theorem registry_only_adds {σ : Type} (settings : RuleSettings) (registry : ActionRegistry (StateM σ))
    (workflow : Workflow) (state : σ) :
    let online := ((workflow.findings settings registry).run state).1
    let offline := (workflow.findings settings .offline : Id (List Finding))
    (∃ remarks, workflow.Remarked settings.internalNamespace remarks ∧
      online = workflow.assemble settings remarks ∧
      offline = workflow.assemble settings fun _ _ => none) ∧
    List.Sublist offline online ∧
    workflow.withoutRemarks settings.internalNamespace online = offline ∧
    (∀ (τ : Type) (other : ActionRegistry (StateM τ)) (state' : τ),
      workflow.withoutRemarks settings.internalNamespace online =
        workflow.withoutRemarks settings.internalNamespace
          ((workflow.findings settings other).run state').1) ∧
    (Finding.severity offline).rank ≤ (Finding.severity online).rank := by
  intro online offline
  have cleaned : ∀ (τ : Type) (other : ActionRegistry (StateM τ)) (state' : τ),
      workflow.withoutRemarks settings.internalNamespace ((workflow.findings settings other).run state').1 =
        offline := by
    intro τ other state'
    obtain ⟨remarks, remarked, assembled⟩ := workflow.findings_remarked settings other state'
    rw [assembled, withoutRemarks_assemble settings remarked]
    exact (workflow.findings_offline settings).symm
  -- What a filter leaves is a sublist.
  have included : List.Sublist offline online := by
    rw [← cleaned σ registry state]
    exact List.filter_sublist
  obtain ⟨remarks, remarked, assembled⟩ := workflow.findings_remarked settings registry state
  refine ⟨⟨remarks, remarked, assembled, workflow.findings_offline settings⟩, included,
    cleaned σ registry state, ?_, Finding.severity_rank_le_of_sublist included⟩
  intro τ other state'
  exact (cleaned σ registry state).trans (cleaned τ other state').symm

end Workflow

end WorkflowLint

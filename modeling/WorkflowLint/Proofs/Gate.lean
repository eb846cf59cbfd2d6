import WorkflowLint.Proofs.Rules.Levels
import WorkflowLint.Proofs.SideBySide

/-! Which files fail a run.

A run exits with code 2 for a file that does not load and for a reference that has to be rejected, and
for nothing else. What has to be rejected is told here by the text of the reference, by how many segments
its path has, and by whether the registry knows it. -/

set_option autoImplicit false

namespace WorkflowLint

namespace Rules

/-- A full commit hash: forty small hexadecimal digits. -/
def IsCommitHash (revision : List Char) : Prop :=
  revision.length = 40 ∧ ∀ c ∈ revision, c ∈ "0123456789abcdef".toList

def neededSegments (owners : String) (action : RemoteAction) : Nat :=
  if owners ≠ "" ∧ RemoteAction.foldCase action.owner = RemoteAction.foldCase owners then 3 else 2

/-- A reference that fails a run, where `present` says which actions there are. -/
def Rejected (owners : String) (present : ActionRef → Bool) (text : String) : Prop :=
  ¬['.', '/'] <:+: text.toList ∧
    ('@' ∉ text.toList ∨
      (∃ path revision, text.toList = path ++ '@' :: revision ∧ '@' ∉ revision ∧
        ¬IsCommitHash revision) ∨
      (∃ action, ActionRef.parse text = .remote action ∧
        action.segmentCount < neededSegments owners action) ∨
      present (ActionRef.parse text) = false)

/-- The law of answering whether actions exist by `present`, and on updates at will. -/
def AnswerLaw.presentBy (present : ActionRef → Bool) : AnswerLaw where
  present reference found := found = present reference
  update _ _ := True

theorem isHexDigit_iff (c : Char) : RemoteAction.isHexDigit c = true ↔ c ∈ "0123456789abcdef".toList := by
  -- Both sides are conditions on the number of the character.
  have le_iff : ∀ first last : Char, first ≤ last ↔ first.toNat ≤ last.toNat := fun _ _ => Iff.rfl
  have listed : "0123456789abcdef".toList =
      ['0', '1', '2', '3', '4', '5', '6', '7', '8', '9', 'a', 'b', 'c', 'd', 'e', 'f'] := by rfl
  simp only [RemoteAction.isHexDigit, listed, Bool.or_eq_true, Bool.and_eq_true, decide_eq_true_eq,
    le_iff, List.mem_cons, List.not_mem_nil, or_false, ← Char.toNat_inj, Char.reduceToNat]
  omega

theorem isCommitHash_iff (action : RemoteAction) :
    IsCommitHash action.revision.toList ↔
      action.hasFullRevision = true ∧ action.hasHexRevision = true := by
  unfold IsCommitHash RemoteAction.hasFullRevision RemoteAction.hasHexRevision
  simp only [beq_iff_eq, RemoteAction.revisionLength, Bool.and_eq_true, List.all_eq_true,
    isHexDigit_iff, String.length_toList]
  constructor
  · rintro ⟨full, digits⟩
    have given : action.revision.isEmpty = false := by
      rw [Bool.eq_false_iff, ne_eq, String.isEmpty_iff]
      intro empty
      simp [empty] at full
    exact ⟨full, by simp [given], digits⟩
  · rintro ⟨full, _, digits⟩
    exact ⟨full, digits⟩

theorem revision_hasError (key : String) (number : Nat) (action : RemoteAction) :
    Finding.HasError (revision key number action) ↔ ¬IsCommitHash action.revision.toList := by
  rw [isCommitHash_iff]
  unfold revision
  cases action.hasFullRevision <;> cases action.hasHexRevision <;> simp [hashError, Finding.error]

theorem pathProblem_eq_none (owners : String) (action : RemoteAction) :
    pathProblem owners action = none ↔ ¬action.segmentCount < neededSegments owners action := by
  have internal : action.isInternal owners = true ↔
      owners ≠ "" ∧ RemoteAction.foldCase action.owner = RemoteAction.foldCase owners := by
    simp [RemoteAction.isInternal]
  unfold pathProblem neededSegments
  simp only [internal]
  split
  · split <;> simp [*]
  · split <;> simp [*]

theorem remarkFor_hasError (key : String) (number : Nat) (text : String) (found : Bool)
    (url : Option String) :
    Finding.HasError (remarkFor key number text found url).toList ↔ found = false := by
  cases found with
  | false => simp [remarkFor, missingAction, Finding.error]
  | true => cases url <;> simp [remarkFor, outdatedAction, Finding.warning]

section Reference

variable {owners text : String} {present : ActionRef → Bool}

theorem rejected_remote {path revision : List Char} {action : RemoteAction}
    (unmarked : ¬ActionRef.inTreeMarker <:+: text.toList)
    (cut : text.toList = path ++ '@' :: revision) (last : '@' ∉ revision)
    (parsed : ActionRef.parse text = .remote action) :
    Rejected owners present text ↔ ¬IsCommitHash revision ∨
      action.segmentCount < neededSegments owners action ∨ present (.remote action) = false := by
  unfold Rejected
  rw [parsed]
  constructor
  · rintro ⟨_, bare | ⟨path', revision', cut', last', unhashed⟩ | ⟨action', same, short⟩ | missing⟩
    · exact absurd (cut ▸ by simp) bare
    · -- There is one last `@` only, so both cuts are the same.
      have same := (Text.cutLast_append path last).symm.trans (cut ▸ cut' ▸ Text.cutLast_append path' last')
      cases same
      exact .inl unhashed
    · cases same
      exact .inr (.inl short)
    · exact .inr (.inr missing)
  · rintro (unhashed | short | missing)
    · exact ⟨unmarked, .inr (.inl ⟨path, revision, cut, last, unhashed⟩)⟩
    · exact ⟨unmarked, .inr (.inr (.inl ⟨action, rfl, short⟩))⟩
    · exact ⟨unmarked, .inr (.inr (.inr missing))⟩

/-- A reference leads to an error, by its text or by what the registry says, just when it is to be
rejected. -/
theorem use_hasError (settings : RuleSettings) {key : String} {number : Nat} {remark : Option Finding}
    (explained : ExplainsUse (.presentBy present) settings.internalNamespace key number text remark) :
    Finding.HasError (written settings key number text ++ remark.toList) ↔
      Rejected settings.internalNamespace present text := by
  obtain ⟨marked, parsed⟩ | ⟨unmarked, bare, parsed⟩ |
    ⟨unmarked, path, revision, cut, last, parsed⟩ := ActionRef.parse_cases text
  · simp only [ExplainsUse, lookedUp?, parsed] at explained
    have accepted : ¬Rejected settings.internalNamespace present text := fun rejected =>
      rejected.1 marked
    simp [written, parsed, explained, accepted]
  · simp only [ExplainsUse, lookedUp?, parsed] at explained
    have rejected : Rejected settings.internalNamespace present text := ⟨unmarked, .inl bare⟩
    simp [written, parsed, explained, rejected, hashError, Finding.error]
  · rw [rejected_remote unmarked cut last parsed]
    simp only [ExplainsUse, lookedUp?, parsed, written] at explained ⊢
    rw [Finding.hasError_append, Finding.hasError_append, revision_hasError,
      RemoteAction.ofParts_revision, String.toList_ofList]
    have complete := pathProblem_eq_none settings.internalNamespace
      (RemoteAction.ofParts text path revision)
    cases problem : pathProblem settings.internalNamespace (RemoteAction.ofParts text path revision) with
    -- The path error is there whether or not the action is present, which nobody asked.
    | some problem' =>
      simp only [problem, Option.isNone_some, Bool.false_eq_true, if_false] at explained
      have short := not_not.mp (mt complete.mpr (by simp [problem]))
      simp [explained, short, pathError, Finding.error]
    | none =>
      simp only [problem, Option.isNone_none, if_true] at explained
      obtain ⟨_, url, rfl, _, rfl⟩ := explained
      simp [remarkFor_hasError, complete.mp problem]

end Reference

/-- Of all that is said about a step, only its reference can fail a run. -/
theorem step_hasError (settings : RuleSettings) {present : ActionRef → Bool} {key : String} {step : Step}
    {number : Nat} {remark : Option Finding}
    (explained : Explains (.presentBy present) settings.internalNamespace key step number remark) :
    Finding.HasError (stepPart settings key step number remark) ↔
      ∃ text, step.uses = some text ∧ Rejected settings.internalNamespace present text := by
  have named := Plain.not_hasError (plain_stepName key number step.name)
  have scripted := Plain.not_hasError (plain_script key number step.run)
  unfold stepPart Explains at *
  cases used : step.uses with
  | none =>
    simp only [used] at explained
    simp [named, scripted, explained]
  | some text =>
    simp only [used] at explained
    simpa [named, scripted] using use_hasError settings explained

/-- What holds at some place is what holds of some item, where the place does not matter. -/
theorem exists_zipIdx {α : Type} {start : Nat} {items : List α} (placed : α → Nat → Prop)
    (plain : α → Prop)
    (same : ∀ item place, (item, place) ∈ items.zipIdx start → (placed item place ↔ plain item)) :
    (∃ entry ∈ items.zipIdx start, placed entry.1 entry.2) ↔ ∃ item ∈ items, plain item := by
  constructor
  · rintro ⟨⟨item, place⟩, member, holds⟩
    exact ⟨item, List.fst_mem_of_mem_zipIdx member, (same item place member).mp holds⟩
  · rintro ⟨item, member, holds⟩
    rw [← List.zipIdx_map_fst start items] at member
    obtain ⟨⟨item, place⟩, inside, rfl⟩ := List.mem_map.mp member
    exact ⟨(item, place), inside, (same item place inside).mpr holds⟩

theorem jobPart_hasError (settings : RuleSettings) {present : ActionRef → Bool} {entry : String × Job}
    {remarks : Nat → Option Finding}
    (explained : ∀ step number, (step, number) ∈ entry.2.steps.zipIdx 1 →
      Explains (.presentBy present) settings.internalNamespace entry.1 step number (remarks number)) :
    Finding.HasError (jobPart settings entry remarks) ↔
      ∃ step ∈ entry.2.steps, ∃ text, step.uses = some text ∧
        Rejected settings.internalNamespace present text := by
  have pinned := Plain.not_hasError (plain_runner settings entry.2.runsOn)
  have named := Plain.not_hasError (plain_jobName entry.1 entry.2.name)
  have underscored := Plain.not_hasError (plain_environment entry.1 entry.2.env)
  unfold jobPart
  simp only [Finding.hasError_append, Finding.hasError_flatMap, pinned, named, underscored, false_or]
  exact exists_zipIdx
    (fun step number => Finding.HasError (stepPart settings entry.1 step number (remarks number))) _
    fun step number member => step_hasError settings (explained step number member)

end Rules

def Workflow.Rejected (owners : String) (present : ActionRef → Bool) (workflow : Workflow) : Prop :=
  ∃ entry ∈ workflow.entries, ∃ step ∈ entry.2.steps, ∃ text, step.uses = some text ∧
    Rules.Rejected owners present text

theorem Workflow.assemble_hasError (settings : RuleSettings) {present : ActionRef → Bool}
    {workflow : Workflow} {remarks : Nat → Nat → Option Finding}
    (explained : workflow.Explained (.presentBy present) settings.internalNamespace remarks) :
    Finding.HasError (workflow.assemble settings remarks) ↔
      workflow.Rejected settings.internalNamespace present := by
  have named := Rules.Plain.not_hasError (Rules.plain_workflowName workflow.name)
  unfold Workflow.assemble
  rw [Finding.hasError_append, Finding.hasError_flatMap, or_iff_right named]
  exact Rules.exists_zipIdx
    (fun entry place => Finding.HasError (Rules.jobPart settings entry (remarks place))) _
    fun entry place member => Rules.jobPart_hasError settings (explained entry place member)

theorem Workflow.load_error {files : FileSystem} {path : Path} :
    (∃ cause, Workflow.load files path = .error cause) ↔
      (∃ cause, files.readText path = .error cause) ∨
        ∃ text cause, files.readText path = .ok text ∧ Workflow.ofYaml text = .error cause := by
  unfold Workflow.load
  cases files.readText path with
  | error cause => simp
  | ok text => cases loaded : Workflow.ofYaml text <;> simp [loaded]

namespace Lint

open Registry (Pool direct)

/-- A file fails a run when it does not load, and for a reference in it. -/
def Fails (files : FileSystem) (rules : RuleSettings) (present : ActionRef → Bool) (path : Path) : Prop :=
  (∃ cause, files.readText path = .error cause) ∨
    (∃ text cause, files.readText path = .ok text ∧ Workflow.ofYaml text = .error cause) ∨
    ∃ workflow, Workflow.load files path = .ok workflow ∧
      workflow.Rejected rules.internalNamespace present

section Results

variable {m : Type → Type} [Monad m] {logic : ResultLogic m} {registry : ActionRegistry m}
  {present : ActionRef → Bool} (answers : Rules.Answers logic registry (.presentBy present))
  (files : FileSystem) (rules : RuleSettings) (base : Path)
include answers

theorem fileReport_severity (path : Path) :
    logic.Holds (fileReport files rules registry base path) fun report =>
      report.severity = .error ↔ Fails files rules present path := by
  have found : logic.Holds (fileFindings files rules registry path) fun findings =>
      Finding.HasError findings ↔ Fails files rules present path := by
    unfold fileFindings Fails
    rw [← or_assoc, ← Workflow.load_error]
    cases Workflow.load files path with
    | error cause => exact logic.pure (by simp [LoadError.finding, Finding.error])
    | ok workflow =>
      refine logic.mono ?_ (Rules.findings_holds rules answers workflow)
      rintro _ ⟨remarks, explained, rfl⟩
      simpa using Workflow.assemble_hasError rules explained
  refine logic.mono ?_ (fileReport_holds path found)
  rintro _ ⟨findings, same, rfl⟩
  exact (Finding.severity_eq_error findings).trans same

theorem run_exitCode (strict : Bool) (paths : List Path) :
    logic.Holds (run files rules registry base paths) fun report =>
      report.severity.exitCode strict = 2 ↔ ∃ path ∈ paths, Fails files rules present path := by
  refine logic.bind (fileReports_holds paths fun path _ =>
    fileReport_severity answers files rules base path) fun reports each => logic.pure ?_
  rw [Severity.exitCode_eq_two]
  refine (Report.severityOf_eq_error reports).trans ?_
  induction each with
  | nil => simp
  | cons same _ ih => simp [same, ih]

end Results

/-- A run exits with code 2 just when one of its files does not load or has a reference to be rejected:
no `@`, no full commit hash, an incomplete path, or an action that is not present. This is so for every
registry that always answers alike whether an action exists, whatever else it answers and remembers,
and for files linted side by side under every schedule. -/
theorem exitCode_two_iff (files : FileSystem) (rules : RuleSettings) (strict : Bool) (base : Path)
    (paths : List Path) :
    (∀ (σ : Type) (registry : ActionRegistry (StateM σ)) (present : ActionRef → Bool),
      (∀ reference state, ((registry.isPresent reference).run state).1 = present reference) →
      ∀ state, ((run files rules registry base paths).run state).1.severity.exitCode strict = 2 ↔
        ∃ path ∈ paths, Fails files rules present path) ∧
    ∀ (settings : Registry.Settings) (answer : String → Registry.Reply) (pool : Pool FileReport)
      (reports : List FileReport),
      Pool.Runs (fun url reply => reply = answer url) (sharedWork files rules settings base paths) pool →
      pool.Finished reports →
      ((Report.ofFiles reports).severity.exitCode strict = 2 ↔
        ∃ path ∈ paths, Fails files rules (direct settings answer).isPresent path) := by
  constructor
  · intro σ registry present fixed state
    have answers : Rules.Answers (.ofState σ) registry (.presentBy present) :=
      ⟨fun text => fixed (ActionRef.parse text), fun _ _ => trivial⟩
    exact run_exitCode answers files rules base strict paths state
  · intro settings answer pool reports schedule finished
    have answers : Rules.Answers .ofId (direct settings answer)
        (.presentBy (direct settings answer).isPresent) := ⟨fun _ => rfl, fun _ => trivial⟩
    obtain rfl := (sharedWork_settles files rules settings answer base paths).settled pool reports
      schedule finished
    rw [ofFiles_reportAlone]
    exact run_exitCode answers files rules base strict paths

def pinnedFiles : FileSystem where
  root := .directory [("ci.yml",
    .file "jobs: {a: {steps: [{uses: o/r@0123456789012345678901234567890123456789}]}}".toUTF8)]
  workingDirectory := []

theorem pinnedFiles_fails {present : ActionRef → Bool}
    (missing : present (ActionRef.parse "o/r@0123456789012345678901234567890123456789") = false) :
    Fails pinnedFiles {} present ⟨"ci.yml"⟩ := by
  let step : Step := { uses := some "o/r@0123456789012345678901234567890123456789" }
  let workflow : Workflow := { jobs := some [("a", { steps := [step] })] }
  have loaded : (Workflow.load pinnedFiles ⟨"ci.yml"⟩).toOption = some workflow := by decide +kernel
  refine .inr (.inr ⟨workflow, ?_, ("a", { steps := [step] }), .head _, step, .head _, _, rfl, ?_, ?_⟩)
  · cases found : Workflow.load pinnedFiles ⟨"ci.yml"⟩ with
    | error cause => simp [found, Except.toOption] at loaded
    | ok other => simpa [found, Except.toOption] using loaded
  · exact mt Text.occursIn_iff.mpr (by decide)
  · exact .inr (.inr (.inr missing))

/-- A registry that counts the questions, and knows of no action, fails a pinned one; so does the one that
remembers, when every request finds nothing. -/
theorem exitCode_pinnedFiles :
    let counting : ActionRegistry (StateM Nat) :=
      { isPresent := fun _ => modifyGet fun asked => (false, asked + 1)
        newest := fun _ => modifyGet fun asked => (none, asked + 1)
        commitUrl := Registry.commitUrl Registry.defaultWebUrl }
    ((run pinnedFiles {} counting ⟨"/"⟩ [⟨"ci.yml"⟩]).run 0).1.severity.exitCode false = 2 ∧
    ∃ pool reports,
      Pool.Runs (fun _ reply => reply = .error .notFound)
        (sharedWork pinnedFiles {} {} ⟨"/"⟩ [⟨"ci.yml"⟩]) pool ∧
      pool.Finished reports ∧ (Report.ofFiles reports).severity.exitCode false = 2 := by
  intro counting
  have decided := exitCode_two_iff pinnedFiles {} false ⟨"/"⟩ [⟨"ci.yml"⟩]
  constructor
  · refine (decided.1 Nat counting (fun _ => false) (fun _ _ => rfl) 0).mpr ?_
    exact ⟨_, .head _, pinnedFiles_fails rfl⟩
  · let missing : String → Registry.Reply := fun _ => .error .notFound
    let stable : String → Registry.Reply → Prop := fun url reply => reply = missing url
    have replied : ∀ url (state : Unit), stable url (Registry.Transport.fixed missing url state).1 :=
      fun _ _ => rfl
    obtain ⟨pool, schedule, finished⟩ := Pool.runs_inOrder replied
      (sharedWork pinnedFiles {} {} ⟨"/"⟩ [⟨"ci.yml"⟩]).tasks .empty ()
    refine ⟨pool, _, schedule, finished, ?_⟩
    refine (decided.2 {} missing pool _ schedule finished).mpr ?_
    exact ⟨_, .head _, pinnedFiles_fails (by decide +kernel)⟩

end Lint

end WorkflowLint

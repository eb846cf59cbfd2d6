import WorkflowLint.Lint
import WorkflowLint.Proofs.Registry.Pool
import WorkflowLint.Proofs.Registry.Remembering

/-! Linting files side by side on one memo.

The main statement is that sharing the memo cannot be told from the reports: under stable replies each
file gets, in its place, the report it gets alone from a registry that remembers nothing. -/

set_option autoImplicit false

namespace WorkflowLint.Lint

open Registry (Pool Reply Transport direct faithful remembering)

section Files

variable {m : Type → Type} [Monad m] {logic : ResultLogic m} {files : FileSystem}
  {settings : RuleSettings} {registry : ActionRegistry m} {base : Path}

theorem fileReport_holds {post : List Finding → Prop} (path : Path)
    (found : logic.Holds (fileFindings files settings registry path) post) :
    logic.Holds (fileReport files settings registry base path) fun report =>
      ∃ findings, post findings ∧ report = .ofFindings (base.shownFrom path) findings :=
  logic.bind found fun findings holds => logic.pure ⟨findings, holds, rfl⟩

theorem fileReports_holds {post : Path → FileReport → Prop} (paths : List Path)
    (each : ∀ path ∈ paths, logic.Holds (fileReport files settings registry base path) (post path)) :
    logic.Holds (fileReports files settings registry base paths) (List.Forall₂ post paths) := by
  induction paths with
  | nil => exact logic.pure .nil
  | cons path rest ih =>
    refine logic.bind (each path (by simp)) fun first holds => ?_
    refine logic.bind (ih fun other member => each other (List.mem_cons_of_mem _ member)) ?_
    exact fun others hold => logic.pure (.cons holds hold)

theorem fileReport_exactly {other : ActionRegistry Id}
    (answers : Rules.Answers logic registry (.exactly other)) (path : Path) :
    logic.Holds (fileReport files settings registry base path)
      (· = (fileReport files settings other base path : Id FileReport)) := by
  have found : logic.Holds (fileFindings files settings registry path)
      (· = (fileFindings files settings other path : Id (List Finding))) := by
    unfold fileFindings
    cases Workflow.load files path with
    | error cause => exact logic.pure rfl
    | ok workflow => exact Rules.findings_exactly settings answers workflow
  refine logic.mono ?_ (fileReport_holds path found)
  rintro _ ⟨_, rfl, rfl⟩
  rfl

end Files

theorem fileReports_eq_inOrder (files : FileSystem) (settings : RuleSettings)
    (registry : ActionRegistry Registry.Task) (base : Path) (paths : List Path) :
    fileReports files settings registry base paths =
      Registry.Task.inOrder (paths.map (fileReport files settings registry base)) := by
  induction paths with
  | nil => rfl
  | cons path rest ih =>
    rw [List.map_cons, Registry.Task.inOrder, ← ih]
    rfl

theorem run_value {σ : Type} (files : FileSystem) (settings : RuleSettings)
    (registry : ActionRegistry Registry.Task) (base : Path) (paths : List Path)
    (transport : Transport σ) (memo : Registry.Memo) (state : σ) :
    ((run files settings registry base paths).run transport memo state).value =
      .ofFiles ((Registry.Task.inOrder (paths.map (fileReport files settings registry base))).run
        transport memo state).value := by
  rw [← fileReports_eq_inOrder]
  exact congrArg Registry.Task.Outcome.value
    (Registry.Task.run_bind transport _ (fun reports => .done (Report.ofFiles reports)) memo state)

theorem fileReports_id (files : FileSystem) (settings : RuleSettings) (registry : ActionRegistry Id)
    (base : Path) (paths : List Path) :
    (fileReports files settings registry base paths : Id (List FileReport)) =
      paths.map (fileReport files settings registry base : Path → Id FileReport) := by
  induction paths with
  | nil => rfl
  | cons path rest ih => exact congrArg (fileReport files settings registry base path :: ·) ih

/-- The report on a file by a registry that looks up every answer anew. -/
def reportAlone (files : FileSystem) (rules : RuleSettings) (settings : Registry.Settings)
    (answer : String → Reply) (base path : Path) : FileReport :=
  (fileReport files rules (direct settings answer) base path : Id FileReport)

def sharedWork (files : FileSystem) (rules : RuleSettings) (settings : Registry.Settings)
    (base : Path) (paths : List Path) : Pool FileReport :=
  ⟨paths.map (fileReport files rules (remembering settings) base), .empty⟩

theorem sharedWork_ensures (files : FileSystem) (rules : RuleSettings) (settings : Registry.Settings)
    (answer : String → Reply) (base : Path) (paths : List Path) :
    (sharedWork files rules settings base paths).Ensures (faithful settings answer) fun place report =>
      (paths.map (reportAlone files rules settings answer base))[place]? = some report where
  memo := Registry.Contract.admits_empty _
  tasks place task selected := by
    obtain ⟨path, given, rfl⟩ := Option.map_eq_some_iff.mp ((List.getElem?_map ..) ▸ selected)
    refine (fileReport_exactly (Registry.remembering_answers_directly settings answer) path).mono ?_
    rintro _ rfl
    rw [List.getElem?_map, given]
    rfl

theorem sharedWork_settles (files : FileSystem) (rules : RuleSettings) (settings : Registry.Settings)
    (answer : String → Reply) (base : Path) (paths : List Path) :
    (sharedWork files rules settings base paths).Settles (fun url reply => reply = answer url)
      (paths.map (reportAlone files rules settings answer base)) :=
  (sharedWork_ensures files rules settings answer base paths).settles (by simp [sharedWork])
    fun url => ⟨answer url, rfl⟩

theorem ofFiles_reportAlone (files : FileSystem) (rules : RuleSettings) (settings : Registry.Settings)
    (answer : String → Reply) (base : Path) (paths : List Path) :
    Report.ofFiles (paths.map (reportAlone files rules settings answer base)) =
      (run files rules (direct settings answer) base paths : Id Report) :=
  (congrArg Report.ofFiles (fileReports_id files rules (direct settings answer) base paths)).symm

/-- Under stable replies, files linted side by side on one memo get the same reports under every
schedule: each the one that it gets alone from a registry without memo. So the whole report is that of
such a registry, the order in which a single worker goes through the files is no exception, and a
report changes with nothing but what loading its own file gives. -/
theorem parallel_reports (files : FileSystem) (rules : RuleSettings) (settings : Registry.Settings)
    (answer : String → Reply) (base : Path) (paths : List Path) :
    let stable : String → Reply → Prop := fun url reply => reply = answer url
    let start := sharedWork files rules settings base paths
    let reports := paths.map (reportAlone files rules settings answer base)
    start.Settles stable reports ∧
    Report.ofFiles reports = (run files rules (direct settings answer) base paths : Id Report) ∧
    (∀ (σ : Type) (state : σ),
      ((run files rules (remembering settings) base paths).run (Transport.fixed answer) .empty state).value =
        Report.ofFiles reports) ∧
    ∀ (files' : FileSystem) (path : Path), Workflow.load files' path = Workflow.load files path →
      reportAlone files' rules settings answer base path =
        reportAlone files rules settings answer base path := by
  intro stable start reports
  have settles := sharedWork_settles files rules settings answer base paths
  refine ⟨settles, ofFiles_reportAlone files rules settings answer base paths, ?_, ?_⟩
  · intro σ state
    -- One worker is one of the schedules, so there is nothing left to prove about it.
    have replied : ∀ url (state : σ), stable url (Transport.fixed answer url state).1 :=
      fun _ _ => rfl
    obtain ⟨pool, schedule, finished⟩ := Pool.runs_inOrder replied start.tasks .empty state
    have same := settles.settled pool _ schedule finished
    rw [run_value]
    exact congrArg Report.ofFiles same
  · intro files' path same
    unfold reportAlone fileReport fileFindings
    rw [same]

end WorkflowLint.Lint

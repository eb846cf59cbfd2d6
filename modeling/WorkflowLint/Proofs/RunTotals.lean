import WorkflowLint.Program
import WorkflowLint.Proofs.Gate
import WorkflowLint.Proofs.Report.Document
import WorkflowLint.Proofs.Report.Totals

/-! What the counts, severities, exit code and document of a run have to do with each other.

None of this depends on what a registry answers: each report has the severity of its own findings, in
any monad, and everything else is computed from the reports. -/

set_option autoImplicit false

namespace WorkflowLint

def Summary.exitCode (strict : Bool) (summary : Summary) : Nat :=
  if 0 < summary.errors then 2 else if strict = true ∧ 0 < summary.warnings then 1 else 0

/-- A report on files of these names, whose numbers agree with its findings and whose document tells
everything, the exit code included. -/
structure Report.Agrees (report : Report) (names : List String) : Prop where
  names : report.files.map FileReport.file = names
  tallies : report.Tallies
  document : Report.ofDocument? report.document = some report
  exitCode : ∀ mode coloured strict,
    (Report.ofDocument? report.document).map (fun read => read.summary.exitCode strict) =
      some (Program.printed mode coloured strict report).exitCode

theorem Report.Tallies.exitCode {report : Report} (tallies : report.Tallies) (mode : OutputMode)
    (coloured strict : Bool) :
    (Program.printed mode coloured strict report).exitCode = report.summary.exitCode strict := by
  have printed : (Program.printed mode coloured strict report).exitCode =
      report.severity.exitCode strict := by cases mode <;> rfl
  rw [printed, Summary.exitCode]
  cases severity : report.severity with
  | none =>
    obtain ⟨errors, warnings⟩ := tallies.clean.mp severity
    simp [Severity.exitCode, errors, warnings]
  | warning =>
    obtain ⟨errors, warnings⟩ := tallies.warned.mp severity
    simp [Severity.exitCode, errors, warnings]
  | error =>
    have errors := tallies.failing.mp severity
    simp [Severity.exitCode, errors]

namespace Lint

open Registry (Pool Reply direct)

section Results

variable {m : Type → Type} [Monad m] (files : FileSystem) (rules : RuleSettings)
  (registry : ActionRegistry m) (base : Path)

def ReportsOn (base path : Path) (report : FileReport) : Prop :=
  report.file = base.shownFrom path ∧
    report.severity.IsHeaviestOf (Finding.severities report.findings)

theorem agrees_ofFiles {base : Path} {paths : List Path} {reports : List FileReport}
    (each : List.Forall₂ (ReportsOn base) paths reports) :
    (Report.ofFiles reports).Agrees (paths.map base.shownFrom) := by
  have both : reports.map FileReport.file = paths.map base.shownFrom ∧ Report.Weighed reports := by
    induction each with
    | nil => exact ⟨rfl, nofun⟩
    | cons reported _ ih =>
      refine ⟨?_, ?_⟩
      · rw [List.map_cons, List.map_cons, reported.1, ih.1]
      · rintro file (_ | ⟨_, member⟩)
        · exact reported.2
        · exact ih.2 file member
  have tallies := Report.ofFiles_tallies both.2
  have document := Report.ofDocument?_document (Report.ofFiles reports)
  refine ⟨both.1, tallies, document, fun mode coloured strict => ?_⟩
  rw [document, Option.map_some, tallies.exitCode]

variable {logic : ResultLogic m}
  (always : ∀ {α : Type} (program : m α), logic.Holds program fun _ => True)
include always

theorem fileReport_reportsOn (path : Path) :
    logic.Holds (fileReport files rules registry base path) (ReportsOn base path) := by
  refine logic.mono ?_ (fileReport_holds path (always (fileFindings files rules registry path)))
  rintro _ ⟨findings, _, rfl⟩
  exact ⟨rfl, Finding.isHeaviestOf_severity findings⟩

theorem fileReports_reportsOn (paths : List Path) :
    logic.Holds (fileReports files rules registry base paths)
      (List.Forall₂ (ReportsOn base) paths) :=
  fileReports_holds paths fun path _ => fileReport_reportsOn files rules registry base always path

theorem run_agrees (paths : List Path) :
    logic.Holds (run files rules registry base paths) fun report =>
      report.Agrees (paths.map base.shownFrom) :=
  logic.bind (fileReports_reportsOn files rules registry base always paths) fun _ each =>
    logic.pure (agrees_ofFiles each)

end Results

section Groups

variable {m : Type → Type} [Monad m] [LawfulMonad m] (files : FileSystem) (rules : RuleSettings)
  (registry : ActionRegistry m) (base : Path)

theorem fileReports_append (first rest : List Path) :
    fileReports files rules registry base (first ++ rest) = do
      let reports ← fileReports files rules registry base first
      let others ← fileReports files rules registry base rest
      return reports ++ others := by
  induction first with
  | nil => simp [fileReports]
  | cons path first ih => simp [fileReports, ih]

/-- Files linted group by group, in order, get the reports that they get all at once. -/
theorem fileReports_flatten (groups : List (List Path)) :
    fileReports files rules registry base groups.flatten =
      List.flatten <$> groups.mapM (fileReports files rules registry base) := by
  induction groups with
  | nil => simp [fileReports]
  | cons group rest ih => simp [List.mapM_cons, fileReports_append, ih]

theorem run_flatten (groups : List (List Path)) :
    run files rules registry base groups.flatten =
      (fun reports => Report.ofFiles reports.flatten) <$>
        groups.mapM (fileReports files rules registry base) := by
  simp [run, fileReports_flatten]

theorem mapM_run (groups : List (List Path)) :
    groups.mapM (run files rules registry base) =
      List.map Report.ofFiles <$> groups.mapM (fileReports files rules registry base) := by
  induction groups with
  | nil => simp
  | cons group rest ih => simp [List.mapM_cons, run, ih]

end Groups

section Runs

variable (files : FileSystem) (rules : RuleSettings) (base : Path)

theorem changing_agrees {σ : Type} (registry : ActionRegistry (StateM σ)) (paths : List Path) (state : σ) :
    ((run files rules registry base paths).run state).1.Agrees (paths.map base.shownFrom) := by
  have always : ∀ {α : Type} (program : StateM σ α), (ResultLogic.ofState σ).Holds program fun _ => True :=
    fun _ _ => trivial
  exact run_agrees files rules registry base always paths state

/-- Groups linted one after the other, by a registry that may change, add up to the run on all. -/
theorem run_groups {σ : Type} (registry : ActionRegistry (StateM σ)) (groups : List (List Path))
    (state : σ) :
    let whole := ((run files rules registry base groups.flatten).run state).1
    let separate := ((groups.mapM (run files rules registry base)).run state).1
    whole.files = separate.flatMap Report.files ∧
      whole.severity.IsHeaviestOf (separate.map Report.severity) := by
  intro whole separate
  let reports := ((groups.mapM (fileReports files rules registry base)).run state).1
  have wholeEq : whole = .ofFiles reports.flatten :=
    congrArg (fun program => (program.run state).1) (run_flatten files rules registry base groups)
  have separateEq : separate = reports.map Report.ofFiles :=
    congrArg (fun program => (program.run state).1) (mapM_run files rules registry base groups)
  have agrees : whole.Agrees (groups.flatten.map base.shownFrom) :=
    changing_agrees files rules base registry groups.flatten state
  have weighed : Report.Weighed reports.flatten := by
    rw [wholeEq] at agrees
    exact agrees.tallies.each
  rw [wholeEq, separateEq, List.map_map, List.flatMap_map]
  exact ⟨List.flatten_eq_flatMap, Report.isHeaviestOf_groups weighed (.refl _)⟩

/-- Side by side, each report is on the file in its place, whatever the replies. -/
theorem pool_reportsOn {replies : String → Reply → Prop} {registry : ActionRegistry Registry.Task}
    {memo : Registry.Memo} {paths : List Path} {pool : Pool FileReport} {reports : List FileReport}
    (schedule : Pool.Runs replies ⟨paths.map (fileReport files rules registry base), memo⟩ pool)
    (finished : pool.Finished reports) : List.Forall₂ (ReportsOn base) paths reports := by
  let contract := Registry.Contract.onRequests (fun _ => True) replies
  have always : ∀ {α : Type} (task : Registry.Task α),
      (Registry.Task.results contract).Holds task fun _ => True :=
    fun task => task.ensures_anything replies
  have ensured : Pool.Ensures contract
      (fun place report => ∃ path, paths[place]? = some path ∧ ReportsOn base path report)
      ⟨paths.map (fileReport files rules registry base), memo⟩ := by
    refine ⟨Registry.Contract.onRequests_admits _ _ memo, fun place task selected => ?_⟩
    obtain ⟨path, given, rfl⟩ := Option.map_eq_some_iff.mp ((List.getElem?_map ..) ▸ selected)
    exact (fileReport_reportsOn files rules registry base always path).mono
      fun report reported => ⟨path, given, reported⟩
  obtain ⟨length, values⟩ := schedule.values ensured finished
  rw [List.length_map] at length
  refine List.forall₂_iff_get.mpr ⟨length.symm, fun place inside inside' => ?_⟩
  obtain ⟨path, given, reported⟩ := values place _ (List.getElem?_eq_getElem inside')
  rw [List.getElem?_eq_getElem inside] at given
  cases given
  exact reported

theorem run_groups_id (registry : ActionRegistry Id) {paths : List Path} {groups : List (List Path)}
    (perm : groups.flatten.Perm paths) :
    (run files rules registry base paths : Id Report).severity.IsHeaviestOf
      (groups.map fun group => (run files rules registry base group : Id Report).severity) := by
  let alone : Path → FileReport := fun path => (fileReport files rules registry base path : Id _)
  have runEq : ∀ paths : List Path, (run files rules registry base paths : Id Report) =
      .ofFiles (paths.map alone) :=
    fun paths => congrArg Report.ofFiles (fileReports_id files rules registry base paths)
  have weighed : Report.Weighed (paths.map alone) := by
    intro report member
    obtain ⟨path, _, rfl⟩ := List.mem_map.mp member
    exact Finding.isHeaviestOf_severity _
  have grouped : (groups.map (List.map alone)).flatten.Perm (paths.map alone) := by
    rw [← List.map_flatten]
    exact perm.map alone
  have heaviest := Report.isHeaviestOf_groups weighed grouped
  rw [List.map_map] at heaviest
  simp only [runEq]
  exact heaviest

/-- Whatever a registry answers, the reports are one for each file, in order, and all that is told of
the run agrees: counts, severities, exit code and document. This holds for a registry that may change
with every question, and for any tasks side by side under every schedule. Files that are linted in
separate groups lead to the severity of the run on all: one group after the other always, in any order
and side by side wherever answers and replies stay as they are. -/
theorem totals_agree (paths : List Path) :
    (∀ (σ : Type) (registry : ActionRegistry (StateM σ)) (state : σ),
      let whole := ((run files rules registry base paths).run state).1
      whole.Agrees (paths.map base.shownFrom) ∧
      ∀ groups : List (List Path), groups.flatten = paths →
        let separate := ((groups.mapM (run files rules registry base)).run state).1
        whole.files = separate.flatMap Report.files ∧
          whole.severity.IsHeaviestOf (separate.map Report.severity)) ∧
    (∀ (replies : String → Reply → Prop) (registry : ActionRegistry Registry.Task)
      (memo : Registry.Memo) (pool : Pool FileReport) (reports : List FileReport),
      Pool.Runs replies ⟨paths.map (fileReport files rules registry base), memo⟩ pool →
      pool.Finished reports → (Report.ofFiles reports).Agrees (paths.map base.shownFrom)) ∧
    (∀ (registry : ActionRegistry Id) (groups : List (List Path)), groups.flatten.Perm paths →
      (run files rules registry base paths : Id Report).severity.IsHeaviestOf
        (groups.map fun group => (run files rules registry base group : Id Report).severity)) ∧
    ∀ (settings : Registry.Settings) (answer : String → Reply) (groups : List (List Path))
      (pool : Pool FileReport) (reports : List FileReport) (separate : List (List FileReport)),
      let stable : String → Reply → Prop := fun url reply => reply = answer url
      let start := sharedWork files rules settings base
      groups.flatten.Perm paths → Pool.Runs stable (start paths) pool → pool.Finished reports →
      List.Forall₂ (fun group found => ∃ other, Pool.Runs stable (start group) other ∧
        other.Finished found) groups separate →
      (Report.ofFiles reports).severity.IsHeaviestOf
        (separate.map fun found => (Report.ofFiles found).severity) := by
  refine ⟨fun σ registry state => ⟨?_, ?_⟩, ?_, ?_, ?_⟩
  · exact changing_agrees files rules base registry paths state
  · rintro groups rfl
    exact run_groups files rules base registry groups state
  · intro replies registry memo pool reports schedule finished
    exact agrees_ofFiles (pool_reportsOn files rules base schedule finished)
  · exact fun registry groups perm => run_groups_id files rules base registry perm
  · intro settings answer groups pool reports separate stable start perm schedule finished others
    have settled : ∀ {paths pool reports}, Pool.Runs stable (start paths) pool →
        pool.Finished reports →
        Report.ofFiles reports = (run files rules (direct settings answer) base paths : Id Report) := by
      intro paths pool reports schedule finished
      obtain rfl := (sharedWork_settles files rules settings answer base paths).settled pool reports
        schedule finished
      exact ofFiles_reportAlone files rules settings answer base paths
    have separately : separate.map (fun found => (Report.ofFiles found).severity) =
        groups.map fun group =>
          (run files rules (direct settings answer) base group : Id Report).severity := by
      clear perm
      induction others with
      | nil => rfl
      | cons first _ ih =>
        obtain ⟨other, schedule, finished⟩ := first
        rw [List.map_cons, List.map_cons, ih, settled schedule finished]
    rw [settled schedule finished, separately]
    exact run_groups_id files rules base (direct settings answer) perm

theorem totals_twoFiles :
    let paths : List Path := [⟨"ci.yml"⟩, ⟨"gone.yml"⟩]
    let counting : ActionRegistry (StateM Nat) :=
      { isPresent := fun _ => modifyGet fun asked => (false, asked + 1)
        newest := fun _ => modifyGet fun asked => (none, asked + 1)
        commitUrl := Registry.commitUrl Registry.defaultWebUrl }
    let whole := ((run pinnedFiles {} counting ⟨"/"⟩ paths).run 0).1
    let separate := ((paths.map ([·])).mapM (run pinnedFiles {} counting ⟨"/"⟩)).run 0
    (whole.Agrees ["ci.yml", "gone.yml"] ∧ whole.summary = ⟨2, 3, 2⟩ ∧
      whole.files = separate.1.flatMap Report.files) ∧
    ∃ pool reports,
      Pool.Runs (fun _ reply => reply = .error .notFound) (sharedWork pinnedFiles {} {} ⟨"/"⟩ paths) pool ∧
      pool.Finished reports ∧ (Report.ofFiles reports).Agrees ["ci.yml", "gone.yml"] ∧
      ∃ separate : List (List FileReport), separate.length = 2 ∧
        (Report.ofFiles reports).severity.IsHeaviestOf
          (separate.map fun found => (Report.ofFiles found).severity) := by
  intro paths counting whole separate
  obtain ⟨changing, tasks, _, stable⟩ := totals_agree pinnedFiles {} ⟨"/"⟩ paths
  have named : paths.map (Path.shownFrom ⟨"/"⟩) = ["ci.yml", "gone.yml"] := by decide +kernel
  rw [named] at changing tasks
  refine ⟨⟨(changing Nat counting 0).1, by decide +kernel, ?_⟩, ?_⟩
  · exact ((changing Nat counting 0).2 (paths.map ([·])) rfl).1
  · let missing : String → Reply := fun _ => .error .notFound
    let fixed : String → Reply → Prop := fun url reply => reply = missing url
    have replied : ∀ url (state : Unit), fixed url (Registry.Transport.fixed missing url state).1 :=
      fun _ _ => rfl
    have scheduled := fun paths : List Path => Pool.runs_inOrder replied
      (sharedWork pinnedFiles {} {} ⟨"/"⟩ paths).tasks .empty ()
    obtain ⟨pool, schedule, finished⟩ := scheduled paths
    refine ⟨pool, _, schedule, finished, tasks _ _ _ pool _ schedule finished, ?_⟩
    obtain ⟨first, firstRun, firstDone⟩ := scheduled [⟨"ci.yml"⟩]
    obtain ⟨second, secondRun, secondDone⟩ := scheduled [⟨"gone.yml"⟩]
    -- The groups in the other order.
    refine ⟨[_, _], rfl, stable {} missing [[⟨"gone.yml"⟩], [⟨"ci.yml"⟩]] pool _ _ ?_ schedule finished
      (.cons ⟨second, secondRun, secondDone⟩ (.cons ⟨first, firstRun, firstDone⟩ .nil))⟩
    exact .swap _ _ _

end Runs

end Lint

end WorkflowLint

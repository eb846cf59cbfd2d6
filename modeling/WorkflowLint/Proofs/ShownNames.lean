import WorkflowLint.Proofs.Files.Lookup
import WorkflowLint.Proofs.Path.Relative
import WorkflowLint.Proofs.RunTotals

/-! What the names of a run tell.

A name may be shorter than its path. It leads to the same place from the directory that it is told from, so
that two reports with one name are on one place. -/

set_option autoImplicit false

namespace WorkflowLint.Lint

open Registry (Pool Reply)
open WorkflowLint.Path (written)

/-- Reports that are on paths, one by one: from the base their names lead where the paths do, and reports
with the same name are on paths that lead to the same place. -/
structure Named (base : Path) (paths : List Path) (reports : List FileReport) : Prop where
  length_eq : reports.length = paths.length
  leads : ∀ entry ∈ paths.zip reports, base.place ⟨entry.2.file⟩ = base.place entry.1
  tellsApart : ∀ entry ∈ paths.zip reports, ∀ other ∈ paths.zip reports, entry.2.file = other.2.file →
    base.place entry.1 = base.place other.1

section Names

variable {base : Path} (absolute : base.isAbsolute = true)
include absolute

theorem named_of_shown {paths : List Path} {reports : List FileReport}
    (names : reports.map FileReport.file = paths.map base.shownFrom) : Named base paths reports := by
  have shown : ∀ entry ∈ paths.zip reports, base.shownFrom entry.1 = entry.2.file := by
    have each : List.Forall₂ Eq (paths.map base.shownFrom) (reports.map FileReport.file) := by
      rw [names, List.forall₂_eq_eq_eq]
    rw [List.forall₂_map_left_iff, List.forall₂_map_right_iff] at each
    exact fun entry member => (List.forall₂_iff_zip.mp each).2 member
  have leads : ∀ entry ∈ paths.zip reports, base.place ⟨entry.2.file⟩ = base.place entry.1 :=
    fun entry member => by rw [← shown entry member, Path.place_shownFrom absolute]
  refine ⟨by simpa using congrArg List.length names, leads, fun entry member other other_member same => ?_⟩
  rw [← leads entry member, ← leads other other_member, same]

end Names

theorem named_report {σ : Type} (server : Http.Server σ) (surroundings : Surroundings) (settings : Settings)
    (paths : List Path) (state : σ) :
    Named surroundings.files.workingPath paths
      (Program.report server surroundings settings paths state).1.files := by
  let contract := Registry.Contract.onRequests (fun _ => True) fun _ _ => True
  have always : ∀ {α : Type} (task : Registry.Task α),
      (Registry.Task.results contract).Holds task fun _ => True :=
    fun task => task.ensures_anything _
  have ensured := run_agrees surroundings.files settings.rules (Program.registryFor settings)
    surroundings.files.workingPath always paths
  let client := Http.Client.ofToken (surroundings.environment.lookup settings.tokenVariable)
  have replied : ∀ url state, contract.reply url (client.transport server url state).1 := fun _ _ => trivial
  obtain ⟨agrees, -⟩ := ensured.run replied (Registry.Contract.onRequests_admits _ _ .empty) state
  exact named_of_shown FileSystem.workingPath_isAbsolute agrees.names

/-- Told from an absolute directory, the name of a path leads where the path does. What is left of a path
below the directory is its name just when that does not start upwards; in all other cases the path is named
as it was given. So reports of one run with the same name are on paths that lead to the same place, for any
registry: one file after the other, side by side under every schedule, and where the program tells the names
from the directory that it works in. -/
theorem names_identify (files : FileSystem) (rules : RuleSettings) {base : Path}
    (absolute : base.isAbsolute = true) :
    (∀ path : Path, base.place ⟨base.shownFrom path⟩ = base.place path ∧
      (∀ rest, base.LeavesBelow path rest → Path.components ⟨written rest⟩ = rest ∧
        (base.shownFrom path = written rest ↔ rest.head? ≠ some .up)) ∧
      ((∀ rest, base.LeavesBelow path rest → rest.head? = some .up) → base.shownFrom path = path.text)) ∧
    (∀ (σ : Type) (registry : ActionRegistry (StateM σ)) (paths : List Path) (state : σ),
      Named base paths ((run files rules registry base paths).run state).1.files) ∧
    (∀ (replies : String → Reply → Prop) (registry : ActionRegistry Registry.Task) (memo : Registry.Memo)
      (paths : List Path) (pool : Pool FileReport) (reports : List FileReport),
      Pool.Runs replies ⟨paths.map (fileReport files rules registry base), memo⟩ pool →
      pool.Finished reports → Named base paths reports) ∧
    ∀ (σ : Type) (server : Http.Server σ) (surroundings : Surroundings) (settings : Settings)
      (paths : List Path) (state : σ),
      Named surroundings.files.workingPath paths
        (Program.report server surroundings settings paths state).1.files := by
  refine ⟨fun path => ⟨Path.place_shownFrom absolute, fun rest below => ⟨?_, ?_⟩, fun upwards => ?_⟩, ?_, ?_, ?_⟩
  · exact Path.components_written (below.isPiece absolute)
  · exact below.shownFrom_eq_iff absolute
  · by_cases below : ∃ rest, base.LeavesBelow path rest
    · obtain ⟨rest, below⟩ := below
      rw [below.shownFrom absolute, if_pos (upwards rest below)]
    · exact Path.shownFrom_apart absolute (not_exists.mp below)
  · intro σ registry paths state
    exact named_of_shown absolute (changing_agrees files rules base registry paths state).names
  · intro replies registry memo paths pool reports schedule finished
    exact named_of_shown absolute
      (agrees_ofFiles (pool_reportsOn files rules base schedule finished)).names
  · exact fun σ => named_report

theorem names_identify_alike :
    let base : Path := ⟨"/b"⟩
    let rest : List Path.Component := [.name "d", .name "x.yml"]
    base.isAbsolute = true ∧ base.LeavesBelow ⟨"/b/./d//x.yml"⟩ rest ∧
      base.shownFrom ⟨"/b/./d//x.yml"⟩ = written rest ∧ base.shownFrom ⟨"d/x.yml"⟩ = "d/x.yml" ∧
      base.place ⟨"/b/./d//x.yml"⟩ = base.place ⟨"d/x.yml"⟩ := by
  intro base rest
  have absolute : base.isAbsolute = true := by decide
  have below : base.LeavesBelow ⟨"/b/./d//x.yml"⟩ rest := by
    constructor <;> decide +kernel
  obtain ⟨each, -⟩ := names_identify ⟨.empty, []⟩ {} absolute
  obtain ⟨leads, left, -⟩ := each ⟨"/b/./d//x.yml"⟩
  have shown := ((left rest below).2).mpr (by decide)
  refine ⟨absolute, below, shown, ?_, ?_⟩
  · refine (each ⟨"d/x.yml"⟩).2.2 fun other outside => ?_
    have rooted := outside.isAbsolute absolute
    cases rooted
  · rw [← leads, shown]
    rfl

end WorkflowLint.Lint

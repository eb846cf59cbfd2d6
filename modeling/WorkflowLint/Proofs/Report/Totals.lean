import Mathlib.Algebra.GroupWithZero.Nat
import WorkflowLint.Report

/-! The counts and severities of a report, told apart from how they are computed.

All severities of a report are heaviest ones: of one file, of all findings or of groups of files. That a
heaviest severity of the parts is one of the whole, and the other way, is shown once for parts of any
kind. -/

set_option autoImplicit false

namespace WorkflowLint

namespace Severity

/-- The heaviest of some severities, which is `none` where there are none. -/
def IsHeaviestOf (severities : List Severity) (heaviest : Severity) : Prop :=
  (∀ severity ∈ severities, severity.rank ≤ heaviest.rank) ∧
    (heaviest = .none ∨ heaviest ∈ severities)

theorem eq_of_rank_eq {first second : Severity} (same : first.rank = second.rank) : first = second := by
  cases first <;> cases second <;> first | rfl | simp [rank] at same

theorem max_eq_or (first second : Severity) : max first second = first ∨ max first second = second := by
  cases first <;> cases second <;> decide

theorem isHeaviestOf_foldr {α : Type} (items : List α) (weight : α → Severity) :
    (items.foldr (fun item rest => max (weight item) rest) none).IsHeaviestOf (items.map weight) := by
  induction items with
  | nil => exact ⟨by simp, .inl rfl⟩
  | cons item rest ih =>
    obtain ⟨bound, attained⟩ := ih
    rw [List.foldr_cons, List.map_cons]
    generalize rest.foldr (fun item rest => max (weight item) rest) none = others at *
    constructor
    · intro severity member
      rw [rank_max]
      rcases List.mem_cons.mp member with rfl | member
      · exact Nat.le_max_left _ _
      · exact Nat.le_trans (bound severity member) (Nat.le_max_right _ _)
    · rcases max_eq_or (weight item) others with first | later
      · rw [first]
        exact .inr List.mem_cons_self
      · rw [later]
        exact attained.imp_right (List.mem_cons_of_mem _)

section Parts

variable {α : Type} {parts : List α} {severities : α → List Severity} {weight : α → Severity}
  {all : List Severity} {heaviest : Severity}

/-- Where each part has its own heaviest severity, a heaviest one of these is one of everything. -/
theorem isHeaviestOf_parts_iff (each : ∀ part ∈ parts, (weight part).IsHeaviestOf (severities part))
    (covered : ∀ severity, severity ∈ all ↔ ∃ part ∈ parts, severity ∈ severities part) :
    heaviest.IsHeaviestOf (parts.map weight) ↔ heaviest.IsHeaviestOf all := by
  unfold IsHeaviestOf
  simp only [List.mem_map, covered]
  constructor
  · rintro ⟨bound, attained⟩
    constructor
    · rintro severity ⟨part, member, inside⟩
      exact Nat.le_trans ((each part member).1 severity inside) (bound _ ⟨part, member, rfl⟩)
    · rcases attained with empty | ⟨part, member, rfl⟩
      · exact .inl empty
      · exact (each part member).2.imp_right fun inside => ⟨part, member, inside⟩
  · rintro ⟨bound, attained⟩
    have partBound : ∀ part ∈ parts, (weight part).rank ≤ heaviest.rank := by
      intro part member
      rcases (each part member).2 with empty | inside
      · simp [empty, rank]
      · exact bound _ ⟨part, member, inside⟩
    constructor
    · rintro _ ⟨part, member, rfl⟩
      exact partBound part member
    · rcases attained with empty | ⟨part, member, inside⟩
      · exact .inl empty
      · have least := (each part member).1 heaviest inside
        exact .inr ⟨part, member, eq_of_rank_eq (Nat.le_antisymm (partBound part member) least)⟩

end Parts

section Which

variable {severities : List Severity} {heaviest : Severity} (holds : heaviest.IsHeaviestOf severities)
include holds

theorem IsHeaviestOf.eq_error_iff : heaviest = .error ↔ .error ∈ severities := by
  constructor
  · rintro rfl
    exact holds.2.resolve_left nofun
  · intro member
    have bound := holds.1 _ member
    cases heaviest <;> simp [rank] at bound ⊢

theorem IsHeaviestOf.eq_none_iff : heaviest = .none ↔ .error ∉ severities ∧ .warning ∉ severities := by
  constructor
  · rintro rfl
    exact ⟨fun member => by simpa [rank] using holds.1 _ member,
      fun member => by simpa [rank] using holds.1 _ member⟩
  · rintro ⟨calm, quiet⟩
    rcases holds.2 with empty | member
    · exact empty
    · cases heaviest with
      | none => rfl
      | warning => exact absurd member quiet
      | error => exact absurd member calm

theorem IsHeaviestOf.eq_warning_iff :
    heaviest = .warning ↔ .error ∉ severities ∧ .warning ∈ severities := by
  constructor
  · rintro rfl
    exact ⟨mt holds.eq_error_iff.mpr nofun, holds.2.resolve_left nofun⟩
  · rintro ⟨calm, member⟩
    cases heaviest with
    | none => exact absurd member (holds.eq_none_iff.mp rfl).2
    | warning => rfl
    | error => exact absurd (holds.eq_error_iff.mp rfl) calm

end Which

end Severity

namespace Finding

def severities (findings : List Finding) : List Severity := findings.map (·.level.severity)

theorem isHeaviestOf_severity (findings : List Finding) :
    (severity findings).IsHeaviestOf (severities findings) :=
  Severity.isHeaviestOf_foldr findings _

theorem mem_severities (level : Level) (findings : List Finding) :
    level.severity ∈ severities findings ↔ 0 < Report.countOf level findings := by
  have injective : ∀ other : Level, other.severity = level.severity ↔ other = level := by
    intro other
    cases other <;> cases level <;> decide
  simp [severities, Report.countOf, List.length_pos_iff_exists_mem, injective, and_comm]

theorem countOf_add_countOf (findings : List Finding) :
    Report.countOf .error findings + Report.countOf .warning findings = findings.length := by
  induction findings with
  | nil => rfl
  | cons finding rest ih =>
    have split : ∀ level, Report.countOf level (finding :: rest) =
        (if finding.level = level then 1 else 0) + Report.countOf level rest := by
      intro level
      unfold Report.countOf
      rw [List.filter_cons]
      split <;> simp_all [Nat.add_comm]
    rw [split, split, List.length_cons, ← ih]
    cases finding.level <;> simp <;> omega

end Finding

namespace Report

structure Tallies (report : Report) : Prop where
  files : report.summary.files = report.files.length
  errors : report.summary.errors =
    (report.files.map fun file => file.findings.countP (·.level = .error)).sum
  warnings : report.summary.warnings =
    (report.files.map fun file => file.findings.countP (·.level = .warning)).sum
  total : report.summary.errors + report.summary.warnings =
    (report.files.map fun file => file.findings.length).sum
  each : ∀ file ∈ report.files, file.severity.IsHeaviestOf (Finding.severities file.findings)
  overall : report.severity.IsHeaviestOf (Finding.severities (findings report.files))
  /-- However the files are grouped, each group summed up on its own. -/
  groups : ∀ groups : List (List FileReport), groups.flatten.Perm report.files →
    report.severity.IsHeaviestOf (groups.map fun group => (ofFiles group).severity)
  failing : report.severity = .error ↔ 0 < report.summary.errors
  warned : report.severity = .warning ↔ report.summary.errors = 0 ∧ 0 < report.summary.warnings
  clean : report.severity = .none ↔ report.summary.errors = 0 ∧ report.summary.warnings = 0

theorem countOf_findings (level : Level) (files : List FileReport) :
    countOf level (findings files) =
      (files.map fun file => file.findings.countP (·.level = level)).sum := by
  rw [countOf, ← List.countP_eq_length_filter, findings, List.countP_flatMap]
  rfl

def Weighed (files : List FileReport) : Prop :=
  ∀ file ∈ files, file.severity.IsHeaviestOf (Finding.severities file.findings)

theorem isHeaviestOf_severityOf {files : List FileReport} (weighed : Weighed files) :
    (severityOf files).IsHeaviestOf (Finding.severities (findings files)) := by
  refine (Severity.isHeaviestOf_parts_iff weighed ?_).mp (Severity.isHeaviestOf_foldr files _)
  intro severity
  simp only [Finding.severities, findings, List.mem_map, List.mem_flatMap]
  constructor
  · rintro ⟨finding, ⟨file, member, found⟩, same⟩
    exact ⟨file, member, finding, found, same⟩
  · rintro ⟨file, member, finding, found, same⟩
    exact ⟨finding, ⟨file, member, found⟩, same⟩

theorem isHeaviestOf_groups {files : List FileReport} (weighed : Weighed files)
    {groups : List (List FileReport)} (perm : groups.flatten.Perm files) :
    (severityOf files).IsHeaviestOf (groups.map severityOf) := by
  have each : ∀ group ∈ groups,
      (severityOf group).IsHeaviestOf (Finding.severities (findings group)) := by
    intro group member
    refine isHeaviestOf_severityOf fun file inside => weighed file ?_
    exact perm.mem_iff.mp (List.mem_flatten.mpr ⟨group, member, inside⟩)
  refine (Severity.isHeaviestOf_parts_iff each ?_).mpr (isHeaviestOf_severityOf weighed)
  intro severity
  simp only [Finding.severities, findings, List.mem_map, List.mem_flatMap, ← perm.mem_iff,
    List.mem_flatten]
  constructor
  · rintro ⟨finding, ⟨file, ⟨group, member, inside⟩, found⟩, same⟩
    exact ⟨group, member, finding, ⟨file, inside, found⟩, same⟩
  · rintro ⟨group, member, finding, ⟨file, inside, found⟩, same⟩
    exact ⟨finding, ⟨file, ⟨group, member, inside⟩, found⟩, same⟩

theorem ofFiles_tallies {files : List FileReport} (weighed : Weighed files) :
    (ofFiles files).Tallies := by
  have overall := isHeaviestOf_severityOf weighed
  have error := Finding.mem_severities .error (findings files)
  have warning := Finding.mem_severities .warning (findings files)
  refine
    { files := rfl
      errors := countOf_findings .error files
      warnings := countOf_findings .warning files
      total := ?_
      each := weighed
      overall := overall
      groups := fun groups perm => isHeaviestOf_groups weighed perm
      failing := overall.eq_error_iff.trans error
      warned := ?_
      clean := ?_ }
  · exact (Finding.countOf_add_countOf (findings files)).trans List.length_flatMap
  · refine overall.eq_warning_iff.trans (and_congr ?_ warning)
    exact (not_congr error).trans Nat.not_lt |>.trans Nat.le_zero
  · refine overall.eq_none_iff.trans (and_congr ?_ ?_)
    · exact (not_congr error).trans Nat.not_lt |>.trans Nat.le_zero
    · exact (not_congr warning).trans Nat.not_lt |>.trans Nat.le_zero

end Report

end WorkflowLint

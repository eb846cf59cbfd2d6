import WorkflowLint.Proofs.Rules.Assembly
import WorkflowLint.Report

/-! Which findings are errors, and which can be told from what a registry leads to.

On names, runners, variables and scripts there are warnings only, and none of these begins as a remark
on a step does. A reference leads to errors only, as far as its text goes. -/

set_option autoImplicit false

namespace WorkflowLint

namespace Severity

theorem max_eq_error {first second : Severity} :
    max first second = .error ↔ first = .error ∨ second = .error := by
  cases first <;> cases second <;> decide

theorem exitCode_eq_two {strict : Bool} {severity : Severity} :
    severity.exitCode strict = 2 ↔ severity = .error := by
  cases severity <;> cases strict <;> decide

end Severity

namespace Finding

def HasError (findings : List Finding) : Prop := ∃ finding ∈ findings, finding.level = .error

@[simp] theorem hasError_nil : ¬HasError [] := by simp [HasError]

@[simp] theorem hasError_cons (finding : Finding) (rest : List Finding) :
    HasError (finding :: rest) ↔ finding.level = .error ∨ HasError rest := by
  simp [HasError]

@[simp] theorem hasError_append (first second : List Finding) :
    HasError (first ++ second) ↔ HasError first ∨ HasError second := by
  simp only [HasError, List.mem_append, or_and_right, exists_or]

@[simp] theorem hasError_flatMap {α : Type} (items : List α) (part : α → List Finding) :
    HasError (items.flatMap part) ↔ ∃ item ∈ items, HasError (part item) := by
  simp only [HasError, List.mem_flatMap]
  constructor
  · rintro ⟨finding, ⟨item, member, found⟩, heavy⟩
    exact ⟨item, member, finding, found, heavy⟩
  · rintro ⟨item, member, finding, found, heavy⟩
    exact ⟨finding, ⟨item, member, found⟩, heavy⟩

theorem severity_eq_error (findings : List Finding) :
    severity findings = .error ↔ HasError findings := by
  induction findings with
  | nil => simp
  | cons finding rest ih =>
    rw [severity_cons, Severity.max_eq_error, ih, hasError_cons]
    cases level : finding.level <;> simp [Level.severity]

/-- Leaving findings out never makes the rest weigh more. -/
theorem severity_rank_le_of_sublist {some all : List Finding} (kept : List.Sublist some all) :
    (severity some).rank ≤ (severity all).rank := by
  induction kept with
  | slnil => exact Nat.le_refl _
  | cons finding _ ih =>
    rw [severity_cons, Severity.rank_max]
    exact Nat.le_trans ih (Nat.le_max_right _ _)
  | cons_cons finding _ ih =>
    rw [severity_cons, severity_cons, Severity.rank_max, Severity.rank_max]
    omega

end Finding

namespace Report

theorem severityOf_eq_error (files : List FileReport) :
    severityOf files = .error ↔ ∃ file ∈ files, file.severity = .error := by
  induction files with
  | nil => simp [severityOf]
  | cons file rest ih =>
    have split : severityOf (file :: rest) = max file.severity (severityOf rest) := rfl
    rw [split, Severity.max_eq_error, ih]
    simp

end Report

namespace Rules

/-- A warning that does not begin as the remarks on a step do. -/
structure Plain (finding : Finding) : Prop where
  level : finding.level = .warning
  start : finding.description.toList.head? ≠ some 'S'

/-- An error that ends as the remarks on a step never do. -/
structure Bracketed (finding : Finding) : Prop where
  level : finding.level = .error
  ending : finding.description.toList.getLast? = some ')'

theorem Plain.not_hasError {findings : List Finding} (plain : ∀ finding ∈ findings, Plain finding) :
    ¬Finding.HasError findings := by
  rintro ⟨finding, found, heavy⟩
  cases (plain finding found).level.symm.trans heavy

theorem plain_nameFindings {missing : String} {lowercase : String → String} {name : Option String}
    (missingStart : missing.toList.head? ≠ some 'S')
    (lowercaseStart : ∀ text, (lowercase text).toList.head? ≠ some 'S') :
    ∀ finding ∈ nameFindings missing lowercase name, Plain finding := by
  intro finding found
  cases name with
  | none =>
    cases List.mem_singleton.mp found
    exact ⟨rfl, missingStart⟩
  | some text =>
    rw [nameFindings] at found
    split at found
    · cases found
    · cases List.mem_singleton.mp found
      exact ⟨rfl, lowercaseStart text⟩

theorem plain_workflowName (name : Option String) : ∀ finding ∈ workflowName name, Plain finding :=
  plain_nameFindings (by simp) fun text => by simp

theorem plain_jobName (key : String) (name : Option String) :
    ∀ finding ∈ jobName key name, Plain finding :=
  plain_nameFindings (by simp) fun text => by simp

theorem plain_stepName (key : String) (number : Nat) (name : Option String) :
    ∀ finding ∈ stepName key number name, Plain finding :=
  plain_nameFindings (by simp) fun text => by simp

theorem plain_filterMap {α : Type} {items : List α} {warn : α → Option Finding}
    (each : ∀ item finding, warn item = some finding → Plain finding) :
    ∀ finding ∈ items.filterMap warn, Plain finding := by
  intro finding found
  obtain ⟨item, _, chosen⟩ := List.mem_filterMap.mp found
  exact each item finding chosen

theorem plain_runner (settings : RuleSettings) (runsOn : Option RunsOn) :
    ∀ finding ∈ runner settings runsOn, Plain finding := by
  refine plain_filterMap fun label finding chosen => ?_
  split at chosen
  · cases chosen
    exact ⟨rfl, by simp [Finding.warning]⟩
  · cases chosen

theorem plain_environment (key : String) (env : Option (List String)) :
    ∀ finding ∈ environment key env, Plain finding := by
  refine plain_filterMap fun name finding chosen => ?_
  split at chosen
  · cases chosen
  · cases chosen
    exact ⟨rfl, by simp [Finding.warning]⟩

theorem plain_script (key : String) (number : Nat) (run : Option String) :
    ∀ finding ∈ script key number run, Plain finding := by
  intro finding found
  cases run with
  | none => cases found
  | some text =>
    rw [script] at found
    split at found
    · cases List.mem_singleton.mp found
      exact ⟨rfl, by simp [Finding.warning]⟩
    · cases found

theorem getLast?_bracket (text : String) : (text ++ ")").toList.getLast? = some ')' := by
  simp

theorem bracketed_hashError (key : String) (number : Nat) (problem : String) :
    Bracketed (hashError key number problem) :=
  ⟨rfl, getLast?_bracket _⟩

theorem bracketed_pathError (key : String) (number : Nat) (problem : String) :
    Bracketed (pathError key number problem) :=
  ⟨rfl, getLast?_bracket _⟩

theorem bracketed_written (settings : RuleSettings) (key : String) (number : Nat) (text : String) :
    ∀ finding ∈ written settings key number text, Bracketed finding := by
  intro finding found
  unfold written at found
  split at found
  · cases found
  · cases List.mem_singleton.mp found
    exact bracketed_hashError key number _
  · rename_i action _
    rcases List.mem_append.mp found with found | found
    · unfold revision at found
      rcases List.mem_append.mp found with found | found
      all_goals
        split at found
        · cases found
        · cases List.mem_singleton.mp found
          exact bracketed_hashError key number _
    · obtain ⟨problem, _, rfl⟩ := Option.map_eq_some_iff.mp (Option.mem_toList.mp found)
      exact bracketed_pathError key number problem

end Rules

end WorkflowLint

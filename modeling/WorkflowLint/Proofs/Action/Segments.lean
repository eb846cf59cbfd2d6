import WorkflowLint.Proofs.Action.Parts
import WorkflowLint.Proofs.Gate
import WorkflowLint.Proofs.Path.Components

/-! Parts and segments of the path to an action.

A path is judged by its parts: the owner counts even if it is empty, and a subpath counts as one however
many segments it has. The segments are what stands between the slashes and is not empty. Both counts, up
to three, agree for paths without a slash in front and without two in a row; where they do not, a path is
judged by another number of segments than it has. -/

set_option autoImplicit false

namespace WorkflowLint

/-- What stands between the slashes of a path, where that is anything. -/
def segments (path : String) : List String := (Path.mk path).pieces.filter (· ≠ "")

section Segments

theorem segments_slash (before after : String) :
    segments (before ++ "/" ++ after) = segments before ++ segments after := by
  rw [segments, Path.pieces_append, List.filter_append]
  rfl

@[simp] theorem segments_empty : segments "" = [] := rfl

theorem segments_of_slashless {text : String} (slashless : '/' ∉ text.toList) (filled : text ≠ "") :
    segments text = [text] := by
  have alone : (Path.mk text).pieces = [text] := by
    have pieces := Path.pieces_intercalate (List.cons_ne_nil text []) (by simpa [Path.Free] using slashless)
    simpa using pieces
  simp [segments, alone, filled]

theorem segments_ne_nil {text : String} (filled : text ≠ "") (ahead : ¬['/'] <+: text.toList) :
    segments text ≠ [] := by
  obtain slashless | ⟨before, after, rfl, slashless⟩ := RemoteAction.cut_or_slashless text
  · simp [segments_of_slashless slashless filled]
  · have first : before ≠ "" := by
      rintro rfl
      simp at ahead
    simp [segments_slash, segments_of_slashless slashless first]

end Segments

namespace RemoteAction

variable {action : RemoteAction} {path : String}

def below (action : RemoteAction) : List String := segments (action.subpath.getD "")

/-- With an owner, a subpath has a segment, and only that one where it takes the place of the repository.
Without an owner, it has two at least, one of them in the owner's place. -/
def Regular (action : RemoteAction) : Prop :=
  if action.owner = "" then
    2 ≤ action.below.length ∧ (action.repo = none → action.below.length = 2)
  else
    action.subpath.isSome → 1 ≤ action.below.length ∧ (action.repo = none → action.below.length = 1)

section Paths

variable (separable : action.Separable) (member : path ∈ action.paths)
include separable member

theorem length_segments :
    (segments path).length =
      (if action.owner = "" then 0 else 1) + (if action.repo.isSome then 1 else 0) +
        action.below.length := by
  have owner : (segments action.owner).length = if action.owner = "" then 0 else 1 := by
    by_cases empty : action.owner = ""
    · simp [empty]
    · simp [empty, segments_of_slashless separable.owner empty]
  have repo : (segments (action.repo.getD "")).length = if action.repo.isSome then 1 else 0 := by
    cases given : action.repo with
    | none => simp
    | some repo =>
      obtain ⟨filled, slashless⟩ := separable.repo repo given
      simp [segments_of_slashless slashless filled]
  unfold below
  obtain ⟨none, none', rfl⟩ | ⟨none, rfl⟩ | rfl := mem_paths.mp member
  · simp [owner, none, none']
  · simp [segments_slash, owner, repo, none]
  · simp only [segments_slash, List.length_append, owner, repo]

theorem segmentCount_eq_iff :
    action.segmentCount = min 3 (segments path).length ↔ action.Regular := by
  rw [length_segments separable member]
  unfold segmentCount Regular
  cases bare : action.subpath with
  | none =>
    have none : action.below = [] := by simp [below, bare]
    cases action.repo <;> by_cases empty : action.owner = "" <;> simp [empty, none]
  | some subpath =>
    cases action.repo <;> by_cases empty : action.owner = "" <;> simp [empty] <;> omega

theorem regular_of_single (filled : path ≠ "") (ahead : ¬['/'] <+: path.toList)
    (single : ¬['/', '/'] <:+: path.toList) : action.Regular := by
  have owned : action.owner ≠ "" := by
    intro empty
    obtain ⟨_, _, rfl⟩ | ⟨_, rfl⟩ | rfl := mem_paths.mp member
    · exact filled empty
    · simp [empty] at ahead
    · simp [empty] at ahead
  rw [Regular, if_neg owned]
  intro given
  obtain ⟨subpath, given⟩ := Option.isSome_iff_exists.mp given
  obtain ⟨_, bare, _⟩ | ⟨bare, _⟩ | rfl := mem_paths.mp member
  · cases bare.symm.trans given
  · cases bare.symm.trans given
  · -- Another slash behind the second one, or right before it, would stand beside it.
    have named : action.repo ≠ none := by
      intro bare
      apply single
      exact ⟨action.owner.toList, subpath.toList, by simp [bare, given]⟩
    have starts : ¬['/'] <+: subpath.toList := by
      rintro ⟨rest, same⟩
      apply single
      exact ⟨(action.owner ++ "/" ++ action.repo.getD "").toList, rest, by simp [given, ← same]⟩
    have some : action.below ≠ [] := by
      rw [below, given]
      exact segments_ne_nil (separable.subpath subpath given) starts
    exact ⟨List.length_pos_iff.mpr some, fun bare => absurd bare named⟩

end Paths

end RemoteAction

namespace Rules

variable {owners : String} {action : RemoteAction}

/-- A path problem is about parts that are missing: either of two for internal actions, and both for others. -/
theorem pathProblem_ne_none_iff :
    pathProblem owners action ≠ none ↔
      if action.isInternal owners then action.repo = none ∨ action.subpath = none
      else action.repo = none ∧ action.subpath = none := by
  unfold pathProblem RemoteAction.segmentCount
  cases action.isInternal owners <;> cases action.repo <;> cases action.subpath <;> simp

/-- The count of parts is the number of segments up to three just for regular paths, and so for all paths
that start with a segment and have no two slashes in a row. For regular paths the verdict is then by the
number of segments; for every path it is by the parts that are missing. -/
theorem segmentCount_counts {text : String} (parsed : ActionRef.parse text = .remote action) :
    ∃ path, text = path ++ "@" ++ action.revision ∧ '@' ∉ action.revision.toList ∧
      (action.segmentCount = min 3 (segments path).length ↔ action.Regular) ∧
      (path ≠ "" → ¬['/'] <+: path.toList → ¬['/', '/'] <:+: path.toList → action.Regular) ∧
      ∀ owners,
        (action.Regular →
          (pathProblem owners action ≠ none ↔ (segments path).length < neededSegments owners action)) ∧
        (pathProblem owners action ≠ none ↔
          if action.isInternal owners then action.repo = none ∨ action.subpath = none
          else action.repo = none ∧ action.subpath = none) := by
  obtain ⟨_, _, separable, path, member, cut⟩ := ActionRef.parse_eq_remote.mp parsed
  have counts := RemoteAction.segmentCount_eq_iff separable member
  refine ⟨path, cut, separable.revision, counts, RemoteAction.regular_of_single separable member, ?_⟩
  intro owners
  refine ⟨fun regular => ?_, pathProblem_ne_none_iff⟩
  have count := counts.mpr regular
  have needed : neededSegments owners action ≤ 3 := by
    unfold neededSegments
    split <;> omega
  rw [ne_eq, pathProblem_eq_none, not_not, count]
  omega

theorem segmentCount_counts_nested :
    let action : RemoteAction := ⟨"o/r/a/b@1", "o", some "r", some "a/b", "1"⟩
    ActionRef.parse "o/r/a/b@1" = .remote action ∧ ∃ path, "o/r/a/b@1" = path ++ "@" ++ "1" ∧
      action.segmentCount = min 3 (segments path).length ∧
      ¬(segments path).length < neededSegments "o" action := by
  intro action
  have parsed : ActionRef.parse "o/r/a/b@1" = .remote action := by decide
  obtain ⟨path, cut, _, counts, _, judged⟩ := segmentCount_counts parsed
  have regular : action.Regular := by
    unfold RemoteAction.Regular
    decide
  obtain ⟨bySegments, _⟩ := judged "o"
  have complete : pathProblem "o" action = none := by decide
  exact ⟨parsed, path, cut, counts.mpr regular, mt (bySegments regular).mpr (not_not.mpr complete)⟩

/-- One segment behind a slash counts as two, two segments with slashes behind them as three, and three
segments with an empty piece among them as two. The first two paths pass for complete, and the third one,
which is complete, does not. -/
theorem segmentCount_miscounts :
    let slash : RemoteAction := ⟨"/repo@x", "", some "repo", none, "x"⟩
    let trailing : RemoteAction := ⟨"o/r//@x", "o", some "r", some "/", "x"⟩
    let gap : RemoteAction := ⟨"o//a/b@x", "o", none, some "a/b", "x"⟩
    (ActionRef.parse "/repo@x" = .remote slash ∧ segments "/repo" = ["repo"] ∧ slash.segmentCount = 2 ∧
      neededSegments "bitwarden" slash = 2 ∧ pathProblem "bitwarden" slash = none) ∧
    (ActionRef.parse "o/r//@x" = .remote trailing ∧ segments "o/r//" = ["o", "r"] ∧
      trailing.segmentCount = 3 ∧ neededSegments "o" trailing = 3 ∧ pathProblem "o" trailing = none) ∧
    (ActionRef.parse "o//a/b@x" = .remote gap ∧ segments "o//a/b" = ["o", "a", "b"] ∧
      gap.segmentCount = 2 ∧ neededSegments "o" gap = 3 ∧ pathProblem "o" gap ≠ none) := by
  intro slash trailing gap
  refine ⟨⟨by decide, by decide, by decide, ?_, by decide⟩, ⟨by decide, by decide, by decide, ?_, by decide⟩,
    ⟨by decide, by decide, by decide, ?_, by decide⟩⟩
  · rw [neededSegments, if_neg (by decide)]
  · rw [neededSegments, if_pos (by decide)]
  · rw [neededSegments, if_pos (by decide)]

end Rules

end WorkflowLint

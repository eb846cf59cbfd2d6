import WorkflowLint.Proofs.Config.Root

/-! How far up a root directory is looked for.

The way up from a path goes through its parents to the root or to the empty path. The nearest directory on
it with a marker is the root, whatever lies above; where none has one, the walk has come to the top and the
path that it started from is taken instead. -/

set_option autoImplicit false

namespace WorkflowLint.Config

section Climbing

variable (present : Path → Bool) (start : Path)

/-- The walk upwards from a directory, one look after the other: it ends at the first marker, and at
`start` where it has come to the top without one. -/
inductive Climbs : Path → Path → Prop where
  | marked {directory : Path} : hasMarker present directory = true → Climbs directory directory
  | onward {directory parent root : Path} : hasMarker present directory = false →
      directory.parent = some parent → Climbs parent root → Climbs directory root
  | ended {directory : Path} : hasMarker present directory = false → directory.parent = none →
      Climbs directory start

variable {present start}

theorem markedFrom_of_marked {directory : Path} (marked : hasMarker present directory = true) :
    markedFrom present directory = some directory := by
  cases up : directory.parent with
  | none => simp [markedFrom, Path.ancestors_of_top up, marked]
  | some parent => simp [markedFrom, Path.ancestors_of_parent up, marked]

theorem markedFrom_of_parent {directory parent : Path} (unmarked : hasMarker present directory = false)
    (up : directory.parent = some parent) : markedFrom present directory = markedFrom present parent := by
  simp [markedFrom, Path.ancestors_of_parent up, unmarked]

theorem markedFrom_of_top {directory : Path} (unmarked : hasMarker present directory = false)
    (top : directory.parent = none) : markedFrom present directory = none := by
  simp [markedFrom, Path.ancestors_of_top top, unmarked]

theorem climbs_iff {directory root : Path} :
    Climbs present start directory root ↔ root = (markedFrom present directory).getD start := by
  constructor
  · intro climbs
    induction climbs with
    | marked marked => rw [markedFrom_of_marked marked, Option.getD_some]
    | onward unmarked up _ ih => rw [markedFrom_of_parent unmarked up, ih]
    | ended unmarked top => rw [markedFrom_of_top unmarked top, Option.getD_none]
  · rintro rfl
    induction directory using Path.parentInduction with
    | top directory top =>
      cases marked : hasMarker present directory with
      | true =>
        rw [markedFrom_of_marked marked]
        exact .marked marked
      | false =>
        rw [markedFrom_of_top marked top]
        exact .ended marked top
    | below directory parent up ih =>
      cases marked : hasMarker present directory with
      | true =>
        rw [markedFrom_of_marked marked]
        exact .marked marked
      | false =>
        rw [markedFrom_of_parent marked up]
        exact .onward marked up ih

end Climbing

section WayUp

variable {present : Path → Bool} {start root : Path} {before after : List Path}
  (way : start.ancestors = before ++ root :: after)
include way

theorem markedFrom_of_nearest (marked : hasMarker present root = true)
    (unmarked : ∀ directory ∈ before, hasMarker present directory = false) :
    markedFrom present start = some root := by
  have none : before.find? (hasMarker present) = none := by
    rw [List.find?_eq_none]
    intro directory member
    simp [unmarked directory member]
  simp [markedFrom, way, List.find?_append, none, marked]

/-- A marker ends the walk: all that is looked at lies at or below it. -/
theorem markedFrom_within (marked : hasMarker present root = true) :
    ∃ found ∈ before ++ [root], found ∉ after ∧ markedFrom present start = some found ∧
      ∀ other : Path → Bool,
        (∀ directory ∈ before ++ [root], hasMarker other directory = hasMarker present directory) →
        markedFrom other start = some found := by
  have cut : start.ancestors = (before ++ [root]) ++ after := by
    rw [way, List.append_assoc]
    rfl
  have some_found : ((before ++ [root]).find? (hasMarker present)).isSome = true := by
    simp [marked]
  obtain ⟨found, nearest⟩ := Option.isSome_iff_exists.mp some_found
  have within := List.mem_of_find?_eq_some nearest
  have apart := start.nodup_ancestors
  rw [cut] at apart
  refine ⟨found, within, fun above => (List.nodup_append.mp apart).2.2 found within found above rfl, ?_, ?_⟩
  · rw [markedFrom, cut, List.find?_append, nearest, Option.some_or]
  · intro other same
    have found_again : (before ++ [root]).find? (hasMarker other) = some found :=
      (List.find?_congr same).trans nearest
    rw [markedFrom, cut, List.find?_append, found_again, Option.some_or]

end WayUp

theorem hasMarker_of_repository {present : Path → Bool} {repository : Path}
    (git : present (repository.child ".git") = true) : hasMarker present repository = true :=
  List.any_eq_true.mpr ⟨".git", by decide, git⟩

theorem markedFrom_eq_none {present : Path → Bool} {start : Path} :
    markedFrom present start = none ↔ ∀ directory ∈ start.ancestors, hasMarker present directory = false := by
  simp [markedFrom]

theorem rootFrom_eq_start_iff {present : Path → Bool} {start : Path} :
    rootFrom present start = start ↔
      (∀ directory ∈ start.ancestors, hasMarker present directory = false) ∨ hasMarker present start = true := by
  constructor
  · intro same
    cases found : markedFrom present start with
    | none => exact .inl (markedFrom_eq_none.mp found)
    | some nearest =>
      have nearestStart : nearest = start := by simpa [rootFrom_eq, found] using same
      exact .inr (nearestStart ▸ List.find?_some found)
  · rintro (unmarked | marked)
    · simp [rootFrom_eq, markedFrom_eq_none.mpr unmarked]
    · simp [rootFrom_eq, markedFrom_of_marked marked]

theorem load_of_no_file {files : FileSystem} {directory : Path}
    (missing : ∀ name ∈ fileNames.map Prod.fst, files.contains (directory.child name) = false) :
    load files directory = none := by
  have none : (fileNames.find? fun entry => files.contains (directory.child entry.1)) = none := by
    rw [List.find?_eq_none]
    intro entry member
    simp [missing entry.1 (List.mem_map_of_mem member)]
  rw [load_eq, none]
  rfl

end WorkflowLint.Config

import WorkflowLint.Proofs.Files.Lookup

/-! The places in a tree that paths lead to.

A tree has one way from its root to each place, so the names on that way tell the place. They can be read
off the path and the working directory: two dots take away the name before them. Paths that are written
alike therefore lead to one place only if they are the same. -/

set_option autoImplicit false

namespace WorkflowLint

namespace Path

def IsLevel (path : Path) : Prop := Component.up ∉ path.components

def IsPointed (path : Path) : Prop := path.components.head? = some .here

/-- Neither path leads upwards, and both start in the same way. -/
structure SpelledAlike (path other : Path) : Prop where
  start : path.isAbsolute = other.isAbsolute
  point : path.IsPointed ↔ other.IsPointed
  level : path.IsLevel
  other_level : other.IsLevel

instance (path : Path) : Decidable path.IsLevel := inferInstanceAs (Decidable (_ ∉ _))

instance (path : Path) : Decidable path.IsPointed := inferInstanceAs (Decidable (_ = _))

theorem isLevel_iff {path : Path} : path.IsLevel ↔ Component.up ∉ path.steps := by
  unfold IsLevel
  cases absolute : path.isAbsolute with
  | true => simp [components_absolute absolute]
  | false => rcases components_relative absolute with same | same <;> simp [same]

theorem steps_of_isLevel {path : Path} (level : path.IsLevel) :
    ∃ names : List String, path.steps = names.map .name := by
  refine ⟨path.steps.map Component.text, ?_⟩
  rw [List.map_map]
  refine (List.map_id _).symm.trans (List.map_congr_left fun component member => ?_)
  obtain ⟨piece, _, found⟩ := List.mem_filterMap.mp member
  cases component with
  | root => exact absurd found (componentOf_ne_root piece)
  | here => exact absurd found (componentOf_ne_here piece)
  | up => exact absurd member (isLevel_iff.mp level)
  | name text => rfl

theorem components_of_steps {path other : Path} (start : path.isAbsolute = other.isAbsolute)
    (point : path.IsPointed ↔ other.IsPointed) (same : path.steps = other.steps) :
    path.components = other.components := by
  have unpointed : ∀ path : Path, path.steps.head? ≠ some .here := by
    intro path first
    obtain ⟨piece, _, found⟩ := List.mem_filterMap.mp (List.mem_of_mem_head? (Option.mem_def.mpr first))
    exact componentOf_ne_here piece found
  cases absolute : path.isAbsolute with
  | true =>
    rw [components_absolute absolute, components_absolute (start.symm.trans absolute), same]
  | false =>
    unfold IsPointed at point
    rcases components_relative absolute with plain | pointed <;>
      rcases components_relative (start.symm.trans absolute) with plain' | pointed'
    · rw [plain, plain', same]
    · exact absurd (plain ▸ point.mpr (by rw [pointed']; rfl)) (unpointed path)
    · exact absurd (plain' ▸ point.mp (by rw [pointed]; rfl)) (unpointed other)
    · rw [pointed, pointed', same]

end Path

namespace FileSystem

open WorkflowLint.Path (Component SpelledAlike)

/-- One component further from a place, which is told by the names that lead there, the last one first. -/
def onward (names : List String) : Component → List String
  | .name text => text :: names
  | .up => names.tail
  | .root | .here => names

theorem foldl_onward_names (start names : List String) :
    (names.map Component.name).foldl onward start = names.reverse ++ start := by
  induction names generalizing start with
  | nil => rfl
  | cons name rest ih => simp [onward, ih]

variable (files : FileSystem)

def destination (path : Path) : List String :=
  (((files.startOf path ++ path.pieces).filterMap Path.componentOf).foldl onward []).reverse

variable {files}

theorem walk_names {trail there : Trail} {pieces : List String} (reached : files.walk trail pieces = .ok there) :
    there.map Prod.fst = (pieces.filterMap Path.componentOf).foldl onward (trail.map Prod.fst) := by
  induction pieces generalizing trail with
  | nil =>
    cases reached
    rfl
  | cons piece rest ih =>
    rw [walk] at reached
    split at reached
    · cases reached
    · split at reached
      · next passed =>
        have none : Path.componentOf piece = none := by simp [Path.componentOf, passed]
        rw [List.filterMap_cons_none none, ih reached]
      · next other =>
        split at reached
        · next up =>
          have some_up : Path.componentOf piece = some .up := by simp [Path.componentOf, up]
          rw [List.filterMap_cons_some some_up, ih reached, List.foldl_cons, List.map_tail]
          rfl
        · next noUp =>
          split at reached
          · cases reached
          · split at reached
            · cases reached
            · have some_name : Path.componentOf piece = some (.name piece) := by
                simp [Path.componentOf, other, noUp]
              rw [List.filterMap_cons_some some_name, ih reached]
              rfl

theorem locate_eq_destination {path : Path} {names : List String} (located : files.locate path = .ok names) :
    names = files.destination path := by
  have reached : ∃ there, files.walk [] (files.startOf path ++ path.pieces) = .ok there ∧
      (there.map Prod.fst).reverse = names := by
    unfold locate at located
    split at located
    · next trail resolved =>
      cases located
      refine ⟨trail, ?_, rfl⟩
      unfold resolve at resolved
      repeat' split at resolved
      all_goals try cases resolved
      · next absolute => rwa [startOf, if_pos absolute]
      · next relative _ start started =>
        rwa [startOf, if_neg relative, walk_append, started]
    · cases located
  obtain ⟨there, walked, rfl⟩ := reached
  rw [destination, walk_names walked]
  rfl

/-- Paths that are written alike are the same if they lead to the same place. -/
theorem components_of_destination {path other : Path} (alike : SpelledAlike path other)
    (same : files.destination path = files.destination other) : path.components = other.components := by
  obtain ⟨names, steps⟩ := Path.steps_of_isLevel alike.level
  obtain ⟨names', steps'⟩ := Path.steps_of_isLevel alike.other_level
  have opened : ∀ {path : Path} {names : List String}, path.steps = names.map .name →
      files.destination path =
        ((files.startOf path).filterMap Path.componentOf |>.foldl onward []).reverse ++ names := by
    intro path names steps
    have behind : path.pieces.filterMap Path.componentOf = names.map .name := steps
    rw [destination, List.filterMap_append, List.foldl_append, behind, foldl_onward_names,
      List.reverse_append, List.reverse_reverse]
  have start : files.startOf path = files.startOf other := by rw [startOf, startOf, alike.start]
  rw [opened steps, opened steps', start, List.append_cancel_left_eq] at same
  exact Path.components_of_steps alike.start alike.point (by rw [steps, steps', same])

end FileSystem

end WorkflowLint

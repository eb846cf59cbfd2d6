import WorkflowLint.Path.Relative
import WorkflowLint.Proofs.Path.Ancestors

/-! The way from an absolute directory to a path, and the name under which a path is shown.

A path is shown by what is left of its components behind those of the directory, or as it was given. What
is left is written with slashes between it, and read back it is the same components. So from the directory
each name leads where its path does. -/

set_option autoImplicit false

namespace WorkflowLint.Path

def written (components : List Component) : String := "/".intercalate (components.map Component.text)

section Written

def Component.IsPiece (component : Component) : Prop :=
  componentOf component.text = some component ∧ '/' ∉ component.text.toList

theorem isPiece_of_mem_steps {path : Path} {component : Component} (member : component ∈ path.steps) :
    component.IsPiece := by
  obtain ⟨piece, inPath, found⟩ := List.mem_filterMap.mp member
  have text := text_of_componentOf found
  exact ⟨text.symm ▸ found, text.symm ▸ path.pieces_free piece inPath⟩

theorem Component.IsPiece.text_ne {component : Component} (isPiece : component.IsPiece) :
    component.text ≠ "" := by
  intro empty
  have found := isPiece.1
  rw [empty] at found
  cases found

theorem Component.IsPiece.firstComponent {component : Component} (isPiece : component.IsPiece) :
    Path.firstComponent component.text = component := by
  have component_text : isComponent component.text = true := by rw [isComponent, isPiece.1]; rfl
  exact Option.some.inj ((componentOf_eq_firstComponent component_text).symm.trans isPiece.1)

variable {components : List Component} (isPiece : ∀ component ∈ components, component.IsPiece)
include isPiece

theorem filterMap_texts : (components.map Component.text).filterMap componentOf = components := by
  induction components with
  | nil => rfl
  | cons first rest ih =>
    rw [List.map_cons, List.filterMap_cons_some (isPiece first List.mem_cons_self).1,
      ih fun component member => isPiece component (List.mem_cons_of_mem _ member)]

theorem free_texts : Free (components.map Component.text) := by
  intro text member
  obtain ⟨component, given, rfl⟩ := List.mem_map.mp member
  exact (isPiece component given).2

theorem components_written : Path.components ⟨written components⟩ = components := by
  cases components with
  | nil => rfl
  | cons first rest =>
    have start := isPiece first List.mem_cons_self
    have others := filterMap_texts fun component member => isPiece component (List.mem_cons_of_mem first member)
    have opened := components_intercalate (free_texts isPiece) (.inl start.text_ne)
    rw [start.firstComponent, others] at opened
    exact opened

theorem isAbsolute_written : isAbsolute ⟨written components⟩ = false := by
  rw [Bool.eq_false_iff, Ne, isAbsolute_iff, components_written isPiece]
  intro rooted
  have start := isPiece .root (List.mem_of_mem_head? rooted)
  exact absurd start.1 (componentOf_ne_root _)

theorem steps_written : steps ⟨written components⟩ = components := by
  have pointless : ∀ component ∈ components, (component ≠ .here : Bool) = true := fun component member => by
    rw [decide_eq_true_iff]
    rintro rfl
    exact componentOf_ne_here _ (isPiece .here member).1
  rw [steps_eq_filter (isAbsolute_written isPiece), components_written isPiece,
    List.filter_eq_self.mpr pointless]

theorem ofComponents_eq_written : ofComponents components = ⟨written components⟩ := by
  unfold ofComponents
  split
  · rfl
  · next rest => exact absurd (isPiece .root List.mem_cons_self).1 (componentOf_ne_root _)
  · rfl

end Written

section StepsFrom

variable {base path : List Component}

theorem stepsFrom_append (base rest : List Component) : stepsFrom false base (base ++ rest) = some rest := by
  induction base with
  | nil => cases rest <;> rfl
  | cons first base ih => simpa [stepsFrom] using ih

/-- Where a path does not go through the base, the way to it starts upwards, if it can be told. -/
theorem stepsFrom_of_not_prefix (pointless : .here ∉ base) (apart : ¬base <+: path) {way : List Component}
    (found : stepsFrom false base path = some way) : ∃ rest, way = .up :: rest ∧
      ∀ component ∈ rest, component = .up ∨ component ∈ path := by
  induction base generalizing path with
  | nil => exact absurd List.nil_prefix apart
  | cons first base ih =>
    obtain ⟨other, behind⟩ := not_or.mp (mt List.mem_cons.mpr pointless)
    cases path with
    | nil =>
      cases found
      exact ⟨_, rfl, fun component member => .inl (List.eq_of_mem_map_const member)⟩
    | cons next path =>
      by_cases same : next = first
      · subst same
        have along : stepsFrom false base path = some way := by simpa [stepsFrom] using found
        obtain ⟨rest, starts, members⟩ := ih behind (fun inside => apart ((List.prefix_cons_inj _).mpr inside)) along
        exact ⟨rest, starts, fun component member => (members component member).imp_right (List.mem_cons_of_mem _)⟩
      · have upwards : some (.up :: base.map (fun _ => .up) ++ next :: path) = some way → ∃ rest,
            way = .up :: rest ∧ ∀ component ∈ rest, component = .up ∨ component ∈ next :: path := by
          rintro ⟨⟩
          refine ⟨_, rfl, fun component member => ?_⟩
          exact (List.mem_append.mp member).imp_left List.eq_of_mem_map_const
        cases first with
        | here => exact absurd rfl other
        | up => simp [stepsFrom, same] at found
        | root => exact upwards (by simpa [stepsFrom, same] using found)
        | name text => exact upwards (by simpa [stepsFrom, same] using found)

end StepsFrom

/-- What is left of a path below a base. -/
def LeavesBelow (base path : Path) (rest : List Component) : Prop :=
  path.components = base.components ++ rest ∧ rest ≠ []

section Shown

variable {base path : Path} {rest : List Component} (absolute : base.isAbsolute = true)
include absolute

theorem LeavesBelow.isAbsolute (below : base.LeavesBelow path rest) : path.isAbsolute = true := by
  rw [isAbsolute_iff, below.1, components_absolute absolute]
  rfl

theorem LeavesBelow.steps (below : base.LeavesBelow path rest) : path.steps = base.steps ++ rest := by
  have components := below.1
  rw [components_absolute (below.isAbsolute absolute), components_absolute absolute] at components
  exact (List.cons.inj components).2

theorem LeavesBelow.isPiece (below : base.LeavesBelow path rest) :
    ∀ component ∈ rest, component.IsPiece := fun _ member =>
  isPiece_of_mem_steps (below.steps absolute ▸ List.mem_append_right base.steps member)

/-- For two absolute paths the way is found behind the root. -/
theorem relativeTo_absolute (rooted : path.isAbsolute = true) :
    base.relativeTo path = (stepsFrom false base.steps path.steps).map ofComponents := by
  rw [relativeTo, if_pos (rooted.trans absolute.symm), components_absolute absolute, components_absolute rooted]
  simp [stepsFrom]

theorem LeavesBelow.shownFrom (below : base.LeavesBelow path rest) :
    base.shownFrom path = if rest.head? = some .up then path.text else written rest := by
  have pieces := below.isPiece absolute
  have inside : (written rest).isEmpty = false := by
    rw [Bool.eq_false_iff, Ne, String.isEmpty_iff]
    intro empty
    exact below.2 ((components_written pieces).symm.trans (components_eq_nil_iff.mpr empty))
  rw [Path.shownFrom, relativeTo_absolute absolute (below.isAbsolute absolute), below.steps absolute,
    stepsFrom_append, Option.map_some, ofComponents_eq_written pieces]
  simp [inside, components_written pieces]

theorem shownFrom_apart (apart : ∀ rest, ¬base.LeavesBelow path rest) : base.shownFrom path = path.text := by
  cases rooted : path.isAbsolute with
  | false => simp [shownFrom, relativeTo, absolute, rooted]
  | true =>
    rw [shownFrom, relativeTo_absolute absolute rooted]
    by_cases through : base.steps <+: path.steps
    · obtain ⟨rest, steps⟩ := through
      have components : path.components = base.components ++ rest := by
        rw [components_absolute absolute, components_absolute rooted, ← steps, List.cons_append]
      -- Nothing may be left: the path is the base itself.
      have none : rest = [] := by
        by_contra some_left
        exact apart rest ⟨components, some_left⟩
      rw [← steps, stepsFrom_append, none]
      rfl
    · cases found : stepsFrom false base.steps path.steps with
      | none => rfl
      | some way =>
        obtain ⟨rest, rfl, members⟩ := stepsFrom_of_not_prefix
          (fun here => componentOf_ne_here _ (isPiece_of_mem_steps here).1) through found
        have pieces : ∀ component ∈ .up :: rest, Component.IsPiece component := by
          have upwards : Component.IsPiece .up := ⟨rfl, by decide⟩
          rw [List.forall_mem_cons]
          refine ⟨upwards, fun component member => ?_⟩
          exact (members component member).elim (· ▸ upwards) isPiece_of_mem_steps
        rw [Option.map_some, ofComponents_eq_written pieces]
        simp [components_written pieces]

theorem place_shownFrom : base.place ⟨base.shownFrom path⟩ = base.place path := by
  by_cases below : ∃ rest, base.LeavesBelow path rest
  · obtain ⟨rest, below⟩ := below
    rw [below.shownFrom absolute]
    split
    · rfl
    · have pieces := below.isPiece absolute
      rw [place_relative (text_ne_of_absolute absolute) (isAbsolute_written pieces), steps_written pieces,
        place_absolute (below.isAbsolute absolute), below.1]
  · rw [shownFrom_apart absolute (not_exists.mp below)]

/-- What is left below the base is the name just when it does not start upwards. -/
theorem LeavesBelow.shownFrom_eq_iff (below : base.LeavesBelow path rest) :
    base.shownFrom path = written rest ↔ rest.head? ≠ some .up := by
  rw [below.shownFrom absolute]
  split
  · next upwards =>
    refine iff_of_false (fun same => ?_) (not_not_intro upwards)
    -- The path starts at the root, and what is left of it does not.
    have relative := isAbsolute_written (below.isPiece absolute)
    rw [← same, below.isAbsolute absolute] at relative
    cases relative
  · next level => exact iff_of_true rfl level

end Shown

end WorkflowLint.Path

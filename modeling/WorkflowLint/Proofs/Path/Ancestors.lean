import Mathlib.Data.List.Chain
import Mathlib.Data.List.DropRight
import Mathlib.Data.List.Infix
import WorkflowLint.Proofs.Path.Components

/-! Going up from a path.

The parent of a path is cut out of its text. Of the components it takes the last one away, down to the
root or to nothing, so that the ancestors of a path are known by its components. -/

set_option autoImplicit false

namespace WorkflowLint.Path

theorem keepThrough_eq (accept : String → Bool) (pieces : List String) :
    keepThrough accept pieces = pieces.rdropWhile fun piece => !accept piece := rfl

theorem keepThrough_isPrefix (accept : String → Bool) (pieces : List String) :
    keepThrough accept pieces <+: pieces :=
  List.rdropWhile_prefix _ pieces

theorem filterMap_keepThrough (pieces : List String) :
    (keepThrough isComponent pieces).filterMap componentOf = pieces.filterMap componentOf := by
  induction pieces using List.reverseRecOn with
  | nil => rfl
  | append_singleton rest piece ih =>
    rw [keepThrough_eq, List.rdropWhile_concat]
    split
    · next passed =>
      have none : componentOf piece = none := by simpa [isComponent] using passed
      rw [← keepThrough_eq, ih, List.filterMap_append, List.filterMap_cons_none none, List.filterMap_nil,
        List.append_nil]
    · rfl

section ParentPieces

variable {rest kept : List String}

theorem parentPieces_eq_none : parentPieces rest = none ↔ rest.filterMap componentOf = [] := by
  rw [← filterMap_keepThrough]
  unfold parentPieces
  cases through : keepThrough isComponent rest with
  | nil => simp
  | cons piece pieces =>
    have last := List.rdropWhile_last_not (fun piece => !isComponent piece) rest
      (by rw [← keepThrough_eq, through]; exact nofun)
    simp only [← keepThrough_eq, through] at last
    refine ⟨nofun, fun none => ?_⟩
    have silent := List.filterMap_eq_nil_iff.mp none _ (List.getLast_mem (by simp))
    simp [isComponent, silent] at last

theorem parentPieces_eq_some (some_kept : parentPieces rest = some kept) :
    rest.filterMap componentOf ≠ [] ∧
      kept.filterMap componentOf = (rest.filterMap componentOf).dropLast ∧ kept <+: rest := by
  refine ⟨fun none => ?_, ?_⟩
  · rw [parentPieces_eq_none.mpr none] at some_kept
    cases some_kept
  have through := filterMap_keepThrough rest
  have inside := keepThrough_isPrefix isComponent rest
  have last := List.rdropWhile_last_not (fun piece => !isComponent piece) rest
  rw [← keepThrough_eq] at last
  unfold parentPieces at some_kept
  split at some_kept
  · cases some_kept
  · next ne =>
    cases some_kept
    obtain ⟨before, piece, cut⟩ := (List.eq_nil_or_concat (keepThrough isComponent rest)).resolve_left ne
    rw [List.concat_eq_append] at cut
    simp only [cut] at last
    have component : isComponent piece = true := by simpa using last (by simp)
    rw [cut, List.filterMap_append,
      List.filterMap_cons_some (componentOf_eq_firstComponent component), List.filterMap_nil] at through
    rw [cut, List.dropLast_concat, filterMap_keepThrough, ← through, List.dropLast_concat]
    rw [cut] at inside
    exact ⟨rfl, (keepThrough_isPrefix _ before).trans ((List.prefix_append _ _).trans inside)⟩

end ParentPieces

/-- Going up takes away the last of the components, unless there is none or only the root. -/
def parentOf : List Component → Option (List Component)
  | [] => none
  | [.root] => none
  | components => some components.dropLast

theorem parentOf_eq_some {components : List Component} (ne : components ≠ []) (below : components ≠ [.root]) :
    parentOf components = some components.dropLast := by
  unfold parentOf
  split
  · exact absurd rfl ne
  · exact absurd rfl below
  · rfl

theorem components_intercalate {first : String} {rest : List String} (free : Free (first :: rest))
    (ne : first ≠ "" ∨ rest ≠ []) :
    components ⟨"/".intercalate (first :: rest)⟩ = firstComponent first :: rest.filterMap componentOf := by
  have pieces := pieces_intercalate (List.cons_ne_nil first rest) free
  have text : "/".intercalate (first :: rest) ≠ "" := by
    intro empty
    rw [empty] at pieces
    obtain ⟨rfl, rfl⟩ := List.cons.inj pieces
    exact ne.elim (fun h => h rfl) (fun h => h rfl)
  have opened := @components_of_text ⟨"/".intercalate (first :: rest)⟩ text
  rw [opened, pieces, componentsOf_cons]

theorem Free.of_prefix {pieces kept : List String} (free : Free pieces) (inside : kept <+: pieces) :
    Free kept :=
  fun piece member => free piece (inside.subset member)

theorem Free.cons_of_prefix {first : String} {rest kept : List String} (free : Free (first :: rest))
    (inside : kept <+: rest) : Free (first :: kept) :=
  free.of_prefix ((List.prefix_cons_inj first).mpr inside)

theorem parentOf_below {rest kept : List String} (first : String) (up : parentPieces rest = some kept) :
    parentOf (firstComponent first :: rest.filterMap componentOf) =
      some (firstComponent first :: kept.filterMap componentOf) := by
  obtain ⟨below, components, _⟩ := parentPieces_eq_some up
  rw [parentOf_eq_some (List.cons_ne_nil _ _) (fun only => below (List.cons.inj only).2),
    List.dropLast_cons_of_ne_nil below, ← components]

/-- Where the first piece is a name or leads up, it is kept or taken away like the others. -/
theorem components_parent_inside {first : String} {rest : List String} (free : Free (first :: rest))
    (inside : first ≠ "") (other : first ≠ ".") :
    ((parentPieces (first :: rest)).map fun kept => components ⟨"/".intercalate kept⟩) =
      parentOf (firstComponent first :: rest.filterMap componentOf) := by
  have component := componentOf_eq_firstComponent (isComponent_of_ne inside other)
  have same := List.filterMap_cons_some component (l := rest)
  rw [← same]
  cases up : parentPieces (first :: rest) with
  | none =>
    rw [parentPieces_eq_none.mp up]
    rfl
  | some kept =>
    obtain ⟨below, components, among⟩ := parentPieces_eq_some up
    have unrooted : (first :: rest).filterMap componentOf ≠ [.root] := fun only =>
      root_notMem_filterMap (first :: rest) (only ▸ List.mem_singleton_self _)
    rw [parentOf_eq_some below unrooted, ← components]
    cases kept with
    | nil => rfl
    | cons piece others =>
      obtain ⟨rfl, behind⟩ := List.cons_prefix_cons.mp among
      rw [List.filterMap_cons_some component]
      exact congrArg some (components_intercalate (free.cons_of_prefix behind) (.inl inside))

theorem components_parent (path : Path) : path.parent.map components = parentOf path.components := by
  by_cases empty : path.text = ""
  · obtain ⟨text⟩ := path
    cases empty
    rfl
  · rw [components_of_text empty]
    have free := path.pieces_free
    -- The first piece tells the cases: below the root, behind a point, or a piece like all others.
    unfold parent
    split
    · next rest pieces =>
      rw [pieces] at free ⊢
      rw [componentsOf_cons]
      cases up : parentPieces rest with
      | none =>
        rw [parentPieces_eq_none.mp up]
        rfl
      | some kept =>
        rw [parentOf_below "" up]
        cases kept with
        | nil => rfl
        | cons piece others =>
          have inside := (parentPieces_eq_some up).2.2
          exact congrArg some (components_intercalate (free.cons_of_prefix inside) (.inr nofun))
    · next rest pieces =>
      rw [pieces] at free ⊢
      rw [componentsOf_cons]
      split
      · next kept up =>
        have inside := (parentPieces_eq_some up).2.2
        rw [parentOf_below "." up]
        exact congrArg some (components_intercalate (free.cons_of_prefix inside) (.inl (by decide)))
      · next up =>
        rw [parentPieces_eq_none.mp up]
        rfl
    · next rooted pointed =>
      cases pieces : path.pieces with
      | nil => exact absurd pieces path.pieces_ne_nil
      | cons first rest =>
        rw [pieces] at free
        rw [componentsOf_cons, ← components_parent_inside free (fun empty => rooted rest (empty ▸ pieces))
          (fun point => pointed rest (point ▸ pieces)), Option.map_map]
        rfl

theorem parent_isAbsolute {path parent : Path} (absolute : path.isAbsolute = true)
    (up : path.parent = some parent) : parent.isAbsolute = true := by
  have components := path.components_parent
  rw [up, components_absolute absolute] at components
  cases steps : path.steps with
  | nil =>
    rw [steps] at components
    cases components
  | cons first rest =>
    rw [steps, parentOf_eq_some (by simp) (by simp), List.dropLast_cons_of_ne_nil (by simp)] at components
    rw [isAbsolute_iff, Option.some.inj components]
    rfl

theorem intercalate_prefix {kept pieces : List String} (inside : kept <+: pieces) :
    ∃ rest, "/".intercalate pieces = "/".intercalate kept ++ rest := by
  obtain ⟨more, rfl⟩ := inside
  by_cases first : kept = []
  · exact ⟨_, by rw [first, List.nil_append, String.intercalate_nil, String.empty_append]⟩
  · by_cases last : more = []
    · exact ⟨"", by rw [last, List.append_nil, String.append_empty]⟩
    · exact ⟨_, by rw [String.intercalate_append_of_ne_nil first last, String.append_assoc]⟩

theorem parent_text {path parent : Path} (up : path.parent = some parent) :
    ∃ rest, path.text = parent.text ++ rest := by
  rw [← path.intercalate_pieces]
  unfold Path.parent at up
  split at up
  · next rest pieces =>
    obtain ⟨kept, found, rfl⟩ := Option.map_eq_some_iff.mp up
    obtain ⟨below, _, inside⟩ := parentPieces_eq_some found
    rw [pieces]
    split
    · have behind : rest ≠ [] := by
        rintro rfl
        exact below rfl
      exact ⟨_, by rw [String.intercalate_cons_of_ne_nil behind, String.empty_append]⟩
    · exact intercalate_prefix ((List.prefix_cons_inj "").mpr inside)
  · next rest pieces =>
    rw [pieces]
    split at up
    · next kept found =>
      cases up
      exact intercalate_prefix ((List.prefix_cons_inj ".").mpr (parentPieces_eq_some found).2.2)
    · cases up
      exact ⟨_, (String.empty_append).symm⟩
  · obtain ⟨kept, found, rfl⟩ := Option.map_eq_some_iff.mp up
    exact intercalate_prefix (parentPieces_eq_some found).2.2

/-- What going up again and again leads through: the components themselves first, then without the
last one, and so on. -/
def upwards : List Component → List (List Component)
  | .root :: rest => (rest.inits.map (.root :: ·)).reverse
  | components => components.inits.reverse

theorem upwards_relative {components : List Component} (relative : components.head? ≠ some .root) :
    upwards components = components.inits.reverse := by
  unfold upwards
  split
  · exact absurd rfl relative
  · rfl

theorem inits_concat {α : Type} (items : List α) (last : α) :
    (items ++ [last]).inits = items.inits ++ [items ++ [last]] := by
  simp [List.inits_append]

theorem upwards_eq (components : List Component) :
    upwards components = components :: ((parentOf components).map upwards).getD [] := by
  rcases List.eq_nil_or_concat components with rfl | ⟨before, last, rfl⟩
  · rfl
  rw [List.concat_eq_append]
  cases before with
  | nil =>
    cases last <;> rfl
  | cons first rest =>
    rw [parentOf_eq_some (by simp) (by simp), List.dropLast_concat, Option.map_some, Option.getD_some]
    by_cases rooted : first = .root
    · cases rooted
      rw [List.cons_append, upwards, upwards, inits_concat, List.map_append, List.reverse_append]
      rfl
    · have relative : ∀ others, (first :: others).head? ≠ some .root := fun _ same =>
        rooted (Option.some.inj same)
      rw [List.cons_append, upwards_relative (relative _), upwards_relative (relative _),
        ← List.cons_append, inits_concat, List.reverse_append]
      rfl

theorem length_of_parentOf {components above : List Component} (up : parentOf components = some above) :
    above.length < components.length := by
  unfold parentOf at up
  split at up
  · cases up
  · cases up
  · next some_components _ =>
    cases up
    rw [List.length_dropLast]
    have := List.length_pos_iff.mpr (fun none => some_components none)
    omega

theorem ancestorsWithin_components {fuel : Nat} {path : Path} (enough : path.components.length ≤ fuel) :
    (path.ancestorsWithin fuel).map components = upwards path.components := by
  induction fuel generalizing path with
  | zero =>
    have none : path.components = [] := List.eq_nil_of_length_eq_zero (Nat.le_zero.mp enough)
    rw [ancestorsWithin, List.map_singleton, none]
    rfl
  | succ fuel ih =>
    have up := path.components_parent
    rw [upwards_eq, ancestorsWithin, ← up]
    split
    · next above found =>
      rw [found] at up
      have shorter := length_of_parentOf up.symm
      rw [List.map_cons, ih (by omega), found]
      rfl
    · next found =>
      rw [found]
      rfl

theorem components_ancestors (path : Path) : path.ancestors.map components = upwards path.components :=
  ancestorsWithin_components (Nat.le_refl _)

theorem length_components_parent {path parent : Path} (up : path.parent = some parent) :
    parent.components.length < path.components.length := by
  have components := path.components_parent
  rw [up, Option.map_some] at components
  exact length_of_parentOf components.symm

theorem parent_eq_none_iff {path : Path} : path.parent = none ↔ path.components = [.root] ∨ path.text = "" := by
  have same : path.parent = none ↔ parentOf path.components = none := by
    rw [← path.components_parent, Option.map_eq_none_iff]
  rw [same, ← components_eq_nil_iff]
  unfold parentOf
  split <;> simp_all

/-- What holds where the way up ends, and of each path of whose parent it holds, holds of all paths. -/
@[elab_as_elim]
theorem parentInduction {motive : Path → Prop} (top : ∀ path, path.parent = none → motive path)
    (below : ∀ path parent, path.parent = some parent → motive parent → motive path) (path : Path) :
    motive path := by
  generalize size : path.components.length = n
  induction n using Nat.strongRecOn generalizing path with
  | ind n ih =>
    cases up : path.parent with
    | none => exact top path up
    | some parent => exact below path parent up (ih _ (size ▸ length_components_parent up) parent rfl)

theorem ancestorsWithin_succ {fuel : Nat} {path : Path} (enough : path.components.length ≤ fuel) :
    path.ancestorsWithin (fuel + 1) = path.ancestorsWithin fuel := by
  induction fuel generalizing path with
  | zero =>
    have top : path.parent = none := by
      cases up : path.parent with
      | none => rfl
      | some parent =>
        have shorter := length_components_parent up
        omega
    simp [ancestorsWithin, top]
  | succ fuel ih =>
    rw [ancestorsWithin, ancestorsWithin]
    cases up : path.parent with
    | none => rfl
    | some parent =>
      have shorter := length_components_parent up
      exact congrArg (path :: ·) (ih (by omega))

theorem ancestors_of_top {path : Path} (top : path.parent = none) : path.ancestors = [path] := by
  unfold ancestors
  cases path.components.length with
  | zero => rfl
  | succ fuel => rw [ancestorsWithin, top]

theorem ancestors_of_parent {path parent : Path} (up : path.parent = some parent) :
    path.ancestors = path :: parent.ancestors := by
  -- A path has more components than its parent, so the parent is given fuel to spare.
  have settled : ∀ extra, parent.ancestorsWithin (parent.components.length + extra) = parent.ancestors := by
    intro extra
    induction extra with
    | zero => rfl
    | succ extra ih => exact (ancestorsWithin_succ (Nat.le_add_right _ _)).trans ih
  have shorter := length_components_parent up
  obtain ⟨extra, size⟩ := Nat.exists_eq_add_of_lt shorter
  rw [ancestors, size, ancestorsWithin, up, ← settled extra]

theorem head?_ancestors (path : Path) : path.ancestors.head? = some path := by
  cases up : path.parent with
  | none => rw [ancestors_of_top up, List.head?_cons]
  | some parent => rw [ancestors_of_parent up, List.head?_cons]

theorem isChain_ancestors (path : Path) :
    path.ancestors.IsChain fun below above => below.parent = some above := by
  induction path using parentInduction with
  | top path top =>
    rw [ancestors_of_top top]
    exact List.isChain_singleton path
  | below path parent up ih =>
    rw [ancestors_of_parent up]
    refine List.isChain_cons.mpr ⟨fun above first => ?_, ih⟩
    rw [head?_ancestors] at first
    exact up.trans first

theorem getLast?_ancestors (path : Path) : ∃ top, path.ancestors.getLast? = some top ∧ top.parent = none := by
  induction path using parentInduction with
  | top path top => exact ⟨path, by rw [ancestors_of_top top, List.getLast?_singleton], top⟩
  | below path parent up ih =>
    obtain ⟨top, last, noParent⟩ := ih
    exact ⟨top, by simp [ancestors_of_parent up, List.getLast?_cons, last], noParent⟩

/-- Each path on the way up is shorter than those before it, so no two of them are the same. -/
theorem nodup_ancestors (path : Path) : path.ancestors.Nodup := by
  have shorter := path.isChain_ancestors.imp fun _ _ up => length_components_parent up
  have descending : path.ancestors.Pairwise fun below above =>
      above.components.length < below.components.length := by
    have transitive : IsTrans Path fun below above => above.components.length < below.components.length :=
      ⟨fun _ _ _ first second => second.trans first⟩
    exact List.isChain_iff_pairwise.mp shorter
  refine descending.imp fun less same => ?_
  rw [same] at less
  exact Nat.lt_irrefl _ less

variable {start above : Path}

theorem components_of_mem_ancestors {path : Path} (member : above ∈ path.ancestors) :
    above.components ∈ upwards path.components :=
  path.components_ancestors ▸ List.mem_map_of_mem member

theorem ancestors_absolute (absolute : start.isAbsolute = true)
    (member : above ∈ start.ancestors) : above.isAbsolute = true := by
  have among := components_of_mem_ancestors member
  rw [components_absolute absolute] at among
  obtain ⟨kept, _, same⟩ := List.mem_map.mp (List.mem_reverse.mp among)
  rw [isAbsolute_iff, ← same]
  rfl

theorem ancestors_relative (relative : start.isAbsolute = false)
    (member : above ∈ start.ancestors) : above.isAbsolute = false := by
  have among := components_of_mem_ancestors member
  rw [← Bool.not_eq_true, isAbsolute_iff] at relative ⊢
  rw [upwards_relative relative, List.mem_reverse, List.mem_inits] at among
  intro rooted
  obtain ⟨rest, same⟩ := List.head?_eq_some_iff.mp rooted
  obtain ⟨more, cut⟩ := same ▸ among
  rw [← cut] at relative
  exact relative rfl

theorem mem_ancestors (path : Path) : path ∈ path.ancestors := by
  unfold ancestors
  cases path.components.length with
  | zero => exact List.mem_singleton_self path
  | succ fuel =>
    unfold ancestorsWithin
    split
    · exact List.mem_cons_self
    · exact List.mem_singleton_self path

theorem ancestors_text (member : above ∈ start.ancestors) : ∃ rest, start.text = above.text ++ rest := by
  unfold ancestors at member
  generalize start.components.length = fuel at member
  induction fuel generalizing start with
  | zero =>
    cases List.mem_singleton.mp member
    exact ⟨"", (String.append_empty).symm⟩
  | succ fuel ih =>
    unfold ancestorsWithin at member
    split at member
    · next parent up =>
      rcases List.mem_cons.mp member with rfl | higher
      · exact ⟨"", (String.append_empty).symm⟩
      · obtain ⟨rest, text⟩ := parent_text up
        obtain ⟨more, higher_text⟩ := ih higher
        exact ⟨more ++ rest, by rw [text, higher_text, String.append_assoc]⟩
    · cases List.mem_singleton.mp member
      exact ⟨"", (String.append_empty).symm⟩

/-- Above the places on the way down from an absolute one come its own. -/
theorem upwards_append (rest more : List Component) :
    upwards (.root :: rest ++ more) =
      more.inits.reverse.map (.root :: rest ++ ·) ++ ((parentOf (.root :: rest)).map upwards).getD [] := by
  have start : more.inits = [] :: more.inits.tail := by cases more <;> rfl
  have base := upwards_eq (.root :: rest)
  calc upwards (.root :: (rest ++ more))
      = (more.inits.tail.map (.root :: rest ++ ·)).reverse ++ upwards (.root :: rest) := by
        rw [upwards, upwards, List.inits_append, List.map_append, List.reverse_append, List.map_map]
        rfl
    _ = _ := by
        rw [start, base, List.reverse_cons, List.map_append, List.append_assoc, List.tail_cons,
          ← List.map_reverse]
        simp

end WorkflowLint.Path

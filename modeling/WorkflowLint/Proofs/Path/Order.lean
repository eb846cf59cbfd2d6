import Mathlib.Data.List.Sort
import WorkflowLint.Path.Basic

/-! The order of paths, and lists of paths in that order.

Paths are compared component by component, which makes a total order of their components: two paths
are alike in it just when they have the same ones. An ordered list is therefore known by the components
of its members. -/

set_option autoImplicit false

namespace WorkflowLint.Path

open Std (TransCmp LawfulEqCmp OrientedCmp ReflCmp)

namespace Component

/-- Components are compared by kind first; of one kind only names have texts that differ. -/
theorem order_eq_compareLex : Component.order = compareLex (compareOn rank) (compareOn text) := by
  funext a b
  cases a <;> cases b <;> rfl

instance : TransCmp Component.order := by
  rw [order_eq_compareLex]
  infer_instance

theorem eq_of_order {a b : Component} (same : a.order b = .eq) : a = b := by
  cases a <;> cases b <;> simp_all [order, rank]

end Component

theorem orderOf_eq_compareLex (as bs : List Component) :
    orderOf as bs = List.compareLex Component.order as bs := by
  induction as generalizing bs with
  | nil => cases bs <;> rfl
  | cons a as ih =>
    cases bs with
    | nil => rfl
    | cons b bs => rw [orderOf, ih, List.compareLex_cons_cons]

instance : TransCmp orderOf := by
  have same : orderOf = List.compareLex Component.order :=
    funext fun as => funext fun bs => orderOf_eq_compareLex as bs
  rw [same]
  infer_instance

theorem eq_of_orderOf {as bs : List Component} (same : orderOf as bs = .eq) : as = bs := by
  induction as generalizing bs with
  | nil => cases bs <;> simp_all [orderOf]
  | cons a as ih =>
    cases bs with
    | nil => cases same
    | cons b bs =>
      obtain ⟨first, rest⟩ := Ordering.then_eq_eq.mp same
      rw [Component.eq_of_order first, ih rest]

instance : LawfulEqCmp orderOf where
  eq_of_compare := eq_of_orderOf

instance : TransCmp Path.order where
  eq_swap := by
    unfold order
    exact OrientedCmp.eq_swap
  isLE_trans first second := by
    unfold order at first second ⊢
    exact TransCmp.isLE_trans first second

theorem order_eq_iff {a b : Path} : a.order b = .eq ↔ a.components = b.components := by
  unfold order
  exact LawfulEqCmp.compare_eq_iff_eq

def Ordered (paths : List Path) : Prop := paths.Pairwise fun a b => a.order b = .lt

/-- The list has this path, however it is written. -/
def Holds (paths : List Path) (path : Path) : Prop := ∃ found ∈ paths, found.components = path.components

theorem Ordered.components {paths : List Path} (ordered : Ordered paths) :
    (paths.map Path.components).Pairwise fun as bs => orderOf as bs = .lt :=
  List.pairwise_map.mpr ordered

theorem Ordered.nodup {paths : List Path} (ordered : Ordered paths) :
    (paths.map Path.components).Nodup := by
  refine List.pairwise_map.mpr (ordered.imp fun less same => ?_)
  rw [order_eq_iff.mpr same] at less
  cases less

/-- What is held says it all about an ordered list, as far as components go. -/
theorem Ordered.components_eq {paths others : List Path} (ordered : Ordered paths)
    (others_ordered : Ordered others) (same : ∀ path, Holds paths path ↔ Holds others path) :
    paths.map Path.components = others.map Path.components := by
  have asymm : ∀ {as bs : List Component}, orderOf as bs = .lt → ¬orderOf bs as = .lt := by
    intro as bs less more
    rw [← OrientedCmp.gt_iff_lt, less] at more
    cases more
  have antisymm : Std.Antisymm fun as bs : List Component => orderOf as bs = .lt :=
    ⟨fun _ _ less more => absurd more (asymm less)⟩
  have irrefl : Std.Irrefl fun as bs : List Component => orderOf as bs = .lt :=
    ⟨fun _ less => asymm less less⟩
  have covered : ∀ {paths others : List Path}, (∀ path, Holds paths path → Holds others path) →
      ∀ as ∈ paths.map Path.components, as ∈ others.map Path.components := by
    intro paths others holds as member
    obtain ⟨path, inPaths, rfl⟩ := List.mem_map.mp member
    obtain ⟨found, inOthers, alike⟩ := holds path ⟨path, inPaths, rfl⟩
    exact List.mem_map.mpr ⟨found, inOthers, alike⟩
  refine ordered.components.eq_of_mem_iff others_ordered.components fun as => ⟨?_, ?_⟩
  · exact covered (fun path => (same path).mp) as
  · exact covered (fun path => (same path).mpr) as

section Insertion

variable {path other : Path} {paths : List Path}

theorem mem_of_mem_insertOrdered (member : other ∈ path.insertOrdered paths) :
    other = path ∨ other ∈ paths := by
  induction paths with
  | nil => exact .inl (List.mem_singleton.mp member)
  | cons first rest ih =>
    unfold insertOrdered at member
    split at member
    · exact List.mem_cons.mp member
    · exact .inr member
    · rcases List.mem_cons.mp member with rfl | later
      · exact .inr List.mem_cons_self
      · exact (ih later).imp_right (List.mem_cons_of_mem _)

theorem mem_insertOrdered_of_mem (member : other ∈ paths) : other ∈ path.insertOrdered paths := by
  induction paths with
  | nil => cases member
  | cons first rest ih =>
    unfold insertOrdered
    split
    · exact List.mem_cons_of_mem _ member
    · exact member
    · rcases List.mem_cons.mp member with rfl | later
      · exact List.mem_cons_self
      · exact List.mem_cons_of_mem _ (ih later)

theorem insertOrdered_holds (path : Path) (paths : List Path) : Holds (path.insertOrdered paths) path := by
  induction paths with
  | nil => exact ⟨path, List.mem_cons_self, rfl⟩
  | cons first rest ih =>
    unfold insertOrdered
    split
    · exact ⟨path, List.mem_cons_self, rfl⟩
    · next same => exact ⟨first, List.mem_cons_self, (order_eq_iff.mp same).symm⟩
    · obtain ⟨found, member, alike⟩ := ih
      exact ⟨found, List.mem_cons_of_mem _ member, alike⟩

theorem holds_insertOrdered :
    Holds (path.insertOrdered paths) other ↔ path.components = other.components ∨ Holds paths other := by
  constructor
  · rintro ⟨found, member, alike⟩
    rcases mem_of_mem_insertOrdered member with rfl | before
    · exact .inl alike
    · exact .inr ⟨found, before, alike⟩
  · rintro (alike | ⟨found, member, alike⟩)
    · obtain ⟨found, member, same⟩ := insertOrdered_holds path paths
      exact ⟨found, member, same.trans alike⟩
    · exact ⟨found, mem_insertOrdered_of_mem member, alike⟩

theorem Ordered.insertOrdered (ordered : Ordered paths) : Ordered (path.insertOrdered paths) := by
  induction paths with
  | nil => exact List.pairwise_singleton _ _
  | cons first rest ih =>
    obtain ⟨least, tail⟩ := List.pairwise_cons.mp ordered
    unfold Path.insertOrdered
    split
    · next less =>
      refine List.pairwise_cons.mpr ⟨fun later member => ?_, ordered⟩
      rcases List.mem_cons.mp member with rfl | member
      · exact less
      · exact TransCmp.lt_trans less (least later member)
    · exact ordered
    · next more =>
      refine List.pairwise_cons.mpr ⟨fun later member => ?_, ih tail⟩
      rcases mem_of_mem_insertOrdered member with rfl | member
      · exact OrientedCmp.gt_iff_lt.mp more
      · exact least later member

theorem foldl_insertOrdered (given paths : List Path) (ordered : Ordered paths) :
    let found := given.foldl (fun found path => path.insertOrdered found) paths
    Ordered found ∧ (∀ path ∈ found, path ∈ given ∨ path ∈ paths) ∧
      ∀ path, Holds found path ↔ Holds given path ∨ Holds paths path := by
  induction given generalizing paths with
  | nil => exact ⟨ordered, fun _ member => .inr member, fun _ => ⟨.inr, fun held => held.resolve_left nofun⟩⟩
  | cons first rest ih =>
    obtain ⟨sorted, origin, held⟩ := ih _ ordered.insertOrdered
    refine ⟨sorted, fun path member => ?_, fun path => ?_⟩
    · rcases origin path member with later | before
      · exact .inl (List.mem_cons_of_mem _ later)
      · rcases mem_of_mem_insertOrdered before with rfl | before
        · exact .inl List.mem_cons_self
        · exact .inr before
    · have opened : Holds (first :: rest) path ↔ first.components = path.components ∨ Holds rest path := by
        simp [Holds]
      rw [List.foldl_cons, held, holds_insertOrdered, opened]
      tauto

end Insertion

end WorkflowLint.Path

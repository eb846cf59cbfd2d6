import Mathlib.Data.List.Basic
import WorkflowLint.Path.Basic

/-! Paths by their components.

The text of a path is the pieces between its slashes, and these decide on its components. Joining two
paths, which is done to their texts, appends the components of the second one, but for a leading point. -/

set_option autoImplicit false

namespace WorkflowLint

namespace Text

theorem splitBy_ne_nil (isSeparator : Char → Bool) (cs : List Char) : splitBy isSeparator cs ≠ [] := by
  cases cs with
  | nil => exact nofun
  | cons c rest =>
    unfold splitBy
    split
    · exact nofun
    · split <;> exact nofun

theorem splitOn_eq (separator : Char) (cs : List Char) : splitOn separator cs = cs.splitOn separator := by
  induction cs with
  | nil => rfl
  | cons c rest ih =>
    rw [List.splitOn_cons_eq_if_modifyHead, ← ih, splitOn, splitBy]
    split
    · rfl
    · cases pieces : splitBy (· == separator) rest with
      | nil => exact absurd pieces (splitBy_ne_nil _ rest)
      | cons piece others => rfl

theorem mem_of_mem_splitOn {separator : Char} {cs piece : List Char} (member : piece ∈ splitOn separator cs) :
    ∀ c ∈ piece, c ∈ cs := by
  induction cs generalizing piece with
  | nil =>
    cases List.mem_singleton.mp member
    exact nofun
  | cons c rest ih =>
    rw [splitOn, splitBy] at member
    split at member
    · rcases List.mem_cons.mp member with rfl | later
      · exact nofun
      · exact fun d inside => List.mem_cons_of_mem _ (ih later d inside)
    · split at member
      · next none => exact absurd none (splitBy_ne_nil _ rest)
      · next first others pieces =>
        have cut : splitOn separator rest = first :: others := pieces
        rw [cut] at ih
        rcases List.mem_cons.mp member with rfl | later
        · rw [List.forall_mem_cons]
          exact ⟨List.mem_cons_self, fun d inside => List.mem_cons_of_mem _ (ih List.mem_cons_self d inside)⟩
        · exact fun d inside => List.mem_cons_of_mem _ (ih (List.mem_cons_of_mem _ later) d inside)

/-- All but the separators is kept. -/
theorem exists_mem_splitOn {separator c : Char} {cs : List Char} (member : c ∈ cs) (other : c ≠ separator) :
    ∃ piece ∈ splitOn separator cs, c ∈ piece := by
  induction cs with
  | nil => cases member
  | cons first rest ih =>
    rw [splitOn, splitBy]
    split
    · next isSeparator =>
      have later : c ∈ rest := (List.mem_cons.mp member).resolve_left fun same =>
        other (same.trans (beq_iff_eq.mp isSeparator))
      obtain ⟨piece, cut, inside⟩ := ih later
      exact ⟨piece, List.mem_cons_of_mem _ cut, inside⟩
    · split
      · next none => exact absurd none (splitBy_ne_nil _ rest)
      · next piece pieces cut =>
        rcases List.mem_cons.mp member with rfl | later
        · exact ⟨_, List.mem_cons_self, List.mem_cons_self⟩
        · obtain ⟨found, inCut, inside⟩ := ih later
          rw [splitOn, cut] at inCut
          rcases List.mem_cons.mp inCut with rfl | behind
          · exact ⟨_, List.mem_cons_self, List.mem_cons_of_mem _ inside⟩
          · exact ⟨found, List.mem_cons_of_mem _ behind, inside⟩

theorem separator_notMem {separator : Char} {cs piece : List Char} (member : piece ∈ splitOn separator cs) :
    separator ∉ piece := by
  induction cs generalizing piece with
  | nil =>
    cases List.mem_singleton.mp member
    exact List.not_mem_nil
  | cons c rest ih =>
    rw [splitOn, splitBy] at member
    split at member
    · rcases List.mem_cons.mp member with rfl | later
      · exact List.not_mem_nil
      · exact ih later
    · next inside =>
      split at member
      · next none => exact absurd none (splitBy_ne_nil _ rest)
      · next first others pieces =>
        have cut : splitOn separator rest = first :: others := pieces
        rw [cut] at ih
        rcases List.mem_cons.mp member with rfl | later
        · rintro (_ | ⟨_, inFirst⟩)
          · simp at inside
          · exact ih List.mem_cons_self inFirst
        · exact ih (List.mem_cons_of_mem _ later)

theorem mem_of_mapM {α β : Type} {f : α → Option β} {given : List α} {results : List β}
    (read : given.mapM f = some results) :
    (∀ a ∈ given, ∃ b ∈ results, f a = some b) ∧ ∀ b ∈ results, ∃ a ∈ given, f a = some b := by
  induction given generalizing results with
  | nil =>
    cases read
    exact ⟨nofun, nofun⟩
  | cons first rest ih =>
    rw [List.mapM_cons] at read
    obtain ⟨result, own, others⟩ := Option.bind_eq_some_iff.mp read
    obtain ⟨more, behind, same⟩ := Option.bind_eq_some_iff.mp others
    cases same
    obtain ⟨forward, backward⟩ := ih behind
    constructor
    · intro a member
      rcases List.mem_cons.mp member with rfl | later
      · exact ⟨result, List.mem_cons_self, own⟩
      · obtain ⟨b, inMore, found⟩ := forward a later
        exact ⟨b, List.mem_cons_of_mem _ inMore, found⟩
    · intro b member
      rcases List.mem_cons.mp member with rfl | later
      · exact ⟨first, List.mem_cons_self, own⟩
      · obtain ⟨a, inRest, found⟩ := backward b later
        exact ⟨a, List.mem_cons_of_mem _ inRest, found⟩

end Text

namespace Path

section Pieces

theorem pieces_eq (path : Path) : path.pieces = (path.text.toList.splitOn '/').map String.ofList := by
  rw [pieces, Text.splitOn_eq]

theorem pieces_ne_nil (path : Path) : path.pieces ≠ [] := by
  rw [pieces_eq, Ne, List.map_eq_nil_iff]
  exact List.splitOn_ne_nil _ _

theorem intercalate_pieces (path : Path) : "/".intercalate path.pieces = path.text := by
  apply String.toList_injective
  rw [String.toList_intercalate, pieces_eq, List.map_map]
  simp [Function.comp_def, List.intercalate_splitOn]

def Free (pieces : List String) : Prop := ∀ piece ∈ pieces, '/' ∉ piece.toList

theorem pieces_free (path : Path) : Free path.pieces := by
  intro piece member
  obtain ⟨cs, cut, rfl⟩ := List.mem_map.mp member
  rw [String.toList_ofList]
  exact Text.separator_notMem cut

theorem pieces_intercalate {pieces : List String} (ne : pieces ≠ []) (free : Free pieces) :
    (Path.mk ("/".intercalate pieces)).pieces = pieces := by
  have split : (List.intercalate ['/'] (pieces.map String.toList)).splitOn '/' =
      pieces.map String.toList := by
    refine List.splitOn_intercalate '/' (fun piece member => ?_) (by simpa using ne)
    obtain ⟨text, given, rfl⟩ := List.mem_map.mp member
    exact free text given
  have slash : "/".toList = ['/'] := rfl
  rw [pieces_eq, String.toList_intercalate, slash, split, List.map_map]
  simp [Function.comp_def]

theorem pieces_append (before after : String) :
    (Path.mk (before ++ "/" ++ after)).pieces = (Path.mk before).pieces ++ (Path.mk after).pieces := by
  have cut : (before ++ "/" ++ after).toList = before.toList ++ '/' :: after.toList := by simp
  rw [pieces_eq, cut, List.splitOn_append_cons_self, List.map_append, pieces_eq, pieces_eq]

end Pieces

def firstComponent (piece : String) : Component :=
  if piece = "" then .root else if piece = "." then .here else if piece = ".." then .up else .name piece

theorem componentOf_eq_firstComponent {piece : String} (isComponent_piece : isComponent piece = true) :
    componentOf piece = some (firstComponent piece) := by
  unfold isComponent componentOf at isComponent_piece
  unfold componentOf firstComponent
  by_cases empty : piece = ""
  · simp [empty] at isComponent_piece
  · by_cases point : piece = "."
    · simp [point] at isComponent_piece
    · by_cases up : piece = ".." <;> simp [empty, point, up]

theorem isComponent_of_ne {piece : String} (inside : piece ≠ "") (other : piece ≠ ".") :
    isComponent piece = true := by
  simp only [isComponent, componentOf, inside, other, decide_false, Bool.or_self, Bool.false_eq_true,
    if_false]
  split <;> rfl

theorem componentsOf_cons (first : String) (rest : List String) :
    componentsOf (first :: rest) = firstComponent first :: rest.filterMap componentOf := by
  by_cases empty : first = ""
  · rw [empty]
    rfl
  · by_cases point : first = "."
    · rw [point]
      rfl
    · have component := componentOf_eq_firstComponent (isComponent_of_ne empty point)
      rw [componentsOf]
      · rw [List.filterMap_cons_some component]
      · exact fun rest same => empty (List.cons.inj same).1
      · exact fun rest same => point (List.cons.inj same).1

theorem components_of_text {path : Path} (ne : path.text ≠ "") : path.components = componentsOf path.pieces := by
  rw [components, if_neg (by simpa using ne)]

theorem components_eq_nil_iff {path : Path} : path.components = [] ↔ path.text = "" := by
  constructor
  · intro none
    by_contra ne
    rw [components_of_text ne] at none
    cases pieces : path.pieces with
    | nil => exact path.pieces_ne_nil pieces
    | cons first rest => simp [pieces, componentsOf_cons] at none
  · intro empty
    simp [components, empty]

/-- The components that a relative path leads by. -/
def steps (path : Path) : List Component := path.pieces.filterMap componentOf

theorem text_of_componentOf {piece : String} {component : Component}
    (found : componentOf piece = some component) : component.text = piece := by
  unfold componentOf at found
  split at found
  · cases found
  · split at found
    · next up =>
      cases found
      exact up.symm
    · cases found
      rfl

theorem componentOf_ne_root (piece : String) : componentOf piece ≠ some .root := by
  unfold componentOf
  split
  · exact nofun
  · split <;> exact nofun

theorem componentOf_ne_here (piece : String) : componentOf piece ≠ some .here := by
  unfold componentOf
  split
  · exact nofun
  · split <;> exact nofun

theorem root_notMem_filterMap (pieces : List String) : Component.root ∉ pieces.filterMap componentOf := by
  intro member
  obtain ⟨piece, _, root⟩ := List.mem_filterMap.mp member
  exact componentOf_ne_root piece root

theorem filter_ne_here (pieces : List String) :
    (pieces.filterMap componentOf).filter (· ≠ .here) = pieces.filterMap componentOf := by
  refine List.filter_eq_self.mpr fun c member => ?_
  obtain ⟨piece, _, found⟩ := List.mem_filterMap.mp member
  simp only [decide_eq_true_eq]
  rintro rfl
  exact componentOf_ne_here piece found

section Start

variable {path : Path}

theorem text_ne_of_absolute (absolute : path.isAbsolute = true) : path.text ≠ "" := by
  intro empty
  rw [isAbsolute, empty] at absolute
  cases absolute

theorem isAbsolute_iff_pieces {first : String} {rest : List String} (pieces : path.pieces = first :: rest)
    (ne : path.text ≠ "") : path.isAbsolute = true ↔ first = "" := by
  have text : path.text.toList ≠ [] := by simpa using ne
  rw [pieces_eq] at pieces
  unfold isAbsolute
  cases cs : path.text.toList with
  | nil => exact absurd cs text
  | cons c cs' =>
    rw [cs, List.splitOn_cons_eq_if_modifyHead] at pieces
    split at pieces
    · next slash =>
      obtain ⟨rfl, -⟩ := List.cons.inj pieces
      simpa using beq_iff_eq.mp slash
    · next other =>
      cases split : cs'.splitOn '/' with
      | nil => exact absurd split (List.splitOn_ne_nil _ _)
      | cons piece others =>
        rw [split] at pieces
        obtain ⟨rfl, -⟩ := List.cons.inj pieces
        simpa using other

theorem isAbsolute_iff : path.isAbsolute = true ↔ path.components.head? = some .root := by
  by_cases empty : path.text = ""
  · simp [isAbsolute, components, empty]
  · cases pieces : path.pieces with
    | nil => exact absurd pieces path.pieces_ne_nil
    | cons first rest =>
      rw [isAbsolute_iff_pieces pieces empty, components_of_text empty, pieces, componentsOf_cons]
      unfold firstComponent
      constructor
      · rintro rfl
        rfl
      · intro root
        by_contra other
        rw [if_neg other] at root
        split at root
        · cases root
        · split at root <;> cases root

theorem components_absolute (absolute : path.isAbsolute = true) : path.components = .root :: path.steps := by
  have ne := text_ne_of_absolute absolute
  cases pieces : path.pieces with
  | nil => exact absurd pieces path.pieces_ne_nil
  | cons first rest =>
    have empty := (isAbsolute_iff_pieces pieces ne).mp absolute
    rw [components_of_text ne, steps, pieces, componentsOf_cons, empty]
    rfl

/-- A relative path has the components that it leads by, and perhaps a point before them. -/
theorem components_relative (relative : path.isAbsolute = false) :
    path.components = path.steps ∨ path.components = .here :: path.steps := by
  by_cases empty : path.text = ""
  · obtain ⟨text⟩ := path
    cases empty
    exact .inl rfl
  · cases pieces : path.pieces with
    | nil => exact absurd pieces path.pieces_ne_nil
    | cons first rest =>
      have inside : first ≠ "" := by
        intro rooted
        rw [(isAbsolute_iff_pieces pieces empty).mpr rooted] at relative
        cases relative
      rw [components_of_text empty, steps, pieces, componentsOf_cons]
      by_cases point : first = "."
      · rw [point]
        exact .inr rfl
      · rw [List.filterMap_cons_some (componentOf_eq_firstComponent (isComponent_of_ne inside point))]
        exact .inl rfl

theorem steps_eq_filter (relative : path.isAbsolute = false) :
    path.steps = path.components.filter (· ≠ .here) := by
  have kept := filter_ne_here path.pieces
  rcases components_relative relative with same | pointed
  · rw [same]
    exact kept.symm
  · rw [pointed, List.filter_cons_of_neg (by decide)]
    exact kept.symm

end Start

section Join

variable {base other : Path}

theorem components_append {first : String} {rest more : List String} :
    componentsOf (first :: rest ++ more) = componentsOf (first :: rest) ++ more.filterMap componentOf := by
  rw [List.cons_append, componentsOf_cons, componentsOf_cons, List.filterMap_append, List.cons_append]

theorem text_of_trailing_slash (slash : base.text.toList.getLast? = some '/') :
    ∃ before, base.text = before ++ "/" := by
  obtain ⟨cs, ends⟩ := List.getLast?_eq_some_iff.mp slash
  refine ⟨String.ofList cs, String.toList_injective ?_⟩
  rw [ends, String.toList_append, String.toList_ofList]
  rfl

theorem components_slash (before after : String) :
    components ⟨before ++ "/" ++ after⟩ = componentsOf (pieces ⟨before⟩) ++ steps ⟨after⟩ := by
  have ne : before ++ "/" ++ after ≠ "" := by
    intro empty
    simpa using congrArg String.toList empty
  rw [components_of_text ne, pieces_append]
  cases given : pieces ⟨before⟩ with
  | nil => exact absurd given (pieces_ne_nil _)
  | cons first rest => rw [components_append]; rfl

/-- The pieces of a joined path are those of the relative one behind some that lead where the base does. -/
theorem pieces_join (ne : base.text ≠ "") (relative : other.isAbsolute = false) :
    ∃ before, (base.join other).pieces = before ++ other.pieces ∧
      before.filterMap componentOf = base.steps := by
  have inside : ¬(other.isAbsolute || base.text.isEmpty) = true := by simp [relative, ne]
  rw [join, if_neg inside]
  split
  · next slash =>
    obtain ⟨before, text⟩ := text_of_trailing_slash slash
    refine ⟨pieces ⟨before⟩, ?_, ?_⟩
    · rw [text, pieces_append]
    · have opened : base.pieces = pieces ⟨before⟩ ++ [""] := by
        rw [show base = ⟨before ++ "/" ++ ""⟩ by rw [String.append_empty, ← text], pieces_append]
        rfl
      rw [steps, opened, List.filterMap_append]
      exact (List.append_nil _).symm
  · exact ⟨base.pieces, pieces_append _ _, rfl⟩

theorem components_join (ne : base.text ≠ "") (relative : other.isAbsolute = false) :
    (base.join other).components = base.components ++ other.steps := by
  have inside : ¬(other.isAbsolute || base.text.isEmpty) = true := by simp [relative, ne]
  rw [join, if_neg inside]
  split
  · next slash =>
    -- The slash at the end of the base is the one between the two.
    obtain ⟨before, text⟩ := text_of_trailing_slash slash
    have opened : base.components = componentsOf (pieces ⟨before⟩) ++ steps ⟨""⟩ := by
      rw [← components_slash before "", String.append_empty, ← text]
    have none : steps ⟨""⟩ = [] := rfl
    rw [text, components_slash, opened, none, List.append_nil]
  · rw [components_slash, components_of_text ne]

/-- A name that can stand for a place in a directory. -/
def IsName (name : String) : Prop := componentOf name = some (.name name) ∧ '/' ∉ name.toList

theorem IsName.pieces {name : String} (isName : IsName name) : Path.pieces ⟨name⟩ = [name] := by
  rw [pieces_eq, List.splitOn_eq_singleton isName.2, List.map_singleton, String.ofList_toList]

theorem IsName.steps {name : String} (isName : IsName name) : Path.steps ⟨name⟩ = [.name name] := by
  rw [Path.steps, isName.pieces, List.filterMap_cons_some isName.1]
  rfl

theorem IsName.ne_empty {name : String} (isName : IsName name) : name ≠ "" := by
  rintro rfl
  cases isName.1

theorem IsName.ne_up {name : String} (isName : IsName name) : name ≠ ".." := by
  rintro rfl
  cases isName.1

theorem IsName.isAbsolute {name : String} (isName : IsName name) : isAbsolute ⟨name⟩ = false := by
  refine Bool.eq_false_iff.mpr fun absolute => ?_
  exact isName.ne_empty ((isAbsolute_iff_pieces isName.pieces isName.ne_empty).mp absolute)

theorem IsName.components {name : String} (isName : IsName name) : Path.components ⟨name⟩ = [.name name] := by
  have component : isComponent name = true := by rw [isComponent, isName.1]; rfl
  have first := (componentOf_eq_firstComponent component).symm.trans isName.1
  rw [components_of_text isName.ne_empty, isName.pieces, componentsOf_cons, Option.some.inj first]
  rfl

theorem filterMap_names {names : List String} (isName : ∀ name ∈ names, IsName name) :
    names.filterMap componentOf = names.map .name := by
  induction names with
  | nil => rfl
  | cons name rest ih =>
    rw [List.filterMap_cons_some (isName name List.mem_cons_self).1, List.map_cons,
      ih fun other member => isName other (List.mem_cons_of_mem _ member)]

theorem pieces_child {name : String} (isName : IsName name) (base : Path) :
    ∃ before, (base.child name).pieces = before ++ [name] ∧ before.filterMap componentOf = base.steps := by
  by_cases empty : base.text = ""
  · obtain ⟨text⟩ := base
    cases empty
    refine ⟨[], ?_, rfl⟩
    simpa [child, join] using isName.pieces
  · rw [← isName.pieces]
    exact pieces_join empty isName.isAbsolute

theorem components_child {name : String} (isName : IsName name) (base : Path) :
    (base.child name).components = base.components ++ [.name name] := by
  by_cases empty : base.text = ""
  · obtain ⟨text⟩ := base
    cases empty
    have alone : child ⟨""⟩ name = ⟨name⟩ := by simp [child, join]
    rw [alone, isName.components]
    rfl
  · rw [child, components_join empty isName.isAbsolute, isName.steps]

end Join

instance (name : String) : Decidable (IsName name) :=
  inferInstanceAs (Decidable (componentOf name = some (.name name) ∧ '/' ∉ name.toList))

/-- The components of a place that a path leads to from a base. -/
def place (base path : Path) : List Component := (base.join path).components

section Place

variable {base path : Path}

theorem join_absolute (absolute : path.isAbsolute = true) : base.join path = path := by
  simp [join, absolute]

theorem place_absolute (absolute : path.isAbsolute = true) : base.place path = path.components := by
  rw [place, join_absolute absolute]

theorem place_relative (ne : base.text ≠ "") (relative : path.isAbsolute = false) :
    base.place path = base.components ++ path.steps :=
  components_join ne relative

theorem isAbsolute_child {name : String} (isName : IsName name) :
    (path.child name).isAbsolute = path.isAbsolute := by
  rw [Bool.eq_iff_iff, isAbsolute_iff, isAbsolute_iff, components_child isName]
  cases path.components <;> simp

theorem place_join {other : Path} (ne : base.text ≠ "") (relative : other.isAbsolute = false) :
    base.place (path.join other) = base.place path ++ other.steps := by
  by_cases empty : path.text = ""
  · obtain ⟨text⟩ := path
    cases empty
    have alone : join ⟨""⟩ other = other := by simp [join]
    rw [alone, place_relative ne relative, place_relative ne rfl]
    exact congrArg (· ++ other.steps) (List.append_nil _).symm
  · have components := components_join empty relative
    have start : (path.join other).isAbsolute = path.isAbsolute := by
      rw [Bool.eq_iff_iff, isAbsolute_iff, isAbsolute_iff, components]
      cases given : path.components with
      | nil => exact absurd (components_eq_nil_iff.mp given) empty
      | cons first rest => simp
    cases absolute : path.isAbsolute with
    | true => rw [place_absolute absolute, place_absolute (start.trans absolute), components]
    | false =>
      have plain := filter_ne_here other.pieces
      rw [place_relative ne absolute, place_relative ne (start.trans absolute),
        steps_eq_filter (start.trans absolute), steps_eq_filter absolute, components, List.filter_append,
        List.append_assoc]
      exact congrArg (_ ++ ·) (congrArg (_ ++ ·) plain)

theorem place_child {name : String} (isName : IsName name) (ne : base.text ≠ "") :
    base.place (path.child name) = base.place path ++ [.name name] := by
  rw [child, place_join ne isName.isAbsolute, isName.steps]

end Place

end Path

end WorkflowLint

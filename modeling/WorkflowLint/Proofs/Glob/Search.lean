import WorkflowLint.Glob.Search
import WorkflowLint.Proofs.Files.Tree
import WorkflowLint.Proofs.Glob.Literal

/-! Going by a pattern through a tree.

The components of a pattern that are texts lead on from one directory to the next, and the paths on the way
are written one piece behind the other. Below a directory all that lies there is found, each thing under
the names that lead to it. -/

set_option autoImplicit false

namespace WorkflowLint.Glob

open WorkflowLint.Path (Component IsName Free componentOf)

section Spelling

variable {base directory : Path} {piece : String} {pieces : List String}

def lead (directory : Path) : String :=
  if directory.isSame ⟨"."⟩ || directory.text.isEmpty then ""
  else if directory.text.toList.getLast? = some '/' then directory.text
  else directory.text ++ "/"

theorem isAbsolute_of_free (free : '/' ∉ piece.toList) : (Path.mk piece).isAbsolute = false := by
  refine Bool.eq_false_iff.mpr fun absolute => free ?_
  have first : piece.toList.head? = some '/' := by simpa [Path.isAbsolute] using absolute
  exact List.mem_of_mem_head? first

theorem pieces_of_free (free : '/' ∉ piece.toList) : (Path.mk piece).pieces = [piece] := by
  rw [Path.pieces_eq, List.splitOn_eq_singleton free, List.map_singleton, String.ofList_toList]

theorem components_of_free (ne : piece ≠ "") (free : '/' ∉ piece.toList) :
    (Path.mk piece).components = [Path.firstComponent piece] := by
  rw [Path.components_of_text ne, pieces_of_free free, Path.componentsOf_cons]
  rfl

/-- Going inside is joining, but for the working directory, which is not written. -/
theorem inside_eq_join (directory : Path) (piece : String) :
    inside directory piece = (if directory.isSame ⟨"."⟩ then ⟨""⟩ else directory).join ⟨piece⟩ := by
  unfold inside
  split
  · simp [Path.join]
  · rfl

theorem text_inside (free : '/' ∉ piece.toList) : (inside directory piece).text = lead directory ++ piece := by
  have relative := isAbsolute_of_free free
  unfold inside lead
  cases here : directory.isSame ⟨"."⟩ with
  | true => simp
  | false =>
    rw [if_neg (by simp), Path.child, Path.join]
    by_cases empty : directory.text = ""
    · simp [empty]
    · simp only [relative, Bool.false_or, String.isEmpty_iff, empty, if_false]
      split <;> rfl

theorem components_of_isSame {other : Path} (same : directory.isSame other = true) :
    directory.components = other.components := by simpa [Path.isSame] using same

theorem isAbsolute_of_here (here : directory.isSame ⟨"."⟩ = true) : directory.isAbsolute = false := by
  rw [← Bool.not_eq_true, Path.isAbsolute_iff, components_of_isSame here]
  decide

/-- What is written before a piece leads to the directory, written or not. -/
theorem place_unwritten (ne : base.text ≠ "") (directory : Path) :
    base.place (if directory.isSame ⟨"."⟩ then ⟨""⟩ else directory) = base.place directory := by
  split
  · next here =>
    have relative := isAbsolute_of_here here
    rw [Path.place_relative ne rfl, Path.place_relative ne relative, Path.steps_eq_filter relative,
      components_of_isSame here]
    rfl
  · rfl

theorem steps_of_free (free : '/' ∉ piece.toList) : Path.steps ⟨piece⟩ = (componentOf piece).toList := by
  rw [Path.steps, pieces_of_free free]
  cases found : componentOf piece <;> simp [found]

theorem place_inside (ne : base.text ≠ "") (free : '/' ∉ piece.toList) :
    base.place (inside directory piece) = base.place directory ++ (componentOf piece).toList := by
  rw [inside_eq_join, Path.place_join ne (isAbsolute_of_free free), place_unwritten ne, steps_of_free free]

theorem place_foldl_inside (ne : base.text ≠ "") (free : Free pieces) (directory : Path) :
    base.place (pieces.foldl inside directory) = base.place directory ++ pieces.filterMap componentOf := by
  induction pieces generalizing directory with
  | nil => exact (List.append_nil _).symm
  | cons piece rest ih =>
    obtain ⟨first, others⟩ := List.forall_mem_cons.mp free
    rw [List.foldl_cons, ih others, place_inside ne first, List.append_assoc]
    cases found : componentOf piece with
    | none => rw [List.filterMap_cons_none found]; rfl
    | some component => rw [List.filterMap_cons_some found]; rfl

def IsWritten (directory : Path) : Prop := directory.isSame ⟨"."⟩ = false ∧ directory.text ≠ ""

theorem IsWritten.inside (written : IsWritten directory) (free : '/' ∉ piece.toList) :
    IsWritten (inside directory piece) := by
  obtain ⟨elsewhere, ne⟩ := written
  have relative := isAbsolute_of_free free
  have joined : Glob.inside directory piece = directory.join ⟨piece⟩ := by
    rw [inside_eq_join, elsewhere, if_neg (by simp)]
  have components := Path.components_join ne relative
  constructor
  · refine Bool.eq_false_iff.mpr fun here => ?_
    have same : directory.components ++ Path.steps ⟨piece⟩ = [.here] := by
      rw [← components, ← joined]
      exact components_of_isSame here
    -- All of that one component would be in the directory, which then is the working directory.
    obtain ⟨none, _⟩ | ⟨all, _⟩ := List.append_eq_singleton_iff.mp same
    · exact ne (Path.components_eq_nil_iff.mp none)
    · have point : (Path.mk ".").components = [.here] := by decide
      simp [Path.isSame, all, point] at elsewhere
  · intro empty
    rw [← Path.components_eq_nil_iff, joined, components] at empty
    exact ne (Path.components_eq_nil_iff.mp (List.append_eq_nil_iff.mp empty).1)

theorem IsWritten.foldl_inside (written : IsWritten directory) (free : Free pieces) :
    IsWritten (pieces.foldl Glob.inside directory) := by
  induction pieces generalizing directory with
  | nil => exact written
  | cons piece rest ih =>
    obtain ⟨first, others⟩ := List.forall_mem_cons.mp free
    exact ih (written.inside first) others

theorem isWritten_of_name {name : String} (isName : IsName name) (directory : Path) :
    IsWritten (inside directory name) := by
  have components : ∃ before, (inside directory name).components = before ++ [.name name] := by
    rw [inside_eq_join]
    exact ⟨_, Path.components_child isName _⟩
  obtain ⟨before, components⟩ := components
  constructor
  · refine Bool.eq_false_iff.mpr fun here => ?_
    have last := congrArg List.getLast? (components.symm.trans (components_of_isSame here))
    rw [List.getLast?_concat] at last
    cases last
  · intro empty
    rw [Path.components, empty] at components
    simp at components

theorem fileName_inside {name : String} (isName : IsName name) (directory : Path) :
    (inside directory name).fileName = some name := by
  have components := Path.components_child isName (if directory.isSame ⟨"."⟩ then ⟨""⟩ else directory)
  have last : (inside directory name).components.getLast? = some (.name name) := by
    rw [inside_eq_join]
    exact (congrArg List.getLast? components).trans List.getLast?_concat
  rw [Path.fileName, last]

/-- No empty piece comes before the first one that is no point. -/
def Gapless : List String → Prop
  | [] => True
  | piece :: rest => piece ≠ "" ∧ (piece = "." → Gapless rest)

instance instDecidableGapless : (pieces : List String) → Decidable (Gapless pieces)
  | [] => isTrue trivial
  | piece :: rest =>
    have := instDecidableGapless rest
    inferInstanceAs (Decidable (piece ≠ "" ∧ (piece = "." → Gapless rest)))

theorem Gapless.of_prefix {front : List String} (gapless : Gapless pieces) (inside : front <+: pieces) :
    Gapless front := by
  induction front generalizing pieces with
  | nil => trivial
  | cons piece rest ih =>
    obtain ⟨behind, rfl⟩ := inside
    exact ⟨gapless.1, fun point => ih (gapless.2 point) (List.prefix_append rest behind)⟩

theorem text_foldl_inside_here (gapless : Gapless pieces) (free : Free pieces) :
    (pieces.foldl inside ⟨"."⟩).text ≠ "" := by
  induction pieces with
  | nil => exact (by decide : "." ≠ "")
  | cons piece rest ih =>
    obtain ⟨first, others⟩ := List.forall_mem_cons.mp free
    have alone : inside ⟨"."⟩ piece = ⟨piece⟩ := rfl
    rw [List.foldl_cons, alone]
    -- A point leaves the search where it is; behind any other piece the path is written.
    by_cases point : piece = "."
    · rw [point]
      exact ih (gapless.2 point) others
    · have component := Path.componentOf_eq_firstComponent (Path.isComponent_of_ne gapless.1 point)
      have components := components_of_free gapless.1 first
      have written : IsWritten ⟨piece⟩ := by
        refine ⟨Bool.eq_false_iff.mpr fun here => ?_, gapless.1⟩
        have same := List.cons.inj (components.symm.trans (components_of_isSame here))
        exact Path.componentOf_ne_here piece (component.trans (congrArg some same.1))
      exact (written.foldl_inside others).2

/-- The bytes of some pieces with a slash to each. -/
def breadth : List String → Nat
  | [] => 0
  | piece :: rest => piece.utf8ByteSize + 1 + breadth rest

theorem breadth_cons (piece : String) (rest : List String) :
    breadth (piece :: rest) = piece.utf8ByteSize + 1 + breadth rest := rfl

theorem breadth_append (front rest : List String) : breadth (front ++ rest) = breadth front + breadth rest := by
  induction front with
  | nil => exact (Nat.zero_add _).symm
  | cons piece others ih =>
    rw [List.cons_append, breadth_cons, breadth_cons, ih]
    omega

theorem breadth_pieces (path : Path) : breadth path.pieces = path.text.utf8ByteSize + 1 := by
  have joined : ∀ pieces : List String, pieces ≠ [] →
      breadth pieces = ("/".intercalate pieces).utf8ByteSize + 1 := by
    intro pieces ne
    induction pieces with
    | nil => exact absurd rfl ne
    | cons piece rest ih =>
      rw [breadth_cons]
      by_cases last : rest = []
      · simp [last, breadth]
      · have slash : "/".utf8ByteSize = 1 := by decide
        rw [ih last, String.intercalate_cons_of_ne_nil last, String.utf8ByteSize_append,
          String.utf8ByteSize_append, slash]
        omega
  rw [joined _ path.pieces_ne_nil, path.intercalate_pieces]

theorem lead_le (directory : Path) : (lead directory).utf8ByteSize ≤ directory.text.utf8ByteSize + 1 := by
  have slash : "/".utf8ByteSize = 1 := by decide
  unfold lead
  split
  · simp
  · split
    · omega
    · rw [String.utf8ByteSize_append, slash]

theorem lead_foldl_le (free : Free pieces) (directory : Path) :
    (lead (pieces.foldl inside directory)).utf8ByteSize ≤ (lead directory).utf8ByteSize + breadth pieces := by
  induction pieces generalizing directory with
  | nil => exact Nat.le_add_right _ _
  | cons piece rest ih =>
    obtain ⟨first, others⟩ := List.forall_mem_cons.mp free
    have onward := ih others (inside directory piece)
    have step := lead_le (inside directory piece)
    rw [text_inside first, String.utf8ByteSize_append] at step
    rw [List.foldl_cons, breadth_cons]
    omega

theorem text_foldl_le (ne : pieces ≠ []) (free : Free pieces) (directory : Path) :
    (pieces.foldl inside directory).text.utf8ByteSize + 1 ≤
      (lead directory).utf8ByteSize + breadth pieces := by
  obtain ⟨front, last, rfl⟩ := (List.eq_nil_or_concat pieces).resolve_left ne
  rw [List.concat_eq_append] at free ⊢
  obtain ⟨before, own⟩ := List.forall_mem_append.mp free
  have behind := lead_foldl_le before directory
  rw [List.foldl_concat, text_inside (own last List.mem_cons_self), String.utf8ByteSize_append,
    breadth_append, breadth_cons]
  omega

theorem nul_notMem_lead (clean : '\x00' ∉ directory.text.toList) : '\x00' ∉ (lead directory).toList := by
  unfold lead
  split
  · simp
  · split
    · exact clean
    · simpa using clean

theorem nul_notMem_foldl (clean : '\x00' ∉ directory.text.toList) (free : Free pieces)
    (pieces_clean : ∀ piece ∈ pieces, '\x00' ∉ piece.toList) :
    '\x00' ∉ (pieces.foldl inside directory).text.toList := by
  induction pieces generalizing directory with
  | nil => exact clean
  | cons piece rest ih =>
    obtain ⟨first, others⟩ := List.forall_mem_cons.mp free
    obtain ⟨first_clean, others_clean⟩ := List.forall_mem_cons.mp pieces_clean
    refine ih ?_ others others_clean
    rw [text_inside first, String.toList_append, List.mem_append, not_or]
    exact ⟨nul_notMem_lead clean, first_clean⟩

end Spelling

section Finding

variable {files : FileSystem} {directory path : Path} {wantsDirectory : Bool}

theorem resolve_inside (names : ∀ name ∈ files.workingDirectory, IsName name) {name : String}
    (isName : IsName name) (usable : FileSystem.Usable (inside directory name)) :
    files.resolve (inside directory name) =
      files.walk [] ((files.workingPath.place directory).tail.map Component.text ++ [name]) := by
  have rooted := Path.text_ne_of_absolute (@FileSystem.workingPath_isAbsolute files)
  rw [inside_eq_join] at usable ⊢
  have resolved := FileSystem.resolve_child names isName usable
  rw [place_unwritten rooted] at resolved
  exact resolved

theorem contains_of_isDirectory (found : files.isDirectory path = true) : files.contains path = true := by
  unfold FileSystem.isDirectory at found
  unfold FileSystem.contains
  split at found
  · next tree there => rw [there]; rfl
  · cases found

/-- From directory to directory, the pieces of a literal path are gone by one after the other. -/
theorem find_literals {pieces : List String} (rest : List Pattern)
    (open_ : ∀ front, front <+: pieces → files.isDirectory (front.foldl inside directory) = true) :
    find files wantsDirectory (pieces.map (fun piece => literal piece.toList) ++ rest) directory =
      find files wantsDirectory rest (pieces.foldl inside directory) := by
  induction pieces generalizing directory with
  | nil => rfl
  | cons piece others ih =>
    have here : files.isDirectory directory = true := open_ [] List.nil_prefix
    have next : files.isDirectory (inside directory piece) = true :=
      open_ [piece] ((List.prefix_cons_inj piece).mpr List.nil_prefix)
    have leads : leadsOn files directory piece = true := by
      unfold leadsOn
      split
      · exact here
      · exact contains_of_isDirectory next
    have onward : ∀ front, front <+: others →
        files.isDirectory (front.foldl inside (inside directory piece)) = true := fun front among =>
      open_ (piece :: front) ((List.prefix_cons_inj piece).mpr among)
    rw [List.map_cons, List.cons_append, find.eq_def]
    simp only [Pattern.literal?_literal, String.ofList_toList, leads, if_true]
    exact ih onward

theorem foldl_child {names : List String} (named : ∀ name ∈ names, IsEntryName name)
    (written : IsWritten directory) : names.foldl Path.child directory = names.foldl inside directory := by
  induction names generalizing directory with
  | nil => rfl
  | cons name rest ih =>
    obtain ⟨first, others⟩ := List.forall_mem_cons.mp named
    have child : inside directory name = directory.child name := by
      rw [inside, written.1, if_neg (by simp)]
    rw [List.foldl_cons, List.foldl_cons, ← child]
    exact ih others (written.inside first.isName.2)

/-- All that lies below a directory is found, under the names that lead there. -/
theorem mem_below {tree : FileTree} (there : files.find directory = .ok tree) (proper : tree.Proper) :
    path ∈ below files directory ↔
      ∃ names inner, (names, inner) ∈ tree.descendants ∧ path = names.foldl inside directory := by
  have spelled : ∀ names inner, (names, inner) ∈ tree.descendants →
      (match names with
        | [] => directory
        | name :: rest => rest.foldl Path.child (inside directory name)) = names.foldl inside directory := by
    intro names inner member
    have named := proper.descendants member
    cases names with
    | nil => rfl
    | cons name rest =>
      obtain ⟨first, others⟩ := List.forall_mem_cons.mp named
      exact foldl_child others (isWritten_of_name first.isName directory)
  rw [below, there]
  dsimp only
  rw [List.mem_map]
  constructor
  · rintro ⟨names, member, rfl⟩
    obtain ⟨⟨_, inner⟩, entry, rfl⟩ := List.mem_map.mp (List.mem_mergeSort.mp member)
    exact ⟨_, inner, entry, spelled _ inner entry⟩
  · rintro ⟨names, inner, entry, rfl⟩
    exact ⟨names, List.mem_mergeSort.mpr (List.mem_map.mpr ⟨_, entry, rfl⟩), spelled names inner entry⟩

/-- A recursive search ends at the names that the last component stands for. -/
theorem find_anyDirectories {tree : FileTree} (there : files.find directory = .ok tree)
    (open_ : tree.isDirectory = true) (proper : tree.Proper) {last : Pattern} :
    path ∈ find files false [[.anyDirectories], last] directory ↔
      ∃ names inner, (names, inner) ∈ tree.descendants ∧ path = names.foldl inside directory ∧
        path.fileName.any last.accepts = true := by
  have here : files.isDirectory directory = true := by simp [FileSystem.isDirectory, there, open_]
  have unread : Pattern.literal? [.anyDirectories] = none := by rfl
  have recursive : Pattern.isRecursive [.anyDirectories] = true := by rfl
  rw [find, unread]
  simp only [here, recursive, Bool.not_true, Bool.false_eq_true, if_false, if_true, List.mem_flatMap]
  constructor
  · rintro ⟨found, inBelow, member⟩
    split at member
    · next accepted =>
      have same : path = found := by simpa [find] using member
      obtain ⟨names, inner, entry, spelled⟩ := (mem_below there proper).mp inBelow
      rw [same]
      exact ⟨names, inner, entry, spelled, accepted⟩
    · cases member
  · rintro ⟨names, inner, entry, spelled, accepted⟩
    refine ⟨path, (mem_below there proper).mpr ⟨names, inner, entry, spelled⟩, ?_⟩
    rw [if_pos accepted]
    simp [find]

end Finding

end WorkflowLint.Glob

import Mathlib.Data.List.Find
import WorkflowLint.Config.Settings
import WorkflowLint.Proofs.Files.Lookup
import WorkflowLint.Proofs.Path.Ancestors

/-! Where the configuration is looked for.

Going up from a path ends at the nearest directory with a marker. How far up that goes depends on how the
start is written: from a relative path it ends in the working directory, whatever lies above that. -/

set_option autoImplicit false

namespace WorkflowLint.Config

open WorkflowLint.Path (Component IsName)

theorem isName_of_mem_markers : ∀ name ∈ markers, IsName name := by decide

/-- The nearest directory upwards that has a marker, if there is one. -/
def markedFrom (present : Path → Bool) (start : Path) : Option Path :=
  start.ancestors.find? (hasMarker present)

theorem rootFrom_eq (present : Path → Bool) (start : Path) :
    rootFrom present start = (markedFrom present start).getD start := rfl

section Places

variable (existing : List Component → Bool) {cwd start : Path}

def seenFrom (cwd path : Path) : Bool := existing (cwd.place path)

def isMarked (place : List Component) : Bool := markers.any fun name => existing (place ++ [.name name])

theorem hasMarker_seenFrom (ne : cwd.text ≠ "") (directory : Path) :
    hasMarker (seenFrom existing cwd) directory = isMarked existing (cwd.place directory) := by
  rw [hasMarker, isMarked, Bool.eq_iff_iff, List.any_eq_true, List.any_eq_true]
  refine exists_congr fun name => and_congr_right fun member => ?_
  rw [seenFrom, Path.place_child (isName_of_mem_markers name member) ne]

theorem markedFrom_seenFrom (ne : cwd.text ≠ "") :
    (markedFrom (seenFrom existing cwd) start).map cwd.place =
      (start.ancestors.map cwd.place).find? (isMarked existing) := by
  rw [List.find?_map, markedFrom]
  congr 2
  exact funext (hasMarker_seenFrom existing ne)

theorem places_absolute (absolute : start.isAbsolute = true) :
    start.ancestors.map cwd.place = Path.upwards start.components := by
  rw [← start.components_ancestors]
  exact List.map_congr_left fun above member =>
    Path.place_absolute (Path.ancestors_absolute absolute member)

theorem places_relative (ne : cwd.text ≠ "") (relative : start.isAbsolute = false) :
    start.ancestors.map cwd.place =
      start.components.inits.reverse.map fun kept => cwd.components ++ kept.filter (· ≠ .here) := by
  have rooted : start.components.head? ≠ some .root := fun rooted => by
    rw [Path.isAbsolute_iff.mpr rooted] at relative
    cases relative
  rw [← Path.upwards_relative rooted, ← start.components_ancestors, List.map_map]
  refine List.map_congr_left fun above member => ?_
  have below := Path.ancestors_relative relative member
  rw [Path.place_relative ne below, Path.steps_eq_filter below]
  rfl

/-- A point at the start makes for one more look at the working directory, which is the last look
anyway. -/
theorem find_places_relative (marked : List Component → Bool) (ne : cwd.text ≠ "")
    (relative : start.isAbsolute = false) :
    (start.ancestors.map cwd.place).find? marked =
      (start.steps.inits.reverse.map (cwd.components ++ ·)).find? marked := by
  have kept : ∀ kept ∈ start.steps.inits, kept.filter (· ≠ .here) = kept := by
    intro kept member
    refine List.filter_eq_self.mpr fun c inKept => ?_
    exact List.filter_eq_self.mp (Path.filter_ne_here start.pieces) c
      (((List.mem_inits _ _).mp member).subset inKept)
  have below : start.steps.inits.reverse.map (fun kept => cwd.components ++ kept.filter (· ≠ .here)) =
      start.steps.inits.reverse.map (cwd.components ++ ·) :=
    List.map_congr_left fun taken member => by rw [kept taken (List.mem_reverse.mp member)]
  rw [places_relative ne relative]
  rcases Path.components_relative relative with same | pointed
  · rw [same, below]
  · have behind : (start.steps.inits.map (Component.here :: ·)).reverse.map
        (fun kept => cwd.components ++ kept.filter (· ≠ .here)) =
        start.steps.inits.reverse.map (cwd.components ++ ·) := by
      rw [← List.map_reverse, List.map_map, ← below]
      rfl
    rw [pointed, List.inits_cons, List.reverse_cons, List.map_append, List.find?_append, behind]
    cases found : (start.steps.inits.reverse.map (cwd.components ++ ·)).find? marked with
    | some place => rfl
    | none =>
      have own : cwd.components ++ [] ∈ start.steps.inits.reverse.map (cwd.components ++ ·) := by
        refine List.mem_map.mpr ⟨[], List.mem_reverse.mpr ?_, rfl⟩
        exact (List.mem_inits _ _).mpr List.nil_prefix
      have unmarked := List.find?_eq_none.mp found _ own
      simpa using unmarked

/-- From a working directory, a start that is written as seen from there leads to the nearest directory
with a marker just as the same start written in full does, but for those above the working directory. -/
theorem markedFrom_relative (absolute : cwd.isAbsolute = true) (relative : start.isAbsolute = false) :
    (markedFrom (seenFrom existing cwd) (cwd.join start)).map cwd.place =
      ((markedFrom (seenFrom existing cwd) start).map cwd.place).or
        ((cwd.parent.bind (markedFrom (seenFrom existing cwd))).map cwd.place) := by
  have ne := Path.text_ne_of_absolute absolute
  have joined : (cwd.join start).isAbsolute = true := by
    rw [Path.isAbsolute_iff, Path.components_join ne relative, Path.components_absolute absolute]
    rfl
  have above : (cwd.parent.bind (markedFrom (seenFrom existing cwd))).map cwd.place =
      (((Path.parentOf cwd.components).map Path.upwards).getD []).find? (isMarked existing) := by
    rw [← Path.components_parent]
    cases up : cwd.parent with
    | none => rfl
    | some parent =>
      have rooted := Path.parent_isAbsolute absolute up
      rw [Option.bind_some, markedFrom_seenFrom existing ne, places_absolute rooted]
      rfl
  rw [above, markedFrom_seenFrom existing ne, markedFrom_seenFrom existing ne, places_absolute joined,
    find_places_relative _ ne relative, Path.components_join ne relative,
    Path.components_absolute absolute, Path.upwards_append, List.find?_append]

end Places

section Loading

variable {files : FileSystem}

theorem fileIn_eq (directory : Path) :
    fileIn files directory =
      (fileNames.find? fun entry => files.contains (directory.child entry.1)).map fun entry =>
        (directory.child entry.1, entry.2) :=
  List.find?_map ..

theorem load_eq (directory : Path) :
    load files directory =
      (fileNames.find? fun entry => files.contains (directory.child entry.1)).bind fun entry =>
        (files.readText (directory.child entry.1)).toOption.bind fun text => entry.2.read text := by
  rw [load, fileIn_eq]
  cases fileNames.find? fun entry => files.contains (directory.child entry.1) <;> rfl

theorem load_congr {directory other : Path}
    (same : ∀ name ∈ markers, files.find (directory.child name) = files.find (other.child name)) :
    load files directory = load files other := by
  have named : ∀ entry ∈ fileNames, entry.1 ∈ markers := fun entry member =>
    List.mem_append_left _ (List.mem_map_of_mem member)
  have found : (fileNames.find? fun entry => files.contains (directory.child entry.1)) =
      fileNames.find? fun entry => files.contains (other.child entry.1) := by
    refine List.find?_congr fun entry member => ?_
    rw [FileSystem.contains, same _ (named entry member), FileSystem.contains]
  rw [load_eq, load_eq, found]
  cases first : fileNames.find? fun entry => files.contains (other.child entry.1) with
  | none => rfl
  | some entry =>
    have alike := same _ (named entry (List.mem_of_find?_eq_some first))
    simp only [Option.bind_some, FileSystem.readText, alike]

theorem load_unmarked {directory : Path} (unmarked : hasMarker files.contains directory = false) :
    load files directory = none := by
  have none : (fileNames.find? fun entry => files.contains (directory.child entry.1)) = none := by
    refine List.find?_eq_none.mpr fun entry member found => ?_
    have named : entry.1 ∈ markers := List.mem_append_left _ (List.mem_map_of_mem member)
    exact absurd found (by simpa using List.any_eq_false.mp unmarked _ named)
  rw [load_eq, none]
  rfl

/-- Names in this directory can be looked up: its text is one of a path, and not too long. -/
def Usable (directory : Path) : Prop :=
  '\x00' ∉ directory.text.toList ∧ directory.text.utf8ByteSize + 12 < FileSystem.pathLimit

theorem Usable.of_append {directory : Path} {before text after : String}
    (usable : Usable directory) (cut : directory.text = before ++ text ++ after) : Usable ⟨text⟩ := by
  obtain ⟨free, short⟩ := usable
  rw [cut] at free short
  simp only [String.toList_append, List.mem_append, String.utf8ByteSize_append] at free short
  refine ⟨?_, ?_⟩
  · exact fun nul => free (.inl (.inr nul))
  · change text.utf8ByteSize + 12 < _
    omega

theorem Usable.child {directory : Path} (usable : Usable directory) {name : String}
    (member : name ∈ markers) : FileSystem.Usable (directory.child name) := by
  obtain ⟨free, short⟩ := usable
  have known : ∀ name ∈ markers, '\x00' ∉ name.toList ∧ name.utf8ByteSize ≤ 11 := by decide
  obtain ⟨free_name, short_name⟩ := known name member
  have relative := (isName_of_mem_markers name member).isAbsolute
  have slash : '\x00' ∉ "/".toList ∧ "/".utf8ByteSize = 1 := by decide
  unfold Path.child Path.join
  rw [relative]
  unfold FileSystem.Usable
  split
  · exact ⟨free_name, by simp only; omega⟩
  · split
    · refine ⟨?_, ?_⟩
      · simp [free, free_name]
      · simp only [String.utf8ByteSize_append]
        omega
    · refine ⟨?_, ?_⟩
      · simp [free, free_name]
      · simp only [String.utf8ByteSize_append, slash.2]
        omega

theorem Usable.join {base start : Path} (ne : base.text ≠ "") (relative : start.isAbsolute = false)
    (usable : Usable (base.join start)) : Usable start := by
  have inside : ¬(start.isAbsolute || base.text.isEmpty) = true := by simp [relative, ne]
  have cut : ∃ before, (base.join start).text = before ++ start.text ++ "" := by
    unfold Path.join
    rw [if_neg inside]
    split
    · exact ⟨base.text, (String.append_empty).symm⟩
    · exact ⟨base.text ++ "/", (String.append_empty).symm⟩
  obtain ⟨before, cut⟩ := cut
  exact usable.of_append cut

theorem Usable.ancestor {start above : Path} (usable : Usable start) (member : above ∈ start.ancestors) :
    Usable above := by
  obtain ⟨rest, text⟩ := Path.ancestors_text member
  refine @Usable.of_append start "" above.text rest usable ?_
  rw [String.empty_append, text]

/-- What there is at a place of the tree, below the directory that holds it. -/
def existsAt (files : FileSystem) (place : List Component) : Bool :=
  match place.getLast? with
  | some (.name name) => (files.lookup place.dropLast name).isOk
  | _ => false

theorem markedFrom_contains (names : ∀ name ∈ files.workingDirectory, IsName name) {start : Path}
    (usable : Usable start) :
    markedFrom files.contains start = markedFrom (seenFrom (existsAt files) files.workingPath) start := by
  refine List.find?_congr fun above member => ?_
  rw [hasMarker_seenFrom _ (Path.text_ne_of_absolute FileSystem.workingPath_isAbsolute), hasMarker,
    isMarked, Bool.eq_iff_iff, List.any_eq_true, List.any_eq_true]
  refine exists_congr fun name => and_congr_right fun known => ?_
  rw [FileSystem.contains, FileSystem.find_child names (isName_of_mem_markers name known)
    ((usable.ancestor member).child known)]
  simp [existsAt]

/-- The configuration of a directory is that of its place, however the directory is written. -/
theorem load_of_place (names : ∀ name ∈ files.workingDirectory, IsName name) {directory other : Path}
    (usable : Usable directory) (other_usable : Usable other)
    (same : files.workingPath.place directory = files.workingPath.place other) :
    load files directory = load files other := by
  refine load_congr fun name known => ?_
  have isName := isName_of_mem_markers name known
  rw [FileSystem.find_child names isName (usable.child known),
    FileSystem.find_child names isName (other_usable.child known), same]

end Loading

/-- How a start that is written from the working directory compares with the same start written in full:
what is found going up from the second is what is found going up from the first, or else what is found
above the working directory. So they agree unless nothing is found at or below the working directory and
something above it; and where something is found, the configuration that is loaded is the same. -/
theorem root_of_relative (existing : List Component → Bool) {cwd start : Path}
    (absolute : cwd.isAbsolute = true) (relative : start.isAbsolute = false) :
    let found (start : Path) := (markedFrom (seenFrom existing cwd) start).map cwd.place
    let above := cwd.parent.bind found
    found (cwd.join start) = (found start).or above ∧
    (found start = found (cwd.join start) ↔ (found start).isSome = true ∨ above = none) ∧
    ∀ files : FileSystem, files.workingPath = cwd → (∀ name ∈ files.workingDirectory, IsName name) →
      Usable (cwd.join start) →
      load files (rootFrom files.contains start) =
        if (markedFrom files.contains start).isSome then
          load files (rootFrom files.contains (cwd.join start))
        else none := by
  intro found above
  have both : found (cwd.join start) = (found start).or above := by
    rw [show above = (cwd.parent.bind (markedFrom (seenFrom existing cwd))).map cwd.place from
      (Option.map_bind ..).symm]
    exact markedFrom_relative existing absolute relative
  refine ⟨both, ?_, ?_⟩
  · rw [both]
    cases found start with
    | none => simp [eq_comm]
    | some place => simp
  · intro files working names usable
    subst working
    have ne := Path.text_ne_of_absolute absolute
    have start_usable := usable.join ne relative
    cases given : markedFrom files.contains start with
    | none =>
      have unmarked := List.find?_eq_none.mp given start start.mem_ancestors
      rw [rootFrom_eq, given]
      exact load_unmarked (Bool.eq_false_iff.mpr unmarked)
    | some directory =>
      have seen := (markedFrom_contains names start_usable).symm.trans given
      have spelled := markedFrom_relative (existsAt files) absolute relative
      rw [seen, Option.map_some, Option.some_or] at spelled
      obtain ⟨other, other_seen, same⟩ := Option.map_eq_some_iff.mp spelled
      have other_given := (markedFrom_contains names usable).trans other_seen
      rw [rootFrom_eq, rootFrom_eq, given, other_given, Option.isSome_some, if_pos rfl]
      exact load_of_place names (start_usable.ancestor (List.mem_of_find?_eq_some given))
        (usable.ancestor (List.mem_of_find?_eq_some other_given)) same.symm

def nestedFiles (workingDirectory : List String) : FileSystem where
  root := .directory
    [("w", .directory [("wflint.toml", .file "strict = true".toUTF8), ("x", .directory [])])]
  workingDirectory := workingDirectory

theorem root_of_relative_inner :
    let files := nestedFiles ["w"]
    let start : Path := ⟨"x"⟩
    let spelled := files.workingPath.join start
    files.workingPath.isAbsolute = true ∧ start.isAbsolute = false ∧ Usable spelled ∧
    (markedFrom (seenFrom (existsAt files) files.workingPath) start).map files.workingPath.place =
      (markedFrom (seenFrom (existsAt files) files.workingPath) spelled).map files.workingPath.place ∧
    load files (rootFrom files.contains start) = load files (rootFrom files.contains spelled) ∧
    (load files (rootFrom files.contains start)).isSome = true := by
  intro files start spelled
  have usable : Usable spelled := ⟨by decide +kernel, by decide +kernel⟩
  have absolute : files.workingPath.isAbsolute = true := FileSystem.workingPath_isAbsolute
  obtain ⟨_, agree, loaded⟩ := root_of_relative (existsAt files) absolute
    (show start.isAbsolute = false by decide)
  have marked : (markedFrom files.contains start).isSome = true := by decide +kernel
  refine ⟨absolute, by decide, usable, agree.mpr (.inl (by decide +kernel)), ?_, by decide +kernel⟩
  rw [loaded files rfl (by decide) usable, if_pos marked]

/-- From the inner directory, the configuration above it is not found where the start is written as it is
by default, though nothing nearer is there; it is found where the start is written in full. -/
theorem root_missed :
    let files := nestedFiles ["w", "x"]
    let start : Path := ⟨"."⟩
    let spelled := files.workingPath.join start
    markedFrom files.contains start = none ∧
    (markedFrom files.contains spelled).map Path.components = some [.root, .name "w"] ∧
    (Settings.resolve files {} start).strict = false ∧
    (Settings.resolve files {} spelled).strict = true := by
  decide +kernel

end WorkflowLint.Config

import WorkflowLint.Proofs.DirectoryPattern
import WorkflowLint.Proofs.Files.Places
import WorkflowLint.Proofs.Glob.Found
import WorkflowLint.Proofs.InputFiles

/-! Whether one file comes twice.

The files of some inputs are told apart by the components of their paths, and not by the places in the tree
that these lead to. So a file comes twice if it is written in two ways. Words that are written alike make
paths that are written alike, and of those each file has one only. -/

set_option autoImplicit false

namespace WorkflowLint.Discovery

open WorkflowLint.Path (Component componentOf SpelledAlike)

section Words

variable {files : FileSystem} {absolute : Bool} {word : String} {path : Path}

/-- The word starts in a given way, none of its pieces can lead upwards, and no point comes before the name
of a file. -/
structure IsSettled (files : FileSystem) (absolute : Bool) (word : String) : Prop where
  start : (Path.mk word).isAbsolute = absolute
  level : ∀ piece ∈ (Path.mk word).pieces, Glob.leadsUp piece = false
  unpointed : files.isFile ⟨word⟩ = true → ¬(Path.mk word).IsPointed

instance (files : FileSystem) (absolute : Bool) (word : String) : Decidable (IsSettled files absolute word) :=
  decidable_of_iff ((Path.mk word).isAbsolute = absolute ∧
      (∀ piece ∈ (Path.mk word).pieces, Glob.leadsUp piece = false) ∧
      (files.isFile ⟨word⟩ = true → ¬(Path.mk word).IsPointed))
    ⟨fun ⟨start, level, unpointed⟩ => ⟨start, level, unpointed⟩,
      fun settled => ⟨settled.start, settled.level, settled.unpointed⟩⟩

theorem isLevel_of_pieces (level : ∀ piece ∈ path.pieces, Glob.leadsUp piece = false) : path.IsLevel := by
  refine Path.isLevel_iff.mpr fun up => ?_
  obtain ⟨piece, inPieces, found⟩ := List.mem_filterMap.mp up
  have upward : piece = ".." := (Path.text_of_componentOf found).symm
  have leads := level piece inPieces
  rw [upward] at leads
  exact absurd leads (by decide)

theorem level_patternBelow (ne : word ≠ "") (level : ∀ piece ∈ (Path.mk word).pieces, Glob.leadsUp piece = false)
    {ending : String} (known : ending ∈ extensions) :
    ∀ piece ∈ (Path.mk (patternBelow ⟨word⟩ ending)).pieces, Glob.leadsUp piece = false := by
  have stars : ∀ ending ∈ extensions, ("**/*.".toList ++ ending.toList).splitOn '/' =
      ["**".toList, '*' :: '.' :: ending.toList] := by decide
  have star : ∀ ending ∈ extensions, Glob.leadsUp (String.ofList ('*' :: '.' :: ending.toList)) = false := by
    decide
  have pieces : (Path.mk (patternBelow ⟨word⟩ ending)).pieces =
      (stem word).pieces ++ ["**", String.ofList ('*' :: '.' :: ending.toList)] := by
    rw [Path.pieces_eq, patternBelow_toList ne, List.splitOn_append_cons_self, stars ending known, Path.pieces_eq,
      List.map_append]
    rfl
  intro piece member
  rw [pieces] at member
  rcases List.mem_append.mp member with inWord | behind
  · exact level piece (stem_subset piece inWord)
  · rcases List.mem_cons.mp behind with rfl | last
    · decide
    · rw [List.mem_singleton.mp last]
      exact star ending known

/-- What a settled word contributes is written as the word is. -/
theorem Contributes.settled (proper : files.Proper) (settled : IsSettled files absolute word)
    (contributes : Contributes files word path) : path.isAbsolute = absolute ∧ path.IsLevel ∧ ¬path.IsPointed := by
  have file := contributes.isFile
  have found : ∀ {start : Bool}, start = absolute → Glob.Kept start path →
      path.isAbsolute = absolute ∧ path.IsLevel ∧ ¬path.IsPointed := by
    intro start same kept
    refine ⟨kept.start.trans same, kept.level, fun pointed => ?_⟩
    have here := kept.unpointed pointed
    have relative : path.isAbsolute = false := by
      rw [← Bool.not_eq_true, Path.isAbsolute_iff, here]
      decide
    -- The working directory itself is no file.
    refine files.steps_ne_nil_of_isFile file ?_
    rw [Path.steps_eq_filter relative, here]
    rfl
  cases contributes with
  | named named => exact ⟨settled.start, isLevel_of_pieces settled.level, settled.unpointed named⟩
  | matching _ _ searched => exact found settled.start (Glob.kept_search proper settled.level searched)
  | @below ending _ directory known searched =>
    have ne : word ≠ "" := by
      rintro rfl
      cases directory
    refine found ?_ (Glob.kept_search proper (level_patternBelow ne settled.level known) searched)
    rw [← settled.start, Bool.eq_iff_iff, Path.isAbsolute, decide_eq_true_iff]
    exact head?_patternBelow ne ending

end Words

section Entries

variable (files : FileSystem)

theorem located {inputs : List String} {path : Path} (member : path ∈ workflowFiles files inputs) :
    files.locate path = .ok (files.destination path) := by
  have file := (workflowFiles_found files inputs).2.1 path member
  obtain ⟨content, found⟩ := files.isFile_iff.mp file
  obtain ⟨there, resolved, -⟩ := files.find_eq_ok.mp found
  have place : files.locate path = .ok (there.map Prod.fst).reverse := by
    rw [FileSystem.locate_eq_map, resolved]
    rfl
  rw [place, FileSystem.locate_eq_destination place]

theorem contributes_of_mem {inputs : List String} {path : Path} (member : path ∈ workflowFiles files inputs) :
    ∃ word ∈ words inputs, Contributes files word path := by
  obtain ⟨-, origin, -⟩ :=
    Path.foldl_insertOrdered ((words inputs).flatMap (filesOf files)) [] List.Pairwise.nil
  obtain ⟨word, known, contributed⟩ := List.mem_flatMap.mp ((origin path member).resolve_right nofun)
  exact ⟨word, known, mem_filesOf.mp contributed⟩

theorem entries_alike (inputs : List String) :
    (workflowFiles files inputs).Pairwise fun path other =>
      SpelledAlike path other → files.locate path ≠ files.locate other := by
  have nodup := (workflowFiles_found files inputs).1.nodup
  refine (List.pairwise_map.mp nodup).imp_of_mem fun inFound other_inFound apart alike same => apart ?_
  rw [located files inFound, located files other_inFound] at same
  exact FileSystem.components_of_destination alike (Except.ok.inj same)

/-- An entry leads to the place that its text tells, and two entries are one file just when their texts tell
one place. If they are written alike they tell two. So from words that are written alike, each file comes
once. -/
theorem entries_apart (inputs : List String) :
    (∀ path ∈ workflowFiles files inputs, files.locate path = .ok (files.destination path)) ∧
    ((workflowFiles files inputs).Pairwise fun path other =>
      SpelledAlike path other → files.locate path ≠ files.locate other) ∧
    ∀ absolute, files.Proper → (∀ word ∈ words inputs, IsSettled files absolute word) →
      ((workflowFiles files inputs).map files.locate).Nodup := by
  refine ⟨fun path member => located files member, entries_alike files inputs, fun absolute proper settled => ?_⟩
  refine List.pairwise_map.mpr ((entries_alike files inputs).imp_of_mem fun inFound other_inFound apart => apart ?_)
  obtain ⟨word, known, contributed⟩ := contributes_of_mem files inFound
  obtain ⟨other_word, other_known, other_contributed⟩ := contributes_of_mem files other_inFound
  obtain ⟨start, level, unpointed⟩ := contributed.settled proper (settled word known)
  obtain ⟨other_start, other_level, other_unpointed⟩ :=
    other_contributed.settled proper (settled other_word other_known)
  exact ⟨start.trans other_start.symm, iff_of_false unpointed other_unpointed, level, other_level⟩

end Entries

def alone : FileSystem where
  root := .directory [("d", .directory [("x.yml", .file .empty)])]
  workingDirectory := ["d"]

theorem alone_proper : alone.Proper := by
  have inner : (FileTree.directory [("x.yml", .file .empty)]).Proper := by
    refine .directory (fun name tree member => ?_) fun name tree member => ?_ <;>
      cases List.mem_singleton.mp member
    · decide +kernel
    · exact .file .empty
  refine ⟨.directory (fun name tree member => ?_) fun name tree member => ?_, by decide⟩ <;>
    cases List.mem_singleton.mp member
  · decide +kernel
  · exact inner

theorem entries_apart_alone : alone.Proper ∧
    (∀ word ∈ words ["x.yml *.yml", "."], IsSettled alone false word) ∧
    ((workflowFiles alone ["x.yml *.yml", "."]).map alone.locate).Nodup := by
  have settled : ∀ word ∈ words ["x.yml *.yml", "."], IsSettled alone false word := by decide +kernel
  exact ⟨alone_proper, settled, (entries_apart alone _).2.2 false alone_proper settled⟩

/-- One file comes three times: with a point before its name, without one, and from the root. -/
theorem entries_repeated :
    workflowFiles alone ["x.yml", "./x.yml", "/d/x.yml"] = [⟨"/d/x.yml"⟩, ⟨"./x.yml"⟩, ⟨"x.yml"⟩] ∧
      ∀ path ∈ workflowFiles alone ["x.yml", "./x.yml", "/d/x.yml"], alone.locate path = .ok ["d", "x.yml"] := by
  decide +kernel

end WorkflowLint.Discovery

import WorkflowLint.Proofs.DirectoryPattern
import WorkflowLint.Proofs.Files.Places
import WorkflowLint.Proofs.InputFiles

/-! What the name of a directory contributes.

A directory is searched with a pattern that its name is a part of. If that part is read as it stands, the
search goes to the directory and finds all that lies below it; the names of the files decide. If it is
not, the search goes elsewhere. -/

set_option autoImplicit false

namespace WorkflowLint

namespace Discovery

open WorkflowLint.Path (Component IsName Free componentOf)
open WorkflowLint.FileSystem (Usable Trail)
open WorkflowLint.Glob (Pattern PathPattern literal inside lead breadth)

/-- How a search writes what it finds in a directory. -/
def written (word : String) (names : List String) : Path :=
  (way word ++ names).foldl inside (searchStart word)

/-- The word stands for itself in a pattern: it holds no sign of one, and no doubled slash follows the
points that it may start with. -/
structure IsPlain (word : String) : Prop where
  signs : ∀ c ∈ word.toList, Glob.isLiteral c = true
  gapless : (Path.mk word).isAbsolute = true ∨ Glob.Gapless (way word)

structure IsSought (tree : FileTree) (names : List String) : Prop where
  file : ∃ content, tree.at? names = some (.file content)
  ending : ∃ name ending, names.getLast? = some name ∧ ending ∈ extensions ∧ '.' :: ending.toList <:+ name.toList

section Way

variable {files : FileSystem} {word : String}

theorem place_start (ne : word ≠ "") :
    files.workingPath.place ⟨word⟩ =
      files.workingPath.place (searchStart word) ++ (way word).filterMap componentOf := by
  have rooted := Path.text_ne_of_absolute (@FileSystem.workingPath_isAbsolute files)
  rw [way_steps ne, searchStart]
  cases absolute : (Path.mk word).isAbsolute with
  | true =>
    rw [if_pos rfl, Path.place_absolute absolute, Path.place_absolute rfl, Path.components_absolute absolute]
    rfl
  | false =>
    have none : Path.steps ⟨"."⟩ = [] := by decide
    rw [if_neg (by simp), Path.place_relative rooted absolute, Path.place_relative rooted rfl, none,
      List.append_nil]

theorem text_front (plain : IsPlain word) (ne : word ≠ "") {front : List String} (inWay : front <+: way word) :
    (front.foldl inside (searchStart word)).text ≠ "" := by
  have free : Free front := fun piece member => way_free ne piece (inWay.subset member)
  rw [searchStart]
  cases absolute : (Path.mk word).isAbsolute with
  | true =>
    have root : Glob.IsWritten ⟨"/"⟩ := ⟨by decide, by decide⟩
    exact (root.foldl_inside free).2
  | false =>
    have gapless := plain.gapless.resolve_left (by simp [absolute])
    exact Glob.text_foldl_inside_here (gapless.of_prefix inWay) free

theorem usable_front (ne : word ≠ "") (usable : Usable ⟨word⟩) {front : List String}
    (inWay : front <+: way word) : Usable (front.foldl inside (searchStart word)) := by
  obtain ⟨behind, cut⟩ := inWay
  have budget := breadth_way ne
  have short : word.utf8ByteSize < FileSystem.pathLimit := usable.2
  rw [← cut, Glob.breadth_append] at budget
  refine usable_foldl (fun piece member => ?_) (fun piece member inPiece => ?_) (by omega)
  all_goals have inWay : piece ∈ way word := cut ▸ List.mem_append_left behind member
  · exact way_free ne piece inWay
  · exact usable.1 (mem_of_mem_way ne inWay _ inPiece)

/-- On the way to a directory there are directories only, and the walk goes on from each of them. -/
theorem resolve_front (proper : files.Proper) (plain : IsPlain word) {there : Trail}
    (resolved : files.resolve ⟨word⟩ = .ok there) (directory : (files.treeAt there).isDirectory = true)
    {front behind : List String} (cut : front ++ behind = way word) :
    ∃ mid, files.resolve (front.foldl inside (searchStart word)) = .ok mid ∧
      (files.treeAt mid).isDirectory = true ∧
      files.walk mid ((behind.filterMap componentOf).map Component.text) = .ok there := by
  obtain ⟨usable, ne⟩ := files.usable_of_resolve resolved
  have rooted := Path.text_ne_of_absolute (@FileSystem.workingPath_isAbsolute files)
  have inWay : front <+: way word := ⟨behind, cut⟩
  have free : Free front := fun piece member => way_free ne piece (inWay.subset member)
  have place : (files.workingPath.place ⟨word⟩).tail.map Component.text =
      (files.workingPath.place (front.foldl inside (searchStart word))).tail.map Component.text ++
        (behind.filterMap componentOf).map Component.text := by
    rw [place_start ne, ← cut, List.filterMap_append, ← List.append_assoc,
      ← Glob.place_foldl_inside rooted free, FileSystem.tail_place_append, List.map_append]
  -- The whole walk succeeds, so its beginning does, and ends at a directory that the rest starts from.
  have reached := (FileSystem.resolve_directory proper.start usable ne directory).mp resolved
  rw [place, FileSystem.walk_append] at reached
  cases first : files.walk [] ((files.workingPath.place (front.foldl inside (searchStart word))).tail.map
      Component.text) with
  | error e =>
    rw [first] at reached
    cases reached
  | ok mid =>
    rw [first] at reached
    have open_ := files.isDirectory_of_walk reached directory
    refine ⟨mid, ?_, open_, reached⟩
    exact (FileSystem.resolve_directory proper.start (usable_front ne usable inWay)
      (text_front plain ne inWay) open_).mpr first

end Way

section Search

variable {files : FileSystem} {word : String} {names : List String} {there : Trail}
  (proper : files.Proper) (plain : IsPlain word) (resolved : files.resolve ⟨word⟩ = .ok there)
  (directory : (files.treeAt there).isDirectory = true)

include proper resolved directory in
theorem resolve_written (ne : names ≠ []) (named : ∀ name ∈ names, IsEntryName name)
    (usable : Usable (written word names)) :
    files.resolve (written word names) = files.walk there names := by
  obtain ⟨front, name, rfl⟩ := (List.eq_nil_or_concat names).resolve_left ne
  rw [List.concat_eq_append] at named usable ⊢
  obtain ⟨word_usable, word_ne⟩ := files.usable_of_resolve resolved
  obtain ⟨before, own⟩ := List.forall_mem_append.mp named
  have isName := (own name List.mem_cons_self).isName
  have cut : written word (front ++ [name]) = inside (written word front) name := by
    rw [written, ← List.append_assoc, List.foldl_concat]
    rfl
  have free : Free (way word ++ front) :=
    List.forall_mem_append.mpr ⟨way_free word_ne, fun name member => (before name member).isName.2⟩
  have rooted := Path.text_ne_of_absolute (@FileSystem.workingPath_isAbsolute files)
  have place : (files.workingPath.place (written word front)).tail.map Component.text =
      (files.workingPath.place ⟨word⟩).tail.map Component.text ++ front := by
    have names : front.filterMap componentOf = front.map .name :=
      Path.filterMap_names fun name member => (before name member).isName
    rw [written, Glob.place_foldl_inside rooted free, List.filterMap_append, ← List.append_assoc,
      ← place_start word_ne, FileSystem.tail_place_append, List.map_append, names, List.map_map]
    exact congrArg (_ ++ ·) (List.map_id front)
  have reached := (FileSystem.resolve_directory proper.start word_usable word_ne directory).mp resolved
  rw [cut] at usable ⊢
  rw [Glob.resolve_inside proper.start isName usable, place, List.append_assoc, FileSystem.walk_append,
    reached]
  rfl

include proper resolved directory in
theorem isFile_written (named : ∀ name ∈ names, IsEntryName name) (usable : Usable (written word names))
    (ne : names ≠ []) :
    files.isFile (written word names) = true ↔
      ∃ content, (files.treeAt there).at? names = some (.file content) := by
  rw [files.isFile_iff]
  refine exists_congr fun content => ?_
  rw [FileSystem.find_eq_map, resolve_written proper resolved directory ne named usable]
  exact FileSystem.walk_eq_at? there named (.file content)

include proper plain resolved directory in
/-- The search goes to the directory and looks at all that lies below it. -/
theorem mem_search {ending : String} (known : ending ∈ extensions) {path : Path} :
    path ∈ Glob.search files (patternBelow ⟨word⟩ ending) ↔
      ∃ names inner, (names, inner) ∈ (files.treeAt there).descendants ∧ path = written word names ∧
        ∃ name, names.getLast? = some name ∧ '.' :: ending.toList <:+ name.toList := by
  obtain ⟨usable, ne⟩ := files.usable_of_resolve resolved
  have entered : ∀ front, front <+: way word →
      files.isDirectory (front.foldl inside (searchStart word)) = true := by
    rintro front ⟨behind, cut⟩
    obtain ⟨mid, reached, open_, -⟩ := resolve_front proper plain resolved directory cut
    simpa [FileSystem.isDirectory, FileSystem.find_eq_map, reached, Except.map] using open_
  have found : files.find (written word []) = .ok (files.treeAt there) := by
    obtain ⟨mid, reached, -, rest⟩ := resolve_front proper plain resolved directory (List.append_nil (way word))
    cases rest
    rw [written, List.append_nil, FileSystem.find_eq_map, reached]
    rfl
  have inner_proper := proper.find (files.find_eq_ok.mpr ⟨there, resolved, rfl⟩)
  -- On the way the names are taken as they are; only the two patterns behind it test any.
  have search : Glob.search files (patternBelow ⟨word⟩ ending) =
      Glob.find files false [[.anyDirectories], endingPattern ending] (written word []) := by
    rw [Glob.search, ofText_patternBelow ne known plain.signs, written, List.append_nil,
      ← Glob.find_literals _ entered]
    cases way word <;> rfl
  rw [search, Glob.find_anyDirectories found directory inner_proper]
  have spelled : ∀ names, names.foldl inside (written word []) = written word names := by
    intro names
    rw [written, written, List.append_nil, List.foldl_append]
  refine exists_congr fun names => exists_congr fun inner => and_congr_right fun member => ?_
  rw [spelled, and_congr_right_iff]
  rintro rfl
  have named := inner_proper.descendants member
  obtain ⟨front, name, rfl⟩ :=
    (List.eq_nil_or_concat names).resolve_left (FileTree.ne_nil_of_mem_descendants member)
  rw [List.concat_eq_append] at named ⊢
  have isName := (named name (by simp)).isName
  have fileName : (written word (front ++ [name])).fileName = some name := by
    rw [written, ← List.append_assoc, List.foldl_concat, Glob.fileName_inside isName]
  rw [fileName, List.getLast?_concat]
  simp [endingPattern, Glob.Pattern.accepts_ending]

include proper plain resolved directory in
theorem contributes_iff {path : Path} :
    Contributes files word path ↔
      ∃ names, IsSought (files.treeAt there) names ∧ path = written word names ∧ Usable path := by
  have inner_proper := proper.find (files.find_eq_ok.mpr ⟨there, resolved, rfl⟩)
  have isDirectory : files.isDirectory ⟨word⟩ = true := by
    simpa [FileSystem.isDirectory, FileSystem.find_eq_map, resolved, Except.map] using directory
  constructor
  · intro contributes
    cases contributes with
    | named file => rw [isFile_of_isDirectory isDirectory] at file; cases file
    | matching _ foreign => rw [isDirectory] at foreign; cases foreign
    | @below ending _ _ known searched file =>
      obtain ⟨names, inner, member, rfl, name, last, suffix⟩ :=
        (mem_search proper plain resolved directory known).mp searched
      have named := inner_proper.descendants member
      obtain ⟨content, found⟩ := files.isFile_iff.mp file
      obtain ⟨_, reached, -⟩ := files.find_eq_ok.mp found
      have usable := (files.usable_of_resolve reached).1
      have there := (isFile_written proper resolved directory named usable
        (FileTree.ne_nil_of_mem_descendants member)).mp file
      exact ⟨names, ⟨there, name, ending, last, known, suffix⟩, rfl, usable⟩
  · rintro ⟨names, ⟨⟨content, found⟩, name, ending, last, known, suffix⟩, rfl, usable⟩
    have named := inner_proper.at? found
    cases names with
    | nil => cases last
    | cons first rest =>
      have member := FileTree.mem_descendants_of_at? found
      have searched := (mem_search proper plain resolved directory known).mpr
        ⟨first :: rest, _, member, rfl, name, last, suffix⟩
      exact .below isDirectory known searched
        ((isFile_written proper resolved directory named usable (by simp)).mpr ⟨content, found⟩)

include proper resolved directory in
theorem locate_written (ne : names ≠ []) (named : ∀ name ∈ names, IsEntryName name)
    (usable : Usable (written word names)) {content : ByteArray}
    (found : (files.treeAt there).at? names = some (.file content)) :
    files.locate (written word names) = .ok ((there.map Prod.fst).reverse ++ names) := by
  have walked := (FileSystem.walk_eq_at? there named (.file content)).mpr found
  rw [FileSystem.locate_eq_map, resolve_written proper resolved directory ne named usable]
  cases reached : files.walk there names with
  | error e => rw [reached] at walked; cases walked
  | ok inner =>
    have tell := FileSystem.walk_names reached
    rw [Path.filterMap_names fun name member => (named name member).isName,
      FileSystem.foldl_onward_names] at tell
    simp [Except.map, tell]

end Search

variable {files : FileSystem} {word : String} {tree : FileTree}

/-- A directory with a plain name is searched as a whole: what its name contributes are the files at any
depth below it whose names have one of the endings, each under the names that lead to it, and nothing
else. Only a path that is too long to be used is left out. -/
theorem directory_searched (proper : files.Proper) (plain : IsPlain word) (found : files.find ⟨word⟩ = .ok tree)
    (directory : tree.isDirectory = true) :
    ∃ place, files.locate ⟨word⟩ = .ok place ∧
      (∀ path, path ∈ filesOf files word ↔
        ∃ names, IsSought tree names ∧ path = written word names ∧ Usable path) ∧
      ∀ names, IsSought tree names →
        (word.utf8ByteSize + breadth names < FileSystem.pathLimit → Usable (written word names)) ∧
        (Usable (written word names) → files.locate (written word names) = .ok (place ++ names)) := by
  obtain ⟨there, resolved, rfl⟩ := files.find_eq_ok.mp found
  obtain ⟨usable, (ne : word ≠ "")⟩ := files.usable_of_resolve resolved
  have inner_proper := proper.find found
  refine ⟨(there.map Prod.fst).reverse, by rw [FileSystem.locate_eq_map, resolved]; rfl, fun path => ?_,
    fun names sought => ?_⟩
  · exact mem_filesOf.trans (contributes_iff proper plain resolved directory)
  · obtain ⟨⟨content, at_names⟩, name, ending, last, -⟩ := sought
    have named := inner_proper.at? at_names
    have some_names : names ≠ [] := by
      rintro rfl
      cases last
    refine ⟨fun short => ?_, fun used =>
      locate_written proper resolved directory some_names named used at_names⟩
    have budget := breadth_way ne
    refine usable_foldl (List.forall_mem_append.mpr ⟨way_free ne, fun name member => (named name member).isName.2⟩)
      (List.forall_mem_append.mpr ⟨fun piece member inPiece => usable.1 (mem_of_mem_way ne member _ inPiece),
        fun name member => (named name member).text⟩) ?_
    rw [Glob.breadth_append]
    omega

def bracketed : FileSystem where
  root := .directory [("a[b]", .directory [("x.yml", .file .empty)]), ("ab", .directory [("y.yml", .file .empty)])]
  workingDirectory := []

theorem bracketed_proper : bracketed.Proper := by
  have inner : ∀ name, IsEntryName name → (FileTree.directory [(name, .file .empty)]).Proper := by
    intro name isEntryName
    refine .directory (fun other tree member => ?_) fun other tree member => ?_ <;>
      cases List.mem_singleton.mp member
    · exact isEntryName
    · exact .file .empty
  refine ⟨.directory (fun name tree member => ?_) fun name tree member => ?_, by decide⟩ <;>
    obtain same | member := List.mem_cons.mp member <;> try cases List.mem_singleton.mp member
  · cases same
    decide +kernel
  · decide +kernel
  · cases same
    exact inner "x.yml" (by decide +kernel)
  · exact inner "y.yml" (by decide +kernel)

theorem directory_searched_bracketed : bracketed.Proper ∧ IsPlain "ab" ∧ bracketed.isDirectory ⟨"ab"⟩ = true ∧
    (⟨"ab/y.yml"⟩ : Path) ∈ filesOf bracketed "ab" := by
  have signs : "ab".toList.all Glob.isLiteral = true := by decide
  have plain : IsPlain "ab" := ⟨List.all_eq_true.mp signs, .inr (by decide +kernel)⟩
  obtain ⟨place, -, exactly, -⟩ := directory_searched bracketed_proper plain rfl rfl
  exact ⟨bracketed_proper, plain, by decide +kernel, (exactly _).mpr
    ⟨["y.yml"], ⟨⟨.empty, rfl⟩, "y.yml", "yml", rfl, by decide, by decide⟩, by decide +kernel, by decide +kernel⟩⟩

def bracketPattern : Pattern := [.char 'a', .oneOf [⟨'b', 'b'⟩]]

/-- The pattern does not match the text that it was read from. -/
theorem find_bracketPattern (last : Pattern) :
    Glob.find bracketed false [bracketPattern, [.anyDirectories], last] ⟨"."⟩ =
      Glob.find bracketed false [[.anyDirectories], last] ⟨"ab"⟩ := by
  have names : Glob.namesIn bracketed ⟨"."⟩ = ["a[b]", "ab"] := List.mergeSort_of_pairwise (by decide +kernel)
  have unread : bracketPattern.literal? = none := by decide
  have open_ : bracketed.isDirectory ⟨"."⟩ = true := by decide +kernel
  have single : bracketPattern.isRecursive = false := by decide
  have special : Glob.specialEntries bracketPattern ⟨"."⟩ = [] := by decide
  have other : bracketPattern.accepts "a[b]" = false := by decide
  have taken : bracketPattern.accepts "ab" = true := by decide
  have inAb : inside ⟨"."⟩ "ab" = ⟨"ab"⟩ := by decide +kernel
  rw [Glob.find, unread]
  simp [open_, single, special, names, other, taken, inAb]

theorem search_bracketed {ending : String} (known : ending ∈ extensions) :
    Glob.search bracketed (patternBelow ⟨"a[b]"⟩ ending) =
      Glob.find bracketed false [[.anyDirectories], endingPattern ending] ⟨"ab"⟩ := by
  have read : ∀ ending ∈ extensions, PathPattern.ofText (patternBelow ⟨"a[b]"⟩ ending) =
      some ⟨⟨"."⟩, [bracketPattern, [.anyDirectories], endingPattern ending], false⟩ := by
    simp only [extensions, List.forall_mem_cons]
    exact ⟨by rfl, by rfl, nofun⟩
  rw [Glob.search, read ending known]
  exact find_bracketPattern _

/-- A name that is a pattern is read as one: the search goes to another directory. Behind a point, a doubled
slash ends it: there is nothing without a name. -/
theorem directory_missed : bracketed.Proper ∧ bracketed.isDirectory ⟨"a[b]"⟩ = true ∧
    bracketed.isFile ⟨"a[b]/x.yml"⟩ = true ∧ filesOf bracketed "a[b]" = [⟨"ab/y.yml"⟩] ∧
    bracketed.isDirectory ⟨".//ab"⟩ = true ∧ filesOf bracketed ".//ab" = [] := by
  have contributed : filesOf bracketed "a[b]" = [⟨"ab/y.yml"⟩] := by
    have file : bracketed.isFile ⟨"a[b]"⟩ = false := by decide +kernel
    have directory : bracketed.isDirectory ⟨"a[b]"⟩ = true := by decide +kernel
    have found : (extensions.flatMap fun ending =>
        (Glob.find bracketed false [[.anyDirectories], endingPattern ending] ⟨"ab"⟩).filter bracketed.isFile) =
          [⟨"ab/y.yml"⟩] := by decide +kernel
    rw [filesOf, file, directory, if_neg (by simp), if_pos rfl, ← found]
    refine List.flatMap_congr fun ending known => ?_
    rw [filesMatching, search_bracketed known]
  exact ⟨bracketed_proper, by decide +kernel, by decide +kernel, contributed, by decide +kernel, by decide +kernel⟩

end Discovery

end WorkflowLint

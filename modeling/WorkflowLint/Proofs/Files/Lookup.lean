import WorkflowLint.Files.System
import WorkflowLint.Proofs.Path.Components

/-! Looking up a name in a directory, wherever the program runs.

What a look finds depends on the place of the directory alone, and not on how the path to it is written,
unless the path is one that cannot be used at all: a text that is too long or that no name can have. -/

set_option autoImplicit false

namespace WorkflowLint.FileSystem

open WorkflowLint.Path (Component IsName)

variable (files : FileSystem)

theorem walk_append (trail : Trail) (first rest : List String) :
    files.walk trail (first ++ rest) = (files.walk trail first).bind fun there => files.walk there rest := by
  induction first generalizing trail with
  | nil => rfl
  | cons piece pieces ih =>
    rw [List.cons_append, walk, walk]
    split
    · rfl
    · split
      · exact ih _
      · split
        · exact ih _
        · split
          · rfl
          · split
            · rfl
            · exact ih _

theorem walk_file {trail : Trail} {content : ByteArray} (file : files.treeAt trail = .file content)
    {pieces : List String} (ne : pieces ≠ []) : files.walk trail pieces = .error .notADirectory := by
  cases pieces with
  | nil => exact absurd rfl ne
  | cons piece rest => rw [walk, file]

theorem walk_passed {trail : Trail} {entries : List (String × FileTree)} {piece : String}
    (none : Path.componentOf piece = none) (tree : files.treeAt trail = .directory entries) (rest : List String) :
    files.walk trail (piece :: rest) = files.walk trail rest := by
  have passed : piece = "" ∨ piece = "." := by
    by_contra other
    obtain ⟨inside, other⟩ := not_or.mp other
    have component := Path.isComponent_of_ne inside other
    rw [Path.isComponent, none] at component
    cases component
  rw [walk, tree]
  exact if_pos (by simpa using passed)

/-- On the way to something inside, pieces that mean nothing are passed over. -/
theorem walk_steps (trail : Trail) (pieces : List String) (name : String) :
    files.walk trail (pieces ++ [name]) =
      files.walk trail ((pieces.filterMap Path.componentOf).map Component.text ++ [name]) := by
  induction pieces generalizing trail with
  | nil => rfl
  | cons piece rest ih =>
    cases found : Path.componentOf piece with
    | none =>
      rw [List.filterMap_cons_none found, ← ih]
      cases tree : files.treeAt trail with
      | file content =>
        rw [files.walk_file tree (by simp), files.walk_file tree (by simp)]
      | directory entries =>
        rw [List.cons_append]
        exact files.walk_passed found tree (rest ++ [name])
    | some component =>
      rw [List.filterMap_cons_some found, List.map_cons, Path.text_of_componentOf found, List.cons_append,
        List.cons_append, walk, walk]
      simp only [ih]

/-- A point leads nowhere, but only directories have one. -/
theorem walk_point {trail there : Trail} :
    files.walk trail ["."] = .ok there ↔ trail = there ∧ (files.treeAt there).isDirectory = true := by
  cases tree : files.treeAt trail with
  | file content =>
    rw [files.walk_file tree (by simp)]
    refine ⟨nofun, ?_⟩
    rintro ⟨rfl, directory⟩
    rw [tree] at directory
    cases directory
  | directory entries =>
    have stays : files.walk trail ["."] = .ok trail := by simp [walk, tree]
    rw [stays, Except.ok.injEq]
    refine ⟨?_, And.left⟩
    rintro rfl
    exact ⟨rfl, by rw [tree]; rfl⟩

theorem walk_directory {trail there : Trail} (directory : (files.treeAt there).isDirectory = true)
    (pieces : List String) :
    files.walk trail pieces = .ok there ↔
      files.walk trail ((pieces.filterMap Path.componentOf).map Component.text) = .ok there := by
  have pointed : ∀ pieces, files.walk trail pieces = .ok there ↔ files.walk trail (pieces ++ ["."]) = .ok there := by
    intro pieces
    rw [walk_append]
    constructor
    · intro reached
      rw [reached]
      exact files.walk_point.mpr ⟨rfl, directory⟩
    · intro reached
      cases first : files.walk trail pieces with
      | error e =>
        rw [first] at reached
        cases reached
      | ok stop =>
        rw [first] at reached
        rw [(files.walk_point.mp reached).1]
  rw [pointed pieces, walk_steps, ← pointed]

theorem isDirectory_of_walk {trail there : Trail} {pieces : List String}
    (reached : files.walk trail pieces = .ok there) (directory : (files.treeAt there).isDirectory = true) :
    (files.treeAt trail).isDirectory = true := by
  cases tree : files.treeAt trail with
  | directory entries => rfl
  | file content =>
    by_cases none : pieces = []
    · rw [none] at reached
      cases reached
      rwa [tree] at directory
    · rw [files.walk_file tree none] at reached
      cases reached

def Usable (path : Path) : Prop := '\x00' ∉ path.text.toList ∧ path.text.utf8ByteSize < pathLimit

instance (path : Path) : Decidable (Usable path) := inferInstanceAs (Decidable (_ ∧ _))

def lookup (place : List Component) (name : String) : Except FileError FileTree :=
  (files.walk [] (place.tail.map Component.text ++ [name])).map files.treeAt

def startOf (path : Path) : List String := if path.isAbsolute then [] else files.workingDirectory

theorem resolve_usable {path : Path} (usable : Usable path) (ne : path.text ≠ "") :
    files.resolve path = files.walk [] (files.startOf path ++ path.pieces) := by
  have text : path.text.toList.contains '\x00' = false := by simpa using usable.1
  have short : ¬pathLimit ≤ path.text.utf8ByteSize := Nat.not_le.mpr usable.2
  have some_text : path.text.isEmpty = false := by simpa using ne
  rw [resolve, text, some_text, if_neg (by simp), if_neg (by simp), if_neg short, startOf]
  cases path.isAbsolute with
  | true => rfl
  | false =>
    rw [if_neg (by simp), if_neg (by simp), walk_append]
    cases files.walk [] files.workingDirectory <;> rfl

theorem usable_of_resolve {path : Path} {there : Trail} (resolved : files.resolve path = .ok there) :
    Usable path ∧ path.text ≠ "" := by
  unfold resolve at resolved
  split at resolved
  · cases resolved
  · next clean =>
    split at resolved
    · cases resolved
    · next some_text =>
      split at resolved
      · cases resolved
      · next short => exact ⟨⟨by simpa using clean, Nat.not_le.mp short⟩, by simpa using some_text⟩

theorem find_eq_map (path : Path) : files.find path = (files.resolve path).map files.treeAt := by
  unfold find
  cases files.resolve path <;> rfl

theorem find_eq_ok {path : Path} {tree : FileTree} :
    files.find path = .ok tree ↔ ∃ there, files.resolve path = .ok there ∧ files.treeAt there = tree := by
  rw [find_eq_map]
  cases files.resolve path <;> simp [Except.map]

theorem isFile_iff {path : Path} : files.isFile path = true ↔ ∃ content, files.find path = .ok (.file content) := by
  unfold isFile
  cases files.find path with
  | error e => simp
  | ok tree => cases tree <;> simp [FileTree.isFile]

/-- Where nothing but slashes and points leads, there is no file. -/
theorem steps_ne_nil_of_isFile {path : Path} (file : files.isFile path = true) : path.steps ≠ [] := by
  intro none
  obtain ⟨content, found⟩ := files.isFile_iff.mp file
  obtain ⟨there, resolved, tree⟩ := files.find_eq_ok.mp found
  obtain ⟨usable, ne⟩ := files.usable_of_resolve resolved
  obtain ⟨front, last, pieces⟩ := (List.eq_nil_or_concat path.pieces).resolve_left path.pieces_ne_nil
  rw [List.concat_eq_append] at pieces
  have means : Path.componentOf last = Option.none :=
    List.filterMap_eq_nil_iff.mp none last (by rw [pieces]; simp)
  rw [resolve_usable files usable ne, pieces, ← List.append_assoc, walk_append] at resolved
  cases first : files.walk [] (files.startOf path ++ front) with
  | error e =>
    rw [first] at resolved
    cases resolved
  | ok mid =>
    rw [first] at resolved
    change files.walk mid [last] = .ok there at resolved
    cases here : files.treeAt mid with
    | file _ =>
      rw [files.walk_file here (by simp)] at resolved
      cases resolved
    | directory entries =>
      rw [files.walk_passed means here] at resolved
      cases resolved
      rw [here] at tree
      cases tree

theorem locate_eq_map (path : Path) :
    files.locate path = (files.resolve path).map fun trail => (trail.map Prod.fst).reverse := by
  unfold locate
  cases files.resolve path <;> rfl

section WorkingDirectory

variable {files} (names : ∀ name ∈ files.workingDirectory, IsName name)

theorem workingPath_isAbsolute : files.workingPath.isAbsolute = true := by
  simp [workingPath, Path.isAbsolute]

theorem tail_place_append (path : Path) (more : List Path.Component) :
    (files.workingPath.place path ++ more).tail = (files.workingPath.place path).tail ++ more := by
  refine List.tail_append_of_ne_nil ?_
  cases absolute : path.isAbsolute with
  | true => simp [Path.place_absolute absolute, Path.components_absolute absolute]
  | false =>
    have rooted := @workingPath_isAbsolute files
    simp [Path.place_relative (Path.text_ne_of_absolute rooted) absolute, Path.components_absolute rooted]

include names in
theorem workingPath_components :
    files.workingPath.components = .root :: files.workingDirectory.map Component.name := by
  have steps : Path.steps ⟨"/".intercalate files.workingDirectory⟩ =
      files.workingDirectory.map Component.name := by
    cases given : files.workingDirectory with
    | nil => rfl
    | cons first rest =>
      rw [given] at names
      rw [Path.steps, Path.pieces_intercalate (by simp) fun name member => (names name member).2]
      exact Path.filterMap_names names
  have text : files.workingPath = ⟨"" ++ "/" ++ "/".intercalate files.workingDirectory⟩ := by
    rw [String.empty_append]
    rfl
  rw [text, Path.components_slash, steps]
  rfl

include names in
/-- The place of a path is what it leads by, behind the names to where it starts. -/
theorem place_texts (path : Path) :
    (files.workingPath.place path).tail.map Component.text =
      files.startOf path ++ path.steps.map Component.text := by
  rw [startOf]
  cases absolute : path.isAbsolute with
  | true =>
    rw [Path.place_absolute absolute, Path.components_absolute absolute]
    rfl
  | false =>
    have rooted := Path.text_ne_of_absolute (@workingPath_isAbsolute files)
    have texts : (files.workingDirectory.map Component.name).map Component.text = files.workingDirectory := by
      rw [List.map_map]
      exact List.map_id _
    rw [Path.place_relative rooted absolute, workingPath_components names, List.cons_append,
      List.tail_cons, List.map_append, texts]
    rfl

include names in
theorem resolve_directory {path : Path} (usable : Usable path) (ne : path.text ≠ "") {there : Trail}
    (directory : (files.treeAt there).isDirectory = true) :
    files.resolve path = .ok there ↔
      files.walk [] ((files.workingPath.place path).tail.map Component.text) = .ok there := by
  rw [resolve_usable files usable ne, place_texts names, walk_append, walk_append]
  cases files.walk [] (files.startOf path) with
  | error e => exact Iff.rfl
  | ok start => exact files.walk_directory directory path.pieces

include names in
theorem resolve_child {directory : Path} {name : String} (isName : IsName name)
    (usable : Usable (directory.child name)) :
    files.resolve (directory.child name) =
      files.walk [] ((files.workingPath.place directory).tail.map Component.text ++ [name]) := by
  obtain ⟨before, pieces, steps⟩ := Path.pieces_child isName directory
  have ne : (directory.child name).text ≠ "" := fun empty => by
    have components := Path.components_child isName directory
    rw [Path.components, empty] at components
    simp at components
  have start : files.startOf (directory.child name) = files.startOf directory := by
    rw [startOf, startOf, Path.isAbsolute_child isName]
  rw [resolve_usable files usable ne, place_texts names, pieces, start, List.append_assoc, walk_append,
    walk_append]
  refine congrArg (Except.bind _) (funext fun there => ?_)
  rw [walk_steps, steps]

include names in
/-- What a look from a directory finds is known by the place of the directory. -/
theorem find_child {directory : Path} {name : String} (isName : IsName name)
    (usable : Usable (directory.child name)) :
    files.find (directory.child name) = files.lookup (files.workingPath.place directory) name := by
  rw [find_eq_map, resolve_child names isName usable, lookup]

end WorkingDirectory

end WorkflowLint.FileSystem

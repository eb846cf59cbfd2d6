import WorkflowLint.Proofs.Files.Lookup

/-! What lies in a tree, by the names that lead there.

The tree at the end of some names is found by one lookup after the other. Going that way is what a walk by
these names does, and all that is found so is among the descendants. -/

set_option autoImplicit false

namespace WorkflowLint

open WorkflowLint.Path (Component IsName)

structure IsEntryName (name : String) : Prop where
  isName : IsName name
  text : '\x00' ∉ name.toList
  short : name.utf8ByteSize ≤ FileSystem.nameLimit

instance (name : String) : Decidable (IsEntryName name) :=
  decidable_of_iff (IsName name ∧ '\x00' ∉ name.toList ∧ name.utf8ByteSize ≤ FileSystem.nameLimit)
    ⟨fun ⟨isName, text, short⟩ => ⟨isName, text, short⟩, fun entry => ⟨entry.isName, entry.text, entry.short⟩⟩

namespace FileTree

/-- A tree in which every entry has a name that it can have. -/
inductive Proper : FileTree → Prop where
  | file (content : ByteArray) : Proper (.file content)
  | directory {entries : List (String × FileTree)} :
      (∀ name tree, (name, tree) ∈ entries → IsEntryName name) →
      (∀ name tree, (name, tree) ∈ entries → Proper tree) → Proper (.directory entries)

def at? : FileTree → List String → Option FileTree
  | tree, [] => some tree
  | tree, name :: rest => (tree.entry? name).bind fun inner => inner.at? rest

variable {tree inner : FileTree} {name : String} {names rest : List String}

theorem mem_entries_of_entry? (found : tree.entry? name = some inner) : (name, inner) ∈ tree.entries := by
  obtain ⟨before, after, cut, _⟩ := List.lookup_eq_some_iff.mp found
  rw [cut]
  simp

theorem Proper.entry (proper : tree.Proper) (member : (name, inner) ∈ tree.entries) :
    IsEntryName name ∧ inner.Proper := by
  cases proper with
  | file content => cases member
  | directory named proper => exact ⟨named name inner member, proper name inner member⟩

theorem mem_descendantsOf {entries : List (String × FileTree)} :
    (names, inner) ∈ descendantsOf entries ↔
      ∃ name next rest, (name, next) ∈ entries ∧ names = name :: rest ∧
        (rest = [] ∧ inner = next ∨ (rest, inner) ∈ next.descendants) := by
  induction entries with
  | nil => simp [descendantsOf]
  | cons entry others ih =>
    obtain ⟨first, tree⟩ := entry
    rw [descendantsOf, List.mem_append, ih, List.mem_cons, List.mem_map]
    constructor
    · rintro ((own | ⟨⟨rest, below⟩, member, same⟩) | ⟨name, next, rest, member, cut, found⟩)
      · cases own
        exact ⟨first, _, [], List.mem_cons_self, rfl, .inl ⟨rfl, rfl⟩⟩
      · cases same
        exact ⟨first, tree, rest, List.mem_cons_self, rfl, .inr member⟩
      · exact ⟨name, next, rest, List.mem_cons_of_mem _ member, cut, found⟩
    · rintro ⟨name, next, rest, member, rfl, found⟩
      rcases List.mem_cons.mp member with same | later
      · cases same
        rcases found with ⟨rfl, rfl⟩ | below
        · exact .inl (.inl rfl)
        · exact .inl (.inr ⟨(rest, inner), below, rfl⟩)
      · exact .inr ⟨name, next, rest, later, rfl, found⟩

theorem mem_descendants :
    (names, inner) ∈ tree.descendants ↔
      ∃ name next rest, (name, next) ∈ tree.entries ∧ names = name :: rest ∧
        (rest = [] ∧ inner = next ∨ (rest, inner) ∈ next.descendants) := by
  cases tree with
  | file content => simp [descendants, entries]
  | directory entries =>
    rw [descendants, mem_descendantsOf]
    rfl

theorem ne_nil_of_mem_descendants (member : (names, inner) ∈ tree.descendants) : names ≠ [] := by
  obtain ⟨name, next, rest, _, rfl, _⟩ := mem_descendants.mp member
  exact List.cons_ne_nil name rest

theorem Proper.descendants (proper : tree.Proper) (member : (names, inner) ∈ tree.descendants) :
    ∀ name ∈ names, IsEntryName name := by
  induction names generalizing tree with
  | nil => exact nofun
  | cons first others ih =>
    obtain ⟨name, next, rest, entry, cut, found⟩ := mem_descendants.mp member
    cases cut
    obtain ⟨named, below⟩ := proper.entry entry
    rw [List.forall_mem_cons]
    refine ⟨named, ?_⟩
    rcases found with ⟨rfl, _⟩ | found
    · exact nofun
    · exact ih below found

theorem mem_descendants_of_at? (found : tree.at? (name :: rest) = some inner) :
    (name :: rest, inner) ∈ tree.descendants := by
  induction rest generalizing tree name with
  | nil =>
    obtain ⟨next, entry, same⟩ := Option.bind_eq_some_iff.mp found
    cases same
    exact mem_descendants.mpr ⟨name, _, [], mem_entries_of_entry? entry, rfl, .inl ⟨rfl, rfl⟩⟩
  | cons second rest ih =>
    obtain ⟨next, entry, below⟩ := Option.bind_eq_some_iff.mp found
    exact mem_descendants.mpr ⟨name, next, second :: rest, mem_entries_of_entry? entry, rfl, .inr (ih below)⟩

theorem Proper.at? (proper : tree.Proper) (found : tree.at? names = some inner) :
    ∀ name ∈ names, IsEntryName name := by
  cases names with
  | nil => exact nofun
  | cons name rest => exact proper.descendants (mem_descendants_of_at? found)

end FileTree

namespace FileSystem

/-- All names are such as there can be, those on the way to the working directory included. -/
structure Proper (files : FileSystem) : Prop where
  tree : files.root.Proper
  start : ∀ name ∈ files.workingDirectory, IsName name

variable {files : FileSystem}

theorem Proper.walk (proper : files.Proper) {trail there : Trail} {pieces : List String}
    (trees : ∀ step ∈ trail, step.2.Proper) (reached : files.walk trail pieces = .ok there) :
    ∀ step ∈ there, step.2.Proper := by
  induction pieces generalizing trail with
  | nil =>
    cases reached
    exact trees
  | cons piece rest ih =>
    rw [FileSystem.walk] at reached
    split at reached
    · cases reached
    · next entries tree =>
      have here : (FileTree.directory entries).Proper := by
        rw [← tree]
        cases trail with
        | nil => exact proper.tree
        | cons step before => exact trees step List.mem_cons_self
      split at reached
      · exact ih trees reached
      · split at reached
        · exact ih (fun step member => trees step (List.mem_of_mem_tail member)) reached
        · split at reached
          · cases reached
          · split at reached
            · cases reached
            · next inner found =>
              refine ih ?_ reached
              rw [List.forall_mem_cons]
              exact ⟨(here.entry (FileTree.mem_entries_of_entry? found)).2, trees⟩

theorem Proper.treeAt (proper : files.Proper) {there : Trail} {pieces : List String}
    (reached : files.walk [] pieces = .ok there) : (files.treeAt there).Proper := by
  have trees := proper.walk (List.forall_mem_nil _) reached
  cases there with
  | nil => exact proper.tree
  | cons step before => exact trees step List.mem_cons_self

theorem Proper.find (proper : files.Proper) {path : Path} {tree : FileTree} (found : files.find path = .ok tree) :
    tree.Proper := by
  obtain ⟨there, resolved, rfl⟩ := files.find_eq_ok.mp found
  obtain ⟨usable, ne⟩ := files.usable_of_resolve resolved
  exact proper.treeAt ((resolve_usable files usable ne).symm.trans resolved)

theorem walk_eq_at? (trail : Trail) {names : List String} (named : ∀ name ∈ names, IsEntryName name)
    (inner : FileTree) :
    (files.walk trail names).map files.treeAt = .ok inner ↔ (files.treeAt trail).at? names = some inner := by
  induction names generalizing trail with
  | nil => simp [FileSystem.walk, FileTree.at?, Except.map]
  | cons name rest ih =>
    obtain ⟨first, others⟩ := List.forall_mem_cons.mp named
    have component := first.isName.1
    have ne : name ≠ "" ∧ name ≠ "." ∧ name ≠ ".." := by
      refine ⟨?_, ?_, ?_⟩
      all_goals
        rintro rfl
        cases component
    have short := Nat.not_lt.mpr first.short
    rw [FileSystem.walk, FileTree.at?]
    cases tree : files.treeAt trail with
    | file content => simp [FileTree.entry?, FileTree.entries, Except.map]
    | directory entries =>
      simp only [ne, if_false, if_neg short, FileTree.entry?, FileTree.entries]
      cases found : entries.lookup name with
      | none => simp [Except.map]
      | some next => exact ih ((name, next) :: trail) others

end FileSystem

end WorkflowLint

import WorkflowLint.Discovery
import WorkflowLint.Proofs.Path.Order

/-! Which files a list of inputs stands for.

The words of the inputs contribute files each on its own; the result is their union, in the order of
paths and with each path once. So it depends on which words there are and on nothing else: not on how
they are spread over inputs, not on their order, and not on how often one comes. -/

set_option autoImplicit false

namespace WorkflowLint.Discovery

open WorkflowLint.Path (Ordered Holds)

theorem words_append (inputs others : List String) : words (inputs ++ others) = words inputs ++ words others :=
  List.flatMap_append

/-- A blank in an input does what the bounds of inputs do. -/
theorem words_broken {blank : Char} (isBlank_blank : Text.isBlank blank = true) (before after : String) :
    words [before ++ String.singleton blank ++ after] = words [before, after] := by
  simp [words, Text.words_break isBlank_blank]

variable (files : FileSystem)

/-- The files that a word contributes on its own: the one that it names; those in the directory that it
names, at any depth and with one of the two endings; else those that it stands for as a pattern. -/
inductive Contributes (word : String) : Path → Prop where
  | named : files.isFile ⟨word⟩ = true → Contributes word ⟨word⟩
  | below {ending : String} {path : Path} : files.isDirectory ⟨word⟩ = true → ending ∈ extensions →
      path ∈ Glob.search files (patternBelow ⟨word⟩ ending) → files.isFile path = true →
      Contributes word path
  | matching {path : Path} : files.isFile ⟨word⟩ = false → files.isDirectory ⟨word⟩ = false →
      path ∈ Glob.search files word → files.isFile path = true → Contributes word path

variable {files}

theorem Contributes.isFile {word : String} {path : Path} (contributes : Contributes files word path) :
    files.isFile path = true := by
  cases contributes <;> assumption

theorem mem_filesMatching {pattern : String} {path : Path} :
    path ∈ filesMatching files pattern ↔ path ∈ Glob.search files pattern ∧ files.isFile path = true :=
  List.mem_filter

theorem isFile_of_isDirectory {path : Path} (directory : files.isDirectory path = true) :
    files.isFile path = false := by
  unfold FileSystem.isDirectory at directory
  unfold FileSystem.isFile
  split at directory
  · next tree found => simpa [FileTree.isDirectory] using directory
  · cases directory

theorem mem_filesOf {word : String} {path : Path} :
    path ∈ filesOf files word ↔ Contributes files word path := by
  unfold filesOf
  constructor
  · intro member
    split at member
    · next named =>
      cases List.mem_singleton.mp member
      exact .named named
    · next unnamed =>
      split at member
      · next directory =>
        obtain ⟨ending, known, found⟩ := List.mem_flatMap.mp member
        obtain ⟨searched, file⟩ := mem_filesMatching.mp found
        exact .below directory known searched file
      · next foreign =>
        obtain ⟨searched, file⟩ := mem_filesMatching.mp member
        exact .matching (Bool.eq_false_of_not_eq_true unnamed) (Bool.eq_false_of_not_eq_true foreign)
          searched file
  · intro contributes
    cases contributes with
    | named named => simp [named]
    | below directory known searched file =>
      rw [isFile_of_isDirectory directory, directory]
      exact List.mem_flatMap.mpr ⟨_, known, mem_filesMatching.mpr ⟨searched, file⟩⟩
    | matching unnamed foreign searched file =>
      rw [unnamed, foreign]
      exact mem_filesMatching.mpr ⟨searched, file⟩

theorem not_contributes {word : String} (unnamed : files.isFile ⟨word⟩ = false)
    (foreign : files.isDirectory ⟨word⟩ = false) (invalid : Glob.PathPattern.ofText word = none)
    (path : Path) : ¬Contributes files word path := by
  intro contributes
  cases contributes with
  | named named => rw [unnamed] at named; cases named
  | below directory => rw [foreign] at directory; cases directory
  | matching _ _ searched =>
    rw [Glob.search, invalid] at searched
    cases searched

variable (files)

theorem mem_words {word : String} {inputs : List String} :
    word ∈ words inputs ↔ ∃ input ∈ inputs, word ∈ words [input] := by
  simp [words]

/-- The paths of two lists are the same, one by one, whatever their texts are. -/
def Alike (paths others : List Path) : Prop := paths.map Path.components = others.map Path.components

theorem workflowFiles_found (inputs : List String) :
    let found := workflowFiles files inputs
    Ordered found ∧ (∀ path ∈ found, files.isFile path = true) ∧
      ∀ path, Holds found path ↔
        ∃ word ∈ words inputs, ∃ given, Contributes files word given ∧ given.components = path.components := by
  obtain ⟨ordered, origin, held⟩ :=
    Path.foldl_insertOrdered ((words inputs).flatMap (filesOf files)) [] List.Pairwise.nil
  refine ⟨ordered, fun path member => ?_, fun path => ?_⟩
  · have given := (origin path member).resolve_right nofun
    obtain ⟨word, _, contributed⟩ := List.mem_flatMap.mp given
    exact (mem_filesOf.mp contributed).isFile
  · have contributed : Holds ((words inputs).flatMap (filesOf files)) path ↔
        ∃ word ∈ words inputs, ∃ given, Contributes files word given ∧
          given.components = path.components := by
      constructor
      · rintro ⟨given, member, same⟩
        obtain ⟨word, known, contributed⟩ := List.mem_flatMap.mp member
        exact ⟨word, known, given, mem_filesOf.mp contributed, same⟩
      · rintro ⟨word, known, given, contributed, same⟩
        exact ⟨given, List.mem_flatMap.mpr ⟨word, known, mem_filesOf.mpr contributed⟩, same⟩
    exact (held path).trans ((or_iff_left nofun).trans contributed)

section Words

variable {inputs others : List String}

theorem holds_workflowFiles_mono (words_subset : ∀ word ∈ words inputs, word ∈ words others) {path : Path}
    (held : Holds (workflowFiles files inputs) path) : Holds (workflowFiles files others) path := by
  obtain ⟨word, known, contributed⟩ := ((workflowFiles_found files inputs).2.2 path).mp held
  exact ((workflowFiles_found files others).2.2 path).mpr ⟨word, words_subset word known, contributed⟩

theorem workflowFiles_alike (same : ∀ word, word ∈ words inputs ↔ word ∈ words others) :
    Alike (workflowFiles files inputs) (workflowFiles files others) :=
  (workflowFiles_found files inputs).1.components_eq (workflowFiles_found files others).1 fun _ =>
    ⟨holds_workflowFiles_mono files fun word => (same word).mp,
      holds_workflowFiles_mono files fun word => (same word).mpr⟩

end Words

end WorkflowLint.Discovery

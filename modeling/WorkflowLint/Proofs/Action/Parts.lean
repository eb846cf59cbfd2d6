import WorkflowLint.Proofs.Action.Reference

/-! The parts of a reference, and the texts that are read as them.

Between the owner and the revision stand a repository and a subpath, each behind a slash. Either may be
missing, and one that is empty counts as missing, so the same parts can be written in more than one way.
Reading finds all these ways and no others. -/

set_option autoImplicit false

namespace WorkflowLint

namespace Text

variable {separator : Char}

theorem cutFirst_eq_none {cs : List Char} : cutFirst separator cs = none ↔ separator ∉ cs := by
  induction cs with
  | nil => simp [cutFirst]
  | cons c rest ih =>
    by_cases same : c = separator
    · simp [cutFirst, same]
    · simp [cutFirst, same, ih, Ne.symm same]

theorem cutFirst_append {before : List Char} (first : separator ∉ before) (after : List Char) :
    cutFirst separator (before ++ separator :: after) = some (before, after) := by
  induction before with
  | nil => simp [cutFirst]
  | cons c rest ih =>
    have other : c ≠ separator := fun same => first (same ▸ List.mem_cons_self)
    have later : separator ∉ rest := fun member => first (List.mem_cons_of_mem c member)
    simp [cutFirst, other, ih later]

end Text

namespace RemoteAction

/-- Parts that can be told from what separates them, and none that is given but empty. -/
structure Separable (action : RemoteAction) : Prop where
  owner : '/' ∉ action.owner.toList
  repo : ∀ repo, action.repo = some repo → repo ≠ "" ∧ '/' ∉ repo.toList
  subpath : ∀ subpath, action.subpath = some subpath → subpath ≠ ""
  revision : '@' ∉ action.revision.toList

def paths (action : RemoteAction) : List String :=
  match action.repo, action.subpath with
  | none, none => [action.owner, action.owner ++ "/", action.owner ++ "/" ++ "/"]
  | none, some subpath => [action.owner ++ "/" ++ "/" ++ subpath]
  | some repo, none => [action.owner ++ "/" ++ repo, action.owner ++ "/" ++ repo ++ "/"]
  | some repo, some subpath => [action.owner ++ "/" ++ repo ++ "/" ++ subpath]

def written (owner : String) (repo subpath : Option String) (revision : String) : String :=
  owner ++ repo.elim "" ("/" ++ ·) ++ subpath.elim "" ("/" ++ ·) ++ "@" ++ revision

theorem mem_paths {action : RemoteAction} {path : String} :
    path ∈ action.paths ↔
      action.repo = none ∧ action.subpath = none ∧ path = action.owner ∨
      action.subpath = none ∧ path = action.owner ++ "/" ++ action.repo.getD "" ∨
      path = action.owner ++ "/" ++ action.repo.getD "" ++ "/" ++ action.subpath.getD "" := by
  unfold paths
  cases action.repo <;> cases action.subpath <;> simp

section Nonempty

theorem nonempty?_eq_some {text given : String} :
    nonempty? text.toList = some given ↔ text ≠ "" ∧ text = given := by
  simp [nonempty?]

theorem getD_nonempty? (text : String) : (nonempty? text.toList).getD "" = text := by
  by_cases empty : text = ""
  · simp [nonempty?, empty]
  · simp [nonempty?, empty]

theorem nonempty?_getD {given : Option String} (filled : ∀ text, given = some text → text ≠ "") :
    nonempty? (given.getD "").toList = given := by
  cases given with
  | none => rfl
  | some text => exact nonempty?_eq_some.mpr ⟨filled text rfl, rfl⟩

end Nonempty

section Dividing

variable (raw revision : String) {owner repo : String}

theorem ofParts_owner (slashless : '/' ∉ owner.toList) :
    ofParts raw owner.toList revision.toList = ⟨raw, owner, none, none, revision⟩ := by
  simp [ofParts, Text.cutFirst_eq_none.mpr slashless]

theorem ofParts_repo (slashless : '/' ∉ owner.toList) (slashless' : '/' ∉ repo.toList) :
    ofParts raw (owner ++ "/" ++ repo).toList revision.toList =
      ⟨raw, owner, nonempty? repo.toList, none, revision⟩ := by
  have path : (owner ++ "/" ++ repo).toList = owner.toList ++ '/' :: repo.toList := by simp
  simp [ofParts, path, Text.cutFirst_append slashless, Text.cutFirst_eq_none.mpr slashless']

theorem ofParts_subpath (slashless : '/' ∉ owner.toList) (slashless' : '/' ∉ repo.toList)
    (subpath : String) :
    ofParts raw (owner ++ "/" ++ repo ++ "/" ++ subpath).toList revision.toList =
      ⟨raw, owner, nonempty? repo.toList, nonempty? subpath.toList, revision⟩ := by
  have path : (owner ++ "/" ++ repo ++ "/" ++ subpath).toList =
      owner.toList ++ '/' :: (repo.toList ++ '/' :: subpath.toList) := by simp
  simp [ofParts, path, Text.cutFirst_append slashless, Text.cutFirst_append slashless']

theorem cut_or_slashless (text : String) :
    '/' ∉ text.toList ∨ ∃ before after, text = before ++ "/" ++ after ∧ '/' ∉ before.toList := by
  cases first : Text.cutFirst '/' text.toList with
  | none => exact .inl (Text.cutFirst_eq_none.mp first)
  | some pieces =>
    obtain ⟨before, after⟩ := pieces
    obtain ⟨same, slashless⟩ := Text.cutFirst_eq_some first
    refine .inr ⟨String.ofList before, String.ofList after, ?_, by simpa using slashless⟩
    apply String.toList_injective
    simpa using same

theorem separable_nonempty? (slashless : '/' ∉ owner.toList) (slashless' : '/' ∉ repo.toList)
    (subpath : String) (last : '@' ∉ revision.toList) :
    Separable ⟨raw, owner, nonempty? repo.toList, nonempty? subpath.toList, revision⟩ where
  owner := slashless
  repo := by
    intro given found
    obtain ⟨filled, rfl⟩ := nonempty?_eq_some.mp found
    exact ⟨filled, slashless'⟩
  subpath := by
    intro given found
    obtain ⟨filled, rfl⟩ := nonempty?_eq_some.mp found
    exact filled
  revision := last

/-- A path is divided into parts of which it is a path. -/
theorem ofParts_divides (path : String) (last : '@' ∉ revision.toList) :
    (ofParts raw path.toList revision.toList).Separable ∧
      path ∈ (ofParts raw path.toList revision.toList).paths := by
  rw [mem_paths]
  -- The cases are those of the definition: no slash at all, one, or a second one.
  have free : '/' ∉ "".toList := by simp
  obtain slashless | ⟨owner, rest, rfl, slashless⟩ := cut_or_slashless path
  · rw [ofParts_owner raw revision slashless]
    exact ⟨separable_nonempty? raw revision slashless free "" last, by simp⟩
  · obtain slashless' | ⟨repo, subpath, rfl, slashless'⟩ := cut_or_slashless rest
    · rw [ofParts_repo raw revision slashless slashless']
      exact ⟨separable_nonempty? raw revision slashless slashless' "" last, by simp [getD_nonempty?]⟩
    · have path : owner ++ "/" ++ (repo ++ "/" ++ subpath) = owner ++ "/" ++ repo ++ "/" ++ subpath := by
        simp only [String.append_assoc]
      rw [path, ofParts_subpath raw revision slashless slashless']
      exact ⟨separable_nonempty? raw revision slashless slashless' subpath last, by simp [getD_nonempty?]⟩

end Dividing

theorem ofParts_of_mem_paths {action : RemoteAction} (separable : action.Separable) {path : String}
    (member : path ∈ action.paths) :
    ofParts action.raw path.toList action.revision.toList = action := by
  obtain ⟨raw, owner, repo, subpath, revision⟩ := action
  have slashless' : '/' ∉ (repo.getD "").toList := by
    cases repo with
    | none => simp
    | some repo => exact (separable.repo repo rfl).2
  have repoGiven : nonempty? (repo.getD "").toList = repo :=
    nonempty?_getD fun text given => (separable.repo text given).1
  have subpathGiven : nonempty? (subpath.getD "").toList = subpath := nonempty?_getD separable.subpath
  obtain ⟨none, none', same⟩ | ⟨none, same⟩ | same := mem_paths.mp member
  · dsimp only at none none' same
    subst none none' same
    exact ofParts_owner raw revision separable.owner
  · dsimp only at none same
    subst none same
    rw [ofParts_repo raw revision separable.owner slashless', repoGiven]
  · dsimp only at same
    subst same
    rw [ofParts_subpath raw revision separable.owner slashless', repoGiven, subpathGiven]

end RemoteAction

namespace ActionRef

/-- A text is read as a remote action just when it is a path to this action with its revision behind, and
has nothing in it that keeps it in its own repository. -/
theorem parse_eq_remote {text : String} {action : RemoteAction} :
    parse text = .remote action ↔
      action.raw = text ∧ ¬inTreeMarker <:+: text.toList ∧ action.Separable ∧
        ∃ path ∈ action.paths, text = path ++ "@" ++ action.revision := by
  constructor
  · intro parsed
    obtain ⟨_, other⟩ | ⟨_, _, other⟩ | ⟨unmarked, path, revision, cut, last, remote⟩ := parse_cases text
    · cases other.symm.trans parsed
    · cases other.symm.trans parsed
    · cases remote.symm.trans parsed
      have divides := RemoteAction.ofParts_divides text (String.ofList revision) (String.ofList path)
        (by simpa using last)
      simp only [String.toList_ofList] at divides
      obtain ⟨separable, member⟩ := divides
      refine ⟨by simp, unmarked, separable, String.ofList path, member, ?_⟩
      apply String.toList_injective
      simp [cut]
  · rintro ⟨rfl, unmarked, separable, path, member, same⟩
    have divided := RemoteAction.ofParts_of_mem_paths separable member
    rw [same] at unmarked divided ⊢
    rw [parse_cut separable.revision unmarked, divided]

/-- Reading gives back the parts that a reference was written with, and nothing of a text gets lost on
the way: a text that is read as remote is one of the paths to what it is read as, with its revision. -/
theorem parse_written :
    (∀ (owner : String) (repo subpath : Option String) (revision : String),
      '/' ∉ owner.toList → (∀ text, repo = some text → text ≠ "" ∧ '/' ∉ text.toList) →
      (∀ text, subpath = some text → text ≠ "" ∧ repo.isSome = true) → '@' ∉ revision.toList →
      let text := RemoteAction.written owner repo subpath revision
      ¬inTreeMarker <:+: text.toList → parse text = .remote ⟨text, owner, repo, subpath, revision⟩) ∧
    ∀ (text : String) (action : RemoteAction), parse text = .remote action →
      action.raw = text ∧ '/' ∉ action.owner.toList ∧
      (∀ repo, action.repo = some repo → repo ≠ "" ∧ '/' ∉ repo.toList) ∧
      (∀ subpath, action.subpath = some subpath → subpath ≠ "") ∧ '@' ∉ action.revision.toList ∧
      ∃ path ∈ action.paths, text = path ++ "@" ++ action.revision := by
  constructor
  · intro owner repo subpath revision slashless repoFree subpathFree last text unmarked
    apply parse_eq_remote.mpr
    refine ⟨rfl, unmarked, ⟨slashless, repoFree, fun given found => (subpathFree given found).1, last⟩, ?_⟩
    refine ⟨_, ?_, rfl⟩
    cases subpath with
    | none => cases repo <;> simp [RemoteAction.paths, String.append_assoc]
    | some subpath =>
      obtain ⟨repo, rfl⟩ := Option.isSome_iff_exists.mp (subpathFree subpath rfl).2
      simp [RemoteAction.paths, String.append_assoc]
  · intro text action parsed
    obtain ⟨raw, _, separable, path, member, same⟩ := parse_eq_remote.mp parsed
    exact ⟨raw, separable.owner, separable.repo, separable.subpath, separable.revision, path, member, same⟩

theorem parse_written_nested :
    parse "a@b/r/x/y@1" = .remote ⟨"a@b/r/x/y@1", "a@b", some "r", some "x/y", "1"⟩ ∧
      ∃ path ∈ RemoteAction.paths ⟨"o//s@1", "o", none, some "s", "1"⟩, "o//s@1" = path ++ "@" ++ "1" := by
  obtain ⟨read, kept⟩ := parse_written
  constructor
  · have unmarked : ¬inTreeMarker <:+: "a@b/r/x/y@1".toList := mt Text.occursIn_iff.mpr (by decide)
    exact read "a@b" (some "r") (some "x/y") "1" (by decide) (by simp) (by simp) (by decide) unmarked
  · obtain ⟨_, _, _, _, _, path, member, same⟩ :=
      kept "o//s@1" ⟨"o//s@1", "o", none, some "s", "1"⟩ (by decide)
    exact ⟨path, member, same⟩

end ActionRef

end WorkflowLint

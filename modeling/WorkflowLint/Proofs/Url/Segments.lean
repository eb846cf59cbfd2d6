import WorkflowLint.Url.Extend
import WorkflowLint.Url.Reader

/-! What stands in the path of a URL: of one that was read, and after segments have been pushed to it.

A URL with a special scheme is read with a path of segments. Each segment that is pushed is written behind
those before it, encoded so that it stays one; only one or two dots, which would not be read as a segment,
are left out. -/

set_option autoImplicit false

namespace WorkflowLint.Url

section Reading

variable {scheme : String} {url : Url}

theorem readAuthority_path {text : List Char} (read : readAuthority scheme text = some url) :
    url.scheme = scheme ∧ ∃ rest, url.path = readPath scheme rest := by
  unfold readAuthority at read
  dsimp only at read
  repeat' split at read
  all_goals try contradiction
  all_goals
    simp only [Option.bind_eq_bind, Option.bind_eq_some_iff, Option.pure_def, Option.some.injEq] at read
    obtain ⟨host, _, port, _, rfl⟩ := read
    exact ⟨rfl, _, rfl⟩

theorem readFile_path {text : List Char} (read : readFile text = some url) :
    url.scheme = "file" ∧ ∃ rest, url.path = readPath "file" rest := by
  unfold readFile at read
  dsimp only at read
  repeat' split at read
  all_goals
    simp only [Option.bind_eq_bind, Option.bind_eq_some_iff, Option.pure_def, Option.some.injEq] at read
    first
      | obtain rfl := read
        exact ⟨rfl, _, rfl⟩
      | obtain ⟨host, _, rfl⟩ := read
        exact ⟨rfl, _, rfl⟩

/-- The path of a URL that was read comes behind an authority, or else there is none and the scheme is not
a special one. -/
theorem parse_path {text : String} (read : parse text = some url) :
    (∃ rest, url.path = readPath url.scheme rest) ∨
      url.isSpecial = false ∧
        ((∃ rest, url.path = readSegments url.scheme [] rest) ∨ ∃ rest, url.path = .rootless rest) := by
  have behind {scheme : String} (found : url.scheme = scheme ∧ ∃ rest, url.path = readPath scheme rest) :
      ∃ rest, url.path = readPath url.scheme rest := by
    obtain ⟨rfl, rest, path⟩ := found
    exact ⟨rest, path⟩
  unfold parse Url.read at read
  dsimp only at read
  split at read
  next scheme _ _ =>
    split at read
    · exact .inl (behind (readFile_path read))
    · split at read
      · exact .inl (behind (readAuthority_path read))
      -- Only here the scheme is none that asks for an authority.
      next foreign =>
        have foreign := eq_false_of_ne_true foreign
        unfold readForeign at read
        split at read
        · exact .inl (behind (readAuthority_path read))
        · dsimp only at read
          split at read
          · cases read
            exact .inr ⟨foreign, .inl ⟨_, rfl⟩⟩
          · cases read
            exact .inr ⟨foreign, .inr ⟨_, rfl⟩⟩
  next impossible => cases impossible
  next => cases read

theorem readPath_rooted (scheme : String) (text : List Char) :
    ∃ segments, readPath scheme text = .rooted segments := by
  unfold readPath
  split
  · split <;> exact ⟨_, rfl⟩
  · split <;> exact ⟨_, rfl⟩

theorem parse_rooted {text : String} (read : parse text = some url) (special : url.isSpecial = true) :
    ∃ segments, url.path = .rooted segments := by
  obtain ⟨rest, path⟩ | ⟨other, _⟩ := parse_path read
  · rw [path]
    exact readPath_rooted url.scheme rest
  · cases special.symm.trans other

theorem isSpecial_of_web (web : url.scheme = "http" ∨ url.scheme = "https") : url.isSpecial = true := by
  obtain http | https := web
  · rw [isSpecial, http]
    decide
  · rw [isSpecial, https]
    decide

end Reading

section Pushing

/-- A segment that stands for a place in the path instead of a name. -/
def isDots (segment : String) : Bool := segment = "." || segment = ".."

/-- The segment is not read as dots unless it is written so: no breaks, which are ignored, hide them. -/
def ShowsDots (segment : String) : Prop :=
  withoutBreaks segment = ['.'] ∨ withoutBreaks segment = ['.', '.'] → isDots segment = true

instance (segment : String) : Decidable (ShowsDots segment) := inferInstanceAs (Decidable (_ → _))

def encoded (special : Bool) (segment : String) : String :=
  String.ofList (percentEncode (keptInSegment special) (withoutBreaks segment))

/-- What stays of a path when segments come behind it. A last piece that is empty does not, nor does the
single slash of a path that has nothing else. -/
def stem (segments : List String) : List String :=
  if dropTrailingEmpty segments = [""] then [] else dropTrailingEmpty segments

variable {special : Bool} {segments : List String}

theorem pushEncoded_dropTrailingEmpty (segments : List String) (segment : String) :
    pushEncoded (dropTrailingEmpty segments) segment = stem segments ++ [segment] := by
  unfold pushEncoded stem
  split <;> simp

theorem pushSegment_shown {segment : String} (shown : ShowsDots segment) :
    pushSegment special false segments segment =
      if isDots segment then segments else pushEncoded segments (encoded special segment) := by
  -- Dots are left out before anything else is looked at.
  change (if isDots segment then segments else _) = _
  by_cases dots : isDots segment = true
  · rw [if_pos dots, if_pos dots]
  · obtain ⟨notOne, notTwo⟩ := not_or.mp (mt shown dots)
    rw [if_neg dots, if_neg dots]
    simp [notOne, notTwo, encoded]

theorem foldl_pushSegment {added : List String} (shown : ∀ segment ∈ added, ShowsDots segment)
    (started : ∃ segment ∈ segments, segment ≠ "") :
    added.foldl (pushSegment special false) segments =
      segments ++ (added.filter (!isDots ·)).map (encoded special) := by
  induction added generalizing segments with
  | nil => simp
  | cons segment rest ih =>
    obtain ⟨first, others⟩ := List.forall_mem_cons.mp shown
    -- With a segment that is not empty, the path is not a single slash, whose empty segment would be replaced.
    have several : segments ≠ [""] := by
      rintro rfl
      simp at started
    rw [List.foldl_cons, pushSegment_shown first]
    cases dots : isDots segment with
    | true => simp [dots, ih others started]
    | false =>
      have started : ∃ each ∈ segments ++ [encoded special segment], each ≠ "" := by
        obtain ⟨each, member, filled⟩ := started
        exact ⟨each, List.mem_append_left _ member, filled⟩
      simp [dots, pushEncoded, several, ih others started]

/-- The path of a URL, which is not one of a file, keeps its stem, and what is added to it comes behind
that, piece by piece. -/
theorem extendPath_shown {url : Url} (rooted : url.path = .rooted segments) (noFile : url.scheme ≠ "file")
    {first : String} {added : List String} (named : isDots first = false)
    (filled : encoded url.isSpecial first ≠ "") (shown : ∀ segment ∈ first :: added, ShowsDots segment) :
    url.extendPath (first :: added) =
      some { url with
        path := .rooted (stem segments ++
          ((first :: added).filter (!isDots ·)).map (encoded url.isSpecial)) } := by
  obtain ⟨firstShown, others⟩ := List.forall_mem_cons.mp shown
  have started : ∃ each ∈ stem segments ++ [encoded url.isSpecial first], each ≠ "" :=
    ⟨_, List.mem_append_right _ List.mem_cons_self, filled⟩
  have noFile : (url.scheme == "file") = false := beq_eq_false_iff_ne.mpr noFile
  have pushed : (first :: added).foldl (pushSegment url.isSpecial false) (dropTrailingEmpty segments) =
      stem segments ++ ((first :: added).filter (!isDots ·)).map (encoded url.isSpecial) := by
    rw [List.foldl_cons, pushSegment_shown firstShown, named, if_neg Bool.false_ne_true,
      pushEncoded_dropTrailingEmpty, foldl_pushSegment others started]
    simp [named]
  simp only [extendPath, rooted, noFile, pushed]

end Pushing

end WorkflowLint.Url

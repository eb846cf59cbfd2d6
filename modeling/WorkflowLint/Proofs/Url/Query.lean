import WorkflowLint.Proofs.Url.Segments

/-! Where the query of a URL starts in its text.

No question mark stands in a path, neither in one that was read nor in what is pushed to it. So the first
one in a text that goes beyond the host opens the query, and two URLs that differ in their queries alone
have different texts whatever their paths are. -/

set_option autoImplicit false

namespace WorkflowLint.Url

section Encoding

def IsSign (sign : Char) : Prop := sign ≠ '%' ∧ ∀ n < 16, hexDigit n ≠ sign

instance (sign : Char) : Decidable (IsSign sign) := inferInstanceAs (Decidable (_ ∧ _))

theorem notMem_percentChar {sign : Char} (isSign : IsSign sign) (c : Char) : sign ∉ percentChar c := by
  intro member
  obtain ⟨byte, _, inside⟩ := List.mem_flatMap.mp member
  have bound := byte.toNat_lt
  have high := isSign.2 (byte.toNat / 16) (by omega)
  have low := isSign.2 (byte.toNat % 16) (by omega)
  simp only [percentByte, List.mem_cons, List.not_mem_nil, or_false] at inside
  rcases inside with percent | digit | digit
  · exact isSign.1 percent
  · exact high digit.symm
  · exact low digit.symm

theorem notMem_percentEncode {keeps : Char → Bool} {sign : Char} (isSign : IsSign sign)
    (escaped : keeps sign = false) (text : List Char) : sign ∉ percentEncode keeps text := by
  intro member
  obtain ⟨c, _, inside⟩ := List.mem_flatMap.mp member
  split at inside
  next kept =>
    obtain rfl := List.mem_singleton.mp inside
    rw [escaped] at kept
    cases kept
  next => exact notMem_percentChar isSign c inside

theorem question_notMem_percentEncode {keeps : Char → Bool} (escaped : keeps '?' = false)
    (text : List Char) : '?' ∉ percentEncode keeps text :=
  notMem_percentEncode (by decide) escaped text

end Encoding

def Unmarked (segments : List String) : Prop := ∀ segment ∈ segments, '?' ∉ segment.toList

section Segments

variable {segments : List String}

@[simp] theorem unmarked_nil : Unmarked [] := nofun

@[simp] theorem unmarked_cons {segment : String} :
    Unmarked (segment :: segments) ↔ '?' ∉ segment.toList ∧ Unmarked segments := by
  simp [Unmarked]

@[simp] theorem unmarked_append {others : List String} :
    Unmarked (segments ++ others) ↔ Unmarked segments ∧ Unmarked others := by
  simp [Unmarked, or_imp, forall_and]

theorem Unmarked.sublist {kept : List String} (unmarked : Unmarked segments)
    (sublist : kept.Sublist segments) : Unmarked kept :=
  fun segment member => unmarked segment (sublist.subset member)

theorem unmarked_encoded {keeps : Char → Bool} (escaped : keeps '?' = false) (text : List Char) :
    Unmarked [String.ofList (percentEncode keeps text)] := by
  intro segment member
  obtain rfl := List.mem_singleton.mp member
  rw [String.toList_ofList]
  exact question_notMem_percentEncode escaped text

end Segments

section Reading

variable {file last : Bool} {base : List String} {scheme : String}

theorem question_notMem_drive {letter : Char} {rest : List Char} (drive : isDrive (letter :: rest) = true) :
    '?' ∉ (String.ofList [letter, ':']).toList := by
  have other : letter ≠ '?' := by
    rintro rfl
    cases rest with
    | nil => cases drive
    | cons bar rest =>
      cases rest with
      | nil => simp [isDrive] at drive
      | cons => cases drive
  simpa using other.symm

theorem addSegment_unmarked (unmarked : Unmarked base) (segment : List Char) :
    Unmarked (addSegment file last base segment) := by
  unfold addSegment
  dsimp only
  split
  · have shorter : Unmarked base.dropLast := unmarked.sublist (List.dropLast_sublist _)
    repeat' split
    all_goals simp_all
  · split
    · split
      · simpa using unmarked
      · exact unmarked
    · split
      · rename_i drive
        have letter := question_notMem_drive (Bool.and_eq_true_iff.mp drive).2
        exact unmarked_append.mpr ⟨unmarked, unmarked_cons.mpr ⟨letter, unmarked_nil⟩⟩
      · exact unmarked_append.mpr ⟨unmarked, unmarked_encoded (by decide) _⟩

theorem addSegments_unmarked (unmarked : Unmarked base) (pieces : List (List Char)) :
    Unmarked (addSegments file base pieces) := by
  induction pieces generalizing base with
  | nil => exact unmarked
  | cons piece rest ih =>
    cases rest with
    | nil => exact addSegment_unmarked unmarked piece
    | cons => exact ih (addSegment_unmarked unmarked piece)

/-- A path with segments has no question mark; of any other path nothing is said. -/
def Path.Unmarked : Path → Prop
  | .rooted segments => Url.Unmarked segments
  | .rootless _ => True

theorem dropLeadingEmpty_unmarked (unmarked : Unmarked base) : Unmarked (dropLeadingEmpty base) := by
  unfold dropLeadingEmpty
  split
  · split <;> simp
  · exact unmarked.sublist (List.dropWhile_sublist _)

theorem readSegments_unmarked (unmarked : Unmarked base) (text : List Char) :
    (readSegments scheme base text).Unmarked := by
  have added : Unmarked (addSegments (scheme == "file") base
      (Text.splitBy (isSlash (isSpecialScheme scheme)) text)) :=
    addSegments_unmarked unmarked _
  unfold readSegments
  dsimp only [Path.Unmarked]
  split
  · exact dropLeadingEmpty_unmarked added
  · exact added

theorem readPath_unmarked (text : List Char) : (readPath scheme text).Unmarked := by
  unfold readPath
  split
  · split <;> simp [Path.Unmarked]
  · split <;> exact readSegments_unmarked unmarked_nil _

theorem parse_unmarked {url : Url} {text : String} (read : parse text = some url) : url.path.Unmarked := by
  obtain ⟨rest, path⟩ | ⟨_, ⟨rest, path⟩ | ⟨rest, path⟩⟩ := parse_path read
  · rw [path]
    exact readPath_unmarked rest
  · rw [path]
    exact readSegments_unmarked unmarked_nil rest
  · rw [path]
    trivial

end Reading

section Pushing

variable {special file : Bool} {segments : List String}

theorem pushEncoded_unmarked (unmarked : Unmarked segments) {segment : String}
    (plain : '?' ∉ segment.toList) : Unmarked (pushEncoded segments segment) := by
  unfold pushEncoded
  split <;> simp [plain, unmarked]

theorem pushSegment_unmarked (unmarked : Unmarked segments) (segment : String) :
    Unmarked (pushSegment special file segments segment) := by
  have escaped : keptInSegment special '?' = false := by cases special <;> decide
  unfold pushSegment
  dsimp only
  split
  · exact unmarked
  -- The path of a file loses empty segments after the push, so what is pushed comes first.
  · generalize pushedEq : (if withoutBreaks segment = ['.', '.'] then climb segments
      else if withoutBreaks segment = ['.'] then pushEncoded segments ""
      else pushEncoded segments
        (String.ofList (percentEncode (keptInSegment special) (withoutBreaks segment)))) = pushed
    have pushedUnmarked : Unmarked pushed := by
      rw [← pushedEq]
      split
      · simpa [climb] using unmarked.sublist (List.dropLast_sublist _)
      · split
        · exact pushEncoded_unmarked unmarked (by simp)
        · refine pushEncoded_unmarked unmarked ?_
          rw [String.toList_ofList]
          exact question_notMem_percentEncode escaped _
    split
    · split
      · simp
      · exact pushedUnmarked.sublist (List.dropWhile_sublist _)
    · exact pushedUnmarked

theorem foldl_pushSegment_unmarked (unmarked : Unmarked segments) (added : List String) :
    Unmarked (added.foldl (pushSegment special file) segments) := by
  induction added generalizing segments with
  | nil => exact unmarked
  | cons segment rest ih => exact ih (pushSegment_unmarked unmarked segment)

/-- Only the path is extended, and it stays without question marks. -/
theorem extendPath_eq_some {url extended : Url} {added : List String} (unmarked : url.path.Unmarked)
    (extends_ : url.extendPath added = some extended) :
    ∃ segments, Unmarked segments ∧ extended = { url with path := .rooted segments } := by
  unfold extendPath at extends_
  split at extends_
  · cases extends_
  next base rooted =>
    cases extends_
    rw [rooted] at unmarked
    refine ⟨_, foldl_pushSegment_unmarked ?_ added, rfl⟩
    unfold dropTrailingEmpty
    split
    · exact unmarked_nil
    · exact unmarked
    · split
      · exact Unmarked.sublist unmarked (List.dropLast_sublist _)
      · exact unmarked

end Pushing

section Text

def authorityText (url : Url) : String :=
  url.scheme ++ ":" ++
    match url.host with
    | some host => "//" ++ url.userinfoText ++ host.text ++ url.portText
    | none => ""

def guardedPath (url : Url) : String := url.pathGuard ++ url.path.text

theorem text_eq (url : Url) :
    url.text = url.authorityText ++ (url.guardedPath ++ url.queryText) ++ url.fragmentText := by
  unfold text authorityText guardedPath
  cases host : url.host with
  | none => simp [String.append_assoc]
  | some host => simp [pathGuard, host, String.append_assoc]

theorem question_notMem_guardedPath {url : Url} {segments : List String} (rooted : url.path = .rooted segments)
    (unmarked : Unmarked segments) : '?' ∉ url.guardedPath.toList := by
  have guarded : '?' ∉ url.pathGuard.toList := by
    unfold pathGuard
    split <;> simp
  simpa [guardedPath, guarded, rooted, Path.text, Unmarked] using unmarked

/-- Behind a text without question marks, only one query fits. -/
theorem queryText_cancel {before before' : String} {first second : Url} (plain : '?' ∉ before.toList)
    (plain' : '?' ∉ before'.toList)
    (same : before ++ first.queryText = before' ++ second.queryText) : first.query = second.query := by
  -- What is left of either side from its first question mark on is the text of its query.
  have opens : ∀ url : Url, url.queryText.toList.dropWhile (· != '?') = url.queryText.toList := by
    intro url
    unfold queryText
    split <;> simp
  have dropped : ∀ {before : String} (url : Url), '?' ∉ before.toList →
      (before ++ url.queryText).toList.dropWhile (· != '?') = url.queryText.toList := by
    intro before url plain
    rw [String.toList_append, List.dropWhile_append_of_pos, opens]
    intro c member
    refine bne_iff_ne.mpr ?_
    rintro rfl
    exact plain member
  have texts : first.queryText = second.queryText := by
    rw [← String.toList_inj, ← dropped first plain, ← dropped second plain', same]
  unfold queryText at texts
  cases query : first.query <;> cases query' : second.query <;> simp_all

/-- URLs that differ in their paths and queries only have different texts once their queries differ. -/
theorem text_ne_of_query_ne {url : Url} {segments segments' : List String} {query query' : Option String}
    (unmarked : Unmarked segments) (unmarked' : Unmarked segments') (different : query ≠ query') :
    ({ url with path := .rooted segments, query := query } : Url).text ≠
      ({ url with path := .rooted segments', query := query' } : Url).text := by
  intro same
  let first : Url := { url with path := .rooted segments, query := query }
  let second : Url := { url with path := .rooted segments', query := query' }
  have parts : url.authorityText ++ (first.guardedPath ++ first.queryText) ++ url.fragmentText =
      url.authorityText ++ (second.guardedPath ++ second.queryText) ++ url.fragmentText := by
    rw [text_eq, text_eq] at same
    exact same
  rw [String.append_left_inj, String.append_right_inj] at parts
  exact different (queryText_cancel (question_notMem_guardedPath rfl unmarked)
    (question_notMem_guardedPath rfl unmarked') parts)

theorem appendPair_eq (url : Url) (name value : String) :
    ∃ query, query ≠ url.query ∧ url.appendPair name value = { url with query := query } := by
  unfold appendPair
  cases given : url.query with
  | none => exact ⟨_, by simp, rfl⟩
  | some query =>
    -- The new query is longer than the old one.
    refine ⟨_, fun same => ?_, rfl⟩
    have lengths := congrArg (fun query => (query.getD "").length) same
    dsimp only [Option.getD_some] at lengths
    split at lengths
    next empty =>
      rw [String.isEmpty_iff.mp empty] at lengths
      simp at lengths
    next =>
      have ampersand : "&".length = 1 := rfl
      simp only [String.length_append] at lengths
      omega

end Text

end WorkflowLint.Url

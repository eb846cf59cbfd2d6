import WorkflowLint.Discovery
import WorkflowLint.Proofs.Glob.Literal
import WorkflowLint.Proofs.Glob.Search

/-! The pattern that a directory is searched with.

The name of the directory is a part of the pattern. A name without signs of a pattern is read as the way
to the directory, one piece after the other, and the endings follow behind it. -/

set_option autoImplicit false

namespace WorkflowLint.Discovery

open WorkflowLint.Path (Component IsName Free componentOf)
open WorkflowLint.FileSystem (Usable)
open WorkflowLint.Glob (Pattern PathPattern literal inside lead breadth)

section Words

def stem (word : String) : Path :=
  ⟨String.ofList (if word.toList.getLast? = some '/' then word.toList.dropLast else word.toList)⟩

def searchStart (word : String) : Path := if (Path.mk word).isAbsolute then ⟨"/"⟩ else ⟨"."⟩

/-- The pieces by which a search goes to a directory. -/
def way (word : String) : List String :=
  if (Path.mk word).isAbsolute then (stem word).pieces.tail else (stem word).pieces

variable {word : String} (ne : word ≠ "")

theorem toList_of_stem (word : String) :
    word.toList = (stem word).text.toList ∨ word.toList = (stem word).text.toList ++ ['/'] := by
  unfold stem
  rw [String.toList_ofList]
  split
  · next slash =>
    obtain ⟨front, cut⟩ := List.getLast?_eq_some_iff.mp slash
    rw [cut, List.dropLast_concat]
    exact .inr rfl
  · exact .inl rfl

theorem mem_of_mem_stem {c : Char} (member : c ∈ (stem word).text.toList) : c ∈ word.toList := by
  rcases toList_of_stem word with same | same
  · rwa [same]
  · rw [same]
    exact List.mem_append_left _ member

theorem size_stem_le (word : String) : (stem word).text.utf8ByteSize ≤ word.utf8ByteSize := by
  have cut : ∃ rest, word = (stem word).text ++ rest := by
    rcases toList_of_stem word with same | same
    · exact ⟨"", by rw [String.append_empty]; exact String.toList_injective same⟩
    · exact ⟨"/", String.toList_injective (by rw [same, String.toList_append]; rfl)⟩
  obtain ⟨rest, cut⟩ := cut
  have size := congrArg String.utf8ByteSize cut
  rw [String.utf8ByteSize_append] at size
  omega

theorem pieces_of_stem (word : String) :
    (Path.mk word).pieces = (stem word).pieces ∨ (Path.mk word).pieces = (stem word).pieces ++ [""] := by
  rcases toList_of_stem word with same | same
  · exact .inl (congrArg (fun text => Path.pieces ⟨text⟩) (String.toList_injective same))
  · have text : word = (stem word).text ++ "/" ++ "" := by
      rw [String.append_empty]
      exact String.toList_injective (by rw [same, String.toList_append]; rfl)
    exact .inr ((congrArg (fun text => Path.pieces ⟨text⟩) text).trans (Path.pieces_append _ _))

theorem steps_stem (word : String) : (stem word).steps = Path.steps ⟨word⟩ := by
  unfold Path.steps
  rcases pieces_of_stem word with same | same <;> rw [same]
  rw [List.filterMap_append]
  exact (List.append_nil _).symm

theorem stem_subset : ∀ piece ∈ (stem word).pieces, piece ∈ (Path.mk word).pieces := by
  intro piece member
  rcases pieces_of_stem word with same | same <;> rw [same]
  · exact member
  · exact List.mem_append_left _ member

include ne in
theorem pieces_stem_absolute (absolute : (Path.mk word).isAbsolute = true) :
    (stem word).pieces = "" :: way word := by
  have first : word.toList.head? = some '/' := by simpa [Path.isAbsolute] using absolute
  -- The root itself has an empty stem, whose one piece is the empty one as well.
  have opened : ∃ rest, (stem word).pieces = "" :: rest := by
    rcases toList_of_stem word with same | same
    · have text : (stem word).text = word := String.toList_injective same.symm
      cases pieces : (stem word).pieces with
      | nil => exact absurd pieces (Path.pieces_ne_nil _)
      | cons piece rest =>
        have rooted := (Path.isAbsolute_iff_pieces pieces (text.symm ▸ ne)).mp (by rwa [Path.isAbsolute, text])
        exact ⟨rest, by rw [rooted]⟩
    · cases chars : (stem word).text.toList with
      | nil =>
        rw [Path.pieces_eq, chars]
        exact ⟨[], rfl⟩
      | cons c rest =>
        rw [same, chars] at first
        cases first
        rw [Path.pieces_eq, chars, List.splitOn_cons_eq_if_modifyHead]
        exact ⟨_, rfl⟩
  obtain ⟨rest, pieces⟩ := opened
  rw [way, if_pos absolute, pieces]
  rfl

theorem pieces_stem_relative (relative : (Path.mk word).isAbsolute = false) : (stem word).pieces = way word := by
  rw [way, relative, if_neg (by simp)]

include ne in
theorem way_subset : ∀ piece ∈ way word, piece ∈ (stem word).pieces := by
  intro piece member
  cases absolute : (Path.mk word).isAbsolute with
  | true =>
    rw [pieces_stem_absolute ne absolute]
    exact List.mem_cons_of_mem _ member
  | false => rwa [pieces_stem_relative absolute]

include ne in
theorem way_free : Free (way word) := fun piece member => (stem word).pieces_free piece (way_subset ne piece member)

include ne in
theorem mem_of_mem_way {piece : String} (member : piece ∈ way word) : ∀ c ∈ piece.toList, c ∈ word.toList := by
  intro c inPiece
  obtain ⟨cs, cut, rfl⟩ := List.mem_map.mp (way_subset ne piece member)
  rw [String.toList_ofList] at inPiece
  exact mem_of_mem_stem (Text.mem_of_mem_splitOn cut c inPiece)

include ne in
theorem way_steps : (way word).filterMap componentOf = Path.steps ⟨word⟩ := by
  rw [← steps_stem, Path.steps]
  cases absolute : (Path.mk word).isAbsolute with
  | true =>
    rw [pieces_stem_absolute ne absolute]
    rfl
  | false => rw [pieces_stem_relative absolute]

include ne in
theorem breadth_way : (lead (searchStart word)).utf8ByteSize + breadth (way word) ≤ word.utf8ByteSize + 1 := by
  have size := Glob.breadth_pieces (stem word)
  have shorter := size_stem_le word
  rw [searchStart]
  cases absolute : (Path.mk word).isAbsolute with
  | true =>
    have slash : (lead ⟨"/"⟩).utf8ByteSize = 1 := by decide +kernel
    have empty : "".utf8ByteSize = 0 := by decide
    -- The slash that the search starts with is the one behind the empty first piece.
    rw [pieces_stem_absolute ne absolute, Glob.breadth_cons, empty] at size
    rw [if_pos rfl, slash]
    omega
  | false =>
    have nothing : (lead ⟨"."⟩).utf8ByteSize = 0 := by decide +kernel
    rw [pieces_stem_relative absolute] at size
    rw [if_neg (by simp), nothing]
    omega

theorem usable_foldl {pieces : List String} (free : Free pieces)
    (clean : ∀ piece ∈ pieces, '\x00' ∉ piece.toList)
    (short : (lead (searchStart word)).utf8ByteSize + breadth pieces ≤ FileSystem.pathLimit) :
    Usable (pieces.foldl inside (searchStart word)) := by
  have start : '\x00' ∉ (searchStart word).text.toList ∧ (searchStart word).text.utf8ByteSize = 1 := by
    unfold searchStart
    split <;> decide
  refine ⟨Glob.nul_notMem_foldl start.1 free clean, ?_⟩
  by_cases none : pieces = []
  · rw [none, List.foldl_nil, start.2]
    decide
  · have bound := Glob.text_foldl_le none free (searchStart word)
    omega

end Words

section Patterns

variable {word ending : String} (ne : word ≠ "")

include ne in
theorem patternBelow_toList (ending : String) :
    (patternBelow ⟨word⟩ ending).toList =
      (stem word).text.toList ++ '/' :: ("**/*.".toList ++ ending.toList) := by
  have stars : (Path.mk "**").isAbsolute = false := by decide
  have star : (Path.mk ("*." ++ ending)).isAbsolute = false := by simp [Path.isAbsolute]
  have entered : ((Path.mk word).child "**").text.toList = (stem word).text.toList ++ '/' :: "**".toList := by
    rw [Path.child, Path.join, stars, Bool.false_or, if_neg (by simpa using ne), stem, String.toList_ofList]
    split
    · next slash =>
      obtain ⟨front, cut⟩ := List.getLast?_eq_some_iff.mp slash
      simp [cut]
    · simp
  have open_ : ((Path.mk word).child "**").text.isEmpty = false := by
    rw [← Bool.not_eq_true, String.isEmpty_iff, ← String.toList_eq_nil_iff, entered]
    simp
  have last : ((Path.mk word).child "**").text.toList.getLast? ≠ some '/' := by
    rw [entered]
    simp
  rw [patternBelow, Path.child, Path.join, star, Bool.false_or, open_, if_neg (by simp), if_neg last]
  simp [entered]

include ne in
theorem head?_patternBelow (ending : String) :
    (patternBelow ⟨word⟩ ending).toList.head? = some '/' ↔ (Path.mk word).isAbsolute = true := by
  have same : (patternBelow ⟨word⟩ ending).toList.head? = word.toList.head? := by
    rw [patternBelow_toList ne]
    rcases toList_of_stem word with same | same <;> cases chars : (stem word).text.toList with
    | nil => simp_all
    | cons c rest => simp [same, chars]
  rw [same, Path.isAbsolute, decide_eq_true_iff]

def endingPattern (ending : String) : Pattern := .anyText :: literal ('.' :: ending.toList)

theorem ofChars_below (known : ending ∈ extensions) {front : List Char}
    (plain : ∀ c ∈ front, Glob.isLiteral c = true) :
    (Pattern.ofChars (front ++ '/' :: ("**/*.".toList ++ ending.toList))).isSome = true := by
  have slash : ∀ c ∈ front ++ ['/'], Glob.isLiteral c = true :=
    List.forall_mem_append.mpr ⟨plain, List.forall_mem_singleton.mpr (by decide)⟩
  have size : (front ++ '/' :: ("**/*.".toList ++ ending.toList)).length + 1 =
      (front ++ ['/']).length + (("**/*.".toList ++ ending.toList).length + 1) := by
    simp only [List.length_append, List.length_cons, List.length_nil]
    omega
  have behind : Glob.startsBehind true (front ++ ['/']) = true := by simp [Glob.startsBehind]
  have read := Glob.readTokens_literal slash (("**/*.".toList ++ ending.toList).length + 1) true
    ("**/*.".toList ++ ending.toList)
  have stars : ∀ ending ∈ extensions,
      (Glob.readTokens (("**/*.".toList ++ ending.toList).length + 1) true
        ("**/*.".toList ++ ending.toList)).isSome = true := by decide
  rw [behind, List.append_assoc, List.singleton_append] at read
  rw [Pattern.ofChars, size, read, Option.isSome_map]
  exact stars ending known

theorem piecesOf_below (known : ending ∈ extensions) (front : List Char) :
    PathPattern.piecesOf (front ++ '/' :: ("**/*.".toList ++ ending.toList)) =
      Text.splitOn '/' front ++ ["**".toList, '*' :: '.' :: ending.toList] := by
  have stars : ∀ ending ∈ extensions, List.splitOn '/' ("**/*.".toList ++ ending.toList) =
      ["**".toList, '*' :: '.' :: ending.toList] := by decide
  have cut : Text.splitOn '/' (front ++ '/' :: ("**/*.".toList ++ ending.toList)) =
      Text.splitOn '/' front ++ ["**".toList, '*' :: '.' :: ending.toList] := by
    rw [Text.splitOn_eq, Text.splitOn_eq, List.splitOn_append_cons_self, stars ending known]
  have last : (Text.splitOn '/' front ++ ["**".toList, '*' :: '.' :: ending.toList]).getLast? ≠ some [] := by
    simp
  rw [PathPattern.piecesOf, cut]
  exact if_neg last

include ne in
theorem piecesOf_patternBelow (known : ending ∈ extensions) :
    PathPattern.piecesOf (PathPattern.unrooted (patternBelow ⟨word⟩ ending).toList) =
      (way word).map String.toList ++ ["**".toList, '*' :: '.' :: ending.toList] := by
  have cut : PathPattern.piecesOf (patternBelow ⟨word⟩ ending).toList =
      (stem word).pieces.map String.toList ++ ["**".toList, '*' :: '.' :: ending.toList] := by
    rw [patternBelow_toList ne, piecesOf_below known, Path.pieces, List.map_map]
    simp [Function.comp_def]
  have first := head?_patternBelow ne ending
  cases absolute : (Path.mk word).isAbsolute with
  | true =>
    obtain ⟨text, chars⟩ := List.head?_eq_some_iff.mp (first.mpr absolute)
    rw [chars, PathPattern.piecesOf_slash, pieces_stem_absolute ne absolute] at cut
    rw [chars]
    exact (List.cons.inj cut).2
  | false =>
    have relative : (patternBelow ⟨word⟩ ending).toList.head? ≠ some '/' := by
      rw [Ne, first, absolute]
      exact Bool.false_ne_true
    rw [PathPattern.unrooted, if_neg relative, cut, pieces_stem_relative absolute]

include ne in
/-- A plain word is read as the way to its directory. -/
theorem ofText_patternBelow (known : ending ∈ extensions)
    (signs : ∀ c ∈ word.toList, Glob.isLiteral c = true) :
    PathPattern.ofText (patternBelow ⟨word⟩ ending) =
      some ⟨searchStart word, (way word).map (fun piece => literal piece.toList) ++
        [[.anyDirectories], endingPattern ending], false⟩ := by
  have chars := patternBelow_toList ne ending
  -- The text is read twice, as a whole and piece by piece; nothing is made of the first reading.
  obtain ⟨whole, read⟩ : ∃ whole, Pattern.ofChars (patternBelow ⟨word⟩ ending).toList = some whole := by
    rw [chars]
    exact Option.isSome_iff_exists.mp (ofChars_below known fun c member => signs c (mem_of_mem_stem member))
  have parts : (PathPattern.piecesOf (PathPattern.unrooted (patternBelow ⟨word⟩ ending).toList)).mapM
      Pattern.ofChars =
      some ((way word).map (fun piece => literal piece.toList) ++ [[.anyDirectories], endingPattern ending]) := by
    have stars : ∀ ending ∈ extensions, ["**".toList, '*' :: '.' :: ending.toList].mapM Pattern.ofChars =
        some [[.anyDirectories], endingPattern ending] := by decide
    have plain : ∀ piece ∈ (way word).map String.toList, ∀ c ∈ piece, Glob.isLiteral c = true := by
      intro piece member c inPiece
      obtain ⟨text, inWay, rfl⟩ := List.mem_map.mp member
      exact signs c (mem_of_mem_way ne inWay c inPiece)
    rw [piecesOf_patternBelow ne known, PathPattern.mapM_ofChars_literal plain (stars ending known),
      List.map_map]
    rfl
  have single : PathPattern.mergeRecursive ((way word).map (fun piece => literal piece.toList) ++
      [[.anyDirectories], endingPattern ending]) = (way word).map (fun piece => literal piece.toList) ++
        [[.anyDirectories], endingPattern ending] := by
    refine PathPattern.mergeRecursive_single (fun pattern member => ?_) ?_
    · obtain ⟨piece, _, rfl⟩ := List.mem_map.mp member
      exact Glob.Pattern.isRecursive_literal piece.toList
    · rw [endingPattern, Glob.Pattern.isRecursive, List.contains_cons]
      exact Glob.Pattern.isRecursive_literal ('.' :: ending.toList)
  have last : (patternBelow ⟨word⟩ ending).toList.getLast? ≠ some '/' := by
    have letter : ∀ ending ∈ extensions, ('/' :: ("**/*.".toList ++ ending.toList)).getLast? = some 'l' := by
      decide
    rw [chars, List.getLast?_append, letter ending known]
    exact (by decide : some 'l' ≠ some '/')
  rw [PathPattern.ofText_eq read parts (by simp), single, decide_eq_false last, searchStart]
  simp only [head?_patternBelow ne ending]

end Patterns

end WorkflowLint.Discovery

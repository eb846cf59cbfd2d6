import WorkflowLint.Proofs.Files.Places
import WorkflowLint.Proofs.Glob.Search

/-! How the paths are written that a pattern stands for.

A search starts at the root or at the working directory and adds one piece after the other. So all that it
finds starts in the same way, has no point in front, and leads upwards only if the pattern does. -/

set_option autoImplicit false

namespace WorkflowLint

namespace Glob

open WorkflowLint.Path (Component IsName Free componentOf)

/-- The path starts where a search does, and goes on by names; only the working directory itself is written
as a point. -/
structure Kept (absolute : Bool) (path : Path) : Prop where
  start : path.isAbsolute = absolute
  level : path.IsLevel
  unpointed : path.IsPointed → path.components = [.here]

section Onward

variable {absolute : Bool} {directory path : Path} {piece : String}

theorem Kept.append (kept : Kept absolute directory) {more : List Component}
    (components : path.components = directory.components ++ more) (ne : directory.text ≠ "")
    (level : Component.up ∉ more) (behind : directory.components = [.here] → more = []) : Kept absolute path := by
  have first : path.components.head? = directory.components.head? := by
    rw [components]
    cases given : directory.components with
    | nil => exact absurd (Path.components_eq_nil_iff.mp given) ne
    | cons c rest => rfl
  refine ⟨?_, ?_, fun pointed => ?_⟩
  · rw [← kept.start, Bool.eq_iff_iff, Path.isAbsolute_iff, Path.isAbsolute_iff, first]
  · rw [Path.IsLevel, components, List.mem_append]
    exact not_or.mpr ⟨kept.level, level⟩
  · have here := kept.unpointed (first.symm.trans pointed)
    rw [components, behind here, List.append_nil, here]

theorem up_notMem_steps (free : '/' ∉ piece.toList) (level : piece ≠ "..") : Component.up ∉ Path.steps ⟨piece⟩ := by
  rw [steps_of_free free]
  intro member
  exact level (Path.text_of_componentOf (Option.mem_toList.mp member)).symm

theorem kept_piece (free : '/' ∉ piece.toList) (level : piece ≠ "..") : Kept false ⟨piece⟩ := by
  refine ⟨isAbsolute_of_free free, Path.isLevel_iff.mpr (up_notMem_steps free level), fun pointed => ?_⟩
  unfold Path.IsPointed at pointed
  by_cases empty : piece = ""
  · rw [Path.components_eq_nil_iff.mpr empty] at pointed
    cases pointed
  · rw [components_of_free empty free] at pointed ⊢
    exact congrArg (fun c => [c]) (Option.some.inj pointed)

theorem Kept.inside (kept : Kept absolute directory) (free : '/' ∉ piece.toList) (level : piece ≠ "..") :
    Kept absolute (inside directory piece) := by
  have relative := isAbsolute_of_free free
  cases here : directory.isSame ⟨"."⟩ with
  | true =>
    rw [← kept.start, isAbsolute_of_here here, Glob.inside, here]
    exact kept_piece free level
  | false =>
    by_cases empty : directory.text = ""
    · have start : directory.isAbsolute = false := by simp [Path.isAbsolute, empty]
      have alone : Glob.inside directory piece = ⟨piece⟩ := by
        simp [Glob.inside, here, Path.child, Path.join, empty]
      rw [← kept.start, start, alone]
      exact kept_piece free level
    · have components : (Glob.inside directory piece).components = directory.components ++ Path.steps ⟨piece⟩ := by
        rw [inside_eq_join, here, if_neg (by simp)]
        exact Path.components_join empty relative
      refine kept.append components empty (up_notMem_steps free level) fun only => ?_
      have point : (Path.mk ".").components = [.here] := by decide
      simp [Path.isSame, only, point] at here

theorem Kept.foldl_inside (kept : Kept absolute directory) {names : List String}
    (isName : ∀ name ∈ names, IsName name) : Kept absolute (names.foldl Glob.inside directory) := by
  induction names generalizing directory with
  | nil => exact kept
  | cons name rest ih =>
    obtain ⟨first, others⟩ := List.forall_mem_cons.mp isName
    exact ih (kept.inside first.2 first.ne_up) others

theorem Kept.point (kept : Kept absolute directory) : Kept absolute (directory.child ".") := by
  by_cases empty : directory.text = ""
  · have start : directory.isAbsolute = false := by simp [Path.isAbsolute, empty]
    have alone : directory.child "." = ⟨"."⟩ := by simp [Path.child, Path.join, empty]
    rw [← kept.start, start, alone]
    exact kept_piece (by decide) (by decide)
  · have none : Path.steps ⟨"."⟩ = [] := by decide
    have components : (directory.child ".").components = directory.components ++ [] := by
      rw [Path.child, Path.components_join empty rfl, none]
    exact kept.append components empty List.not_mem_nil fun _ => rfl

end Onward

def Pattern.leadsUp (pattern : Pattern) : Bool := pattern.startsWithPoint && pattern.accepts ".."

section Literals

theorem literal_cons {token : Token} {rest : Pattern} {chars : List Char}
    (plain : (token :: rest).mapM Pattern.literalChar? = some chars) :
    ∃ c more, token = .char c ∧ rest.mapM Pattern.literalChar? = some more ∧ chars = c :: more := by
  rw [List.mapM_cons] at plain
  cases token with
  | char c =>
    cases others : rest.mapM Pattern.literalChar? with
    | none => simp [Pattern.literalChar?, others] at plain
    | some more => exact ⟨c, more, rfl, rfl, by simpa [Pattern.literalChar?, others] using plain.symm⟩
  | _ => simp [Pattern.literalChar?] at plain

theorem eq_literal {pattern : Pattern} {chars : List Char}
    (plain : pattern.mapM Pattern.literalChar? = some chars) : pattern = literal chars := by
  induction pattern generalizing chars with
  | nil =>
    cases plain
    rfl
  | cons token rest ih =>
    obtain ⟨c, more, rfl, others, rfl⟩ := literal_cons plain
    rw [ih others]
    rfl

theorem ne_up_of_literal? {pattern : Pattern} {text : String} (found : pattern.literal? = some text)
    (level : pattern.leadsUp = false) : text ≠ ".." := by
  obtain ⟨chars, plain, rfl⟩ := Option.map_eq_some_iff.mp found
  intro up
  have upward : chars = ['.', '.'] := String.ofList_injective up
  rw [eq_literal plain, upward] at level
  exact absurd level (by decide)

theorem literalChar?_readBracket {text rest : List Char} {token : Token}
    (read : readBracket text = some (token, rest)) : Pattern.literalChar? token = none := by
  unfold readBracket at read
  split at read
  · obtain ⟨_, _, same⟩ := Option.map_eq_some_iff.mp read
    cases same
    rfl
  · split at read
    · cases read
    · obtain ⟨_, _, same⟩ := Option.map_eq_some_iff.mp read
      cases same
      rfl
  · cases read

/-- What is read as a text is this text. -/
theorem chars_of_readTokens {fuel : Nat} {atStart : Bool} {text chars : List Char} {pattern : Pattern}
    (read : readTokens fuel atStart text = some pattern) (enough : text.length < fuel)
    (plain : pattern.mapM Pattern.literalChar? = some chars) : chars = text := by
  induction fuel generalizing atStart text pattern chars with
  | zero => exact absurd enough (Nat.not_lt_zero _)
  | succ fuel ih =>
    -- No sign is read as a character, so where the pattern is a text no sign was read.
    have sign : ∀ {token : Token} {others : Option Pattern}, Pattern.literalChar? token = none →
        others.map (token :: ·) ≠ some pattern := by
      intro token others none read
      obtain ⟨rest, -, rfl⟩ := Option.map_eq_some_iff.mp read
      obtain ⟨c, _, rfl, _⟩ := literal_cons plain
      cases none
    cases text with
    | nil =>
      cases read
      cases plain
      rfl
    | cons c rest =>
      rw [readTokens.eq_def] at read
      dsimp only at read
      split at read
      · exact absurd read (sign rfl)
      · split at read
        · exact absurd read (sign rfl)
        · split at read
          · cases read
          · split at read
            · cases read
              obtain ⟨c, _, other, _⟩ := literal_cons plain
              cases other
            · exact absurd read (sign rfl)
            · cases read
        · cases read
      · split at read
        · next token rest found => exact absurd read (sign (literalChar?_readBracket found))
        · cases read
      · obtain ⟨others, inner, rfl⟩ := Option.map_eq_some_iff.mp read
        obtain ⟨_, more, same, others_plain, rfl⟩ := literal_cons plain
        cases same
        rw [ih inner (Nat.lt_of_succ_lt_succ enough) others_plain]

theorem toList_of_literal? {piece : List Char} {pattern : Pattern} {text : String}
    (read : Pattern.ofChars piece = some pattern) (found : pattern.literal? = some text) : text.toList = piece := by
  obtain ⟨chars, plain, rfl⟩ := Option.map_eq_some_iff.mp found
  rw [String.toList_ofList]
  exact chars_of_readTokens read (Nat.lt_succ_self _) plain

end Literals

structure Fits (pattern : Pattern) : Prop where
  level : pattern.leadsUp = false
  free : ∀ text, pattern.literal? = some text → '/' ∉ text.toList

section Finding

variable {files : FileSystem} {absolute wantsDirectory : Bool} {directory path : Path} {patterns : List Pattern}

theorem kept_special (kept : Kept absolute directory) {pattern : Pattern} (level : pattern.leadsUp = false)
    (member : path ∈ specialEntries pattern directory) : Kept absolute path := by
  unfold specialEntries at member
  split at member
  · next pointed =>
    obtain ⟨name, inNames, rfl⟩ := List.mem_map.mp member
    obtain ⟨known, accepted⟩ := List.mem_filter.mp (List.mem_reverse.mp inNames)
    rw [Pattern.leadsUp, pointed, Bool.true_and] at level
    rcases List.mem_cons.mp known with rfl | up
    · exact kept.point
    · rw [List.mem_singleton.mp up, level] at accepted
      cases accepted
  · cases member

theorem kept_below (proper : files.Proper) (kept : Kept absolute directory)
    (member : path ∈ below files directory) : Kept absolute path := by
  cases found : files.find directory with
  | error e =>
    rw [below, found] at member
    cases member
  | ok tree =>
    have inner := proper.find found
    obtain ⟨names, _, inTree, rfl⟩ := (mem_below found inner).mp member
    exact kept.foldl_inside fun name inNames => (inner.descendants inTree name inNames).isName

theorem isName_of_mem_namesIn (proper : files.Proper) {name : String} (member : name ∈ namesIn files directory) :
    IsName name := by
  unfold namesIn at member
  split at member
  · next tree found =>
    obtain ⟨⟨_, inner⟩, entry, rfl⟩ := List.mem_map.mp (List.mem_mergeSort.mp member)
    exact ((proper.find found).entry entry).1.isName
  · cases member

/-- From a path that is kept, a search for what does not lead upwards finds such paths only. -/
theorem Kept.find (proper : files.Proper) (kept : Kept absolute directory)
    (fits : ∀ pattern ∈ patterns, Fits pattern)
    (member : path ∈ Glob.find files wantsDirectory patterns directory) : Kept absolute path := by
  -- A recursive pattern uses up the one behind it as well, so the induction is on the number of patterns.
  induction size : patterns.length using Nat.strong_induction_on generalizing patterns directory with
  | _ n ih =>
    cases patterns with
    | nil =>
      rw [Glob.find] at member
      split at member
      · cases member
      · rwa [List.mem_singleton.mp member]
    | cons pattern rest =>
      obtain ⟨own, others⟩ := List.forall_mem_cons.mp fits
      have onward : ∀ {inner : Path}, Kept absolute inner →
          path ∈ Glob.find files wantsDirectory rest inner → Kept absolute path := fun inner_kept inInner =>
        ih rest.length (by simp [← size]) inner_kept others inInner rfl
      rw [Glob.find.eq_def] at member
      dsimp only at member
      split at member
      · next text found =>
        split at member
        · exact onward (kept.inside (own.free text found) (ne_up_of_literal? found own.level)) member
        · cases member
      · split at member
        · cases member
        · split at member
          · split at member
            · exact kept_below proper kept (List.mem_of_mem_filter member)
            · next next behind =>
              obtain ⟨inner, inBelow, inInner⟩ := List.mem_flatMap.mp member
              split at inInner
              · exact ih behind.length (by simp only [← size, List.length_cons]; omega) (kept_below proper kept inBelow)
                  (List.forall_mem_cons.mp others).2 inInner rfl
              · cases inInner
          · rcases List.mem_append.mp member with special | named
            · obtain ⟨inner, inSpecial, inInner⟩ := List.mem_flatMap.mp special
              exact onward (kept_special kept own.level inSpecial) inInner
            · obtain ⟨name, inNames, inInner⟩ := List.mem_flatMap.mp named
              have isName := isName_of_mem_namesIn proper inNames
              split at inInner
              · exact onward (kept.inside isName.2 isName.ne_up) inInner
              · cases inInner

end Finding

section Searching

variable {text : String} {pattern : PathPattern}

theorem mem_of_mem_mergeRecursive {patterns : List Pattern} {p : Pattern}
    (member : p ∈ PathPattern.mergeRecursive patterns) : p ∈ patterns := by
  fun_induction PathPattern.mergeRecursive patterns with
  | case1 a b rest both ih => exact List.mem_cons_of_mem a (ih member)
  | case2 a b rest other ih =>
    rcases List.mem_cons.mp member with rfl | later
    · exact List.mem_cons_self
    · exact List.mem_cons_of_mem a (ih later)
  | case3 patterns => exact member

theorem mem_pieces_of_unrooted {piece : List Char}
    (member : piece ∈ PathPattern.piecesOf (PathPattern.unrooted text.toList)) :
    String.ofList piece ∈ (Path.mk text).pieces := by
  have kept : ∀ {chars : List Char}, piece ∈ PathPattern.piecesOf chars → piece ∈ Text.splitOn '/' chars := by
    intro chars inPieces
    unfold PathPattern.piecesOf at inPieces
    dsimp only at inPieces
    split at inPieces
    · exact List.mem_of_mem_dropLast inPieces
    · exact inPieces
  refine List.mem_map.mpr ⟨piece, ?_, rfl⟩
  change piece ∈ Text.splitOn '/' text.toList
  unfold PathPattern.unrooted at member
  split at member
  · next slash =>
    obtain ⟨rest, chars⟩ := List.head?_eq_some_iff.mp slash
    rw [chars] at member ⊢
    rw [Text.splitOn_eq, List.splitOn_cons_eq_if_modifyHead]
    exact List.mem_cons_of_mem _ (Text.splitOn_eq '/' rest ▸ kept member)
  · exact kept member

/-- The components of a pattern are the pieces of its text; the root alone has an empty one. -/
theorem ofText_some (read : PathPattern.ofText text = some pattern) :
    pattern.start = (if (Path.mk text).isAbsolute then ⟨"/"⟩ else ⟨"."⟩) ∧
      ∀ p ∈ pattern.components, p = [] ∨
        ∃ piece ∈ (Path.mk text).pieces, Pattern.ofChars piece.toList = some p := by
  obtain ⟨_, -, rest⟩ := Option.bind_eq_some_iff.mp read
  obtain ⟨components, parts, same⟩ := Option.bind_eq_some_iff.mp rest
  cases same
  refine ⟨by simp [Path.isAbsolute], fun p member => ?_⟩
  have either : ∀ {alone : Bool}, p ∈ (if alone = true then [[]] else components) → p = [] ∨ p ∈ components := by
    intro alone inEither
    cases alone with
    | true => exact .inl (List.mem_singleton.mp inEither)
    | false => exact .inr inEither
  rcases either (mem_of_mem_mergeRecursive member) with empty | inside
  · exact .inl empty
  · obtain ⟨piece, inPieces, found⟩ := (Text.mem_of_mapM parts).2 p inside
    exact .inr ⟨String.ofList piece, mem_pieces_of_unrooted inPieces, by rwa [String.toList_ofList]⟩

end Searching

def leadsUp (piece : String) : Bool := (Pattern.ofChars piece.toList).any Pattern.leadsUp

/-- What is found by a word without a piece that can lead upwards is written as a search writes it. -/
theorem kept_search {files : FileSystem} (proper : files.Proper) {text : String} {path : Path}
    (level : ∀ piece ∈ (Path.mk text).pieces, leadsUp piece = false) (member : path ∈ search files text) :
    Kept (Path.mk text).isAbsolute path := by
  cases read : PathPattern.ofText text with
  | none =>
    rw [search, read] at member
    cases member
  | some pattern =>
    obtain ⟨start, parts⟩ := ofText_some read
    have fits : ∀ p ∈ pattern.components, Fits p := by
      intro p inPattern
      rcases parts p inPattern with rfl | ⟨piece, inPieces, found⟩
      · exact ⟨by decide, fun text only => by cases only; decide⟩
      · refine ⟨by simpa [leadsUp, found] using level piece inPieces, fun text only => ?_⟩
        rw [toList_of_literal? found only]
        exact Path.pieces_free _ piece inPieces
    have kept : Kept (Path.mk text).isAbsolute pattern.start := by
      rw [start]
      cases (Path.mk text).isAbsolute with
      | true => exact ⟨by decide, by decide, by decide⟩
      | false => exact ⟨by decide, by decide, by decide⟩
    rw [search, read] at member
    dsimp only at member
    split at member
    · cases member
    · exact kept.find proper fits member

end Glob

end WorkflowLint

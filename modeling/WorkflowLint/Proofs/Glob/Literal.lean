import Mathlib.Data.List.Infix
import WorkflowLint.Glob.Search
import WorkflowLint.Proofs.Path.Components

/-! Patterns of plain characters.

A character that is no sign of a pattern stands for itself. So a text of such characters is read as the
pattern for just this text, and behind a star as the pattern for the texts that end with it. -/

set_option autoImplicit false

namespace WorkflowLint.Glob

def isLiteral (c : Char) : Bool := c != '?' && c != '*' && c != '['

def literal (text : List Char) : Pattern := text.map .char

section Reading

theorem readTokens_cons {c : Char} (plain : isLiteral c = true) (fuel : Nat) (atStart : Bool) (rest : List Char) :
    readTokens (fuel + 1) atStart (c :: rest) = (readTokens fuel (c = '/') rest).map (.char c :: ·) := by
  have others : c ≠ '?' ∧ c ≠ '*' ∧ c ≠ '[' := by simpa [isLiteral, and_assoc] using plain
  obtain ⟨question, star, bracket⟩ := others
  rw [readTokens]
  · exact question
  · exact star
  · exact bracket

def startsBehind (atStart : Bool) (text : List Char) : Bool := text.getLast?.elim atStart fun c => c = '/'

theorem readTokens_literal {text : List Char} (plain : ∀ c ∈ text, isLiteral c = true) (fuel : Nat)
    (atStart : Bool) (rest : List Char) :
    readTokens (text.length + fuel) atStart (text ++ rest) =
      (readTokens fuel (startsBehind atStart text) rest).map (literal text ++ ·) := by
  induction text generalizing atStart with
  | nil => simp [literal, startsBehind]
  | cons c others ih =>
    obtain ⟨first, others_plain⟩ := List.forall_mem_cons.mp plain
    have behind : startsBehind (c = '/') others = startsBehind atStart (c :: others) := by
      cases others <;> simp [startsBehind, List.getLast?_cons]
    have size : (c :: others).length + fuel = others.length + fuel + 1 := by
      rw [List.length_cons]
      omega
    rw [List.cons_append, size, readTokens_cons first, ih others_plain, behind, Option.map_map]
    rfl

theorem ofChars_literal {text : List Char} (plain : ∀ c ∈ text, isLiteral c = true) :
    Pattern.ofChars text = some (literal text) := by
  have read := readTokens_literal plain 1 true []
  rw [List.append_nil] at read
  rw [Pattern.ofChars, read]
  simp [readTokens]

end Reading

namespace Pattern

theorem mapM_literal (text : List Char) : (literal text).mapM literalChar? = some text := by
  induction text with
  | nil => rfl
  | cons c rest ih =>
    have tail : (List.map Token.char rest).mapM literalChar? = some rest := ih
    simp [literal, List.mapM_cons, literalChar?, tail]

theorem literal?_literal (text : List Char) : (literal text).literal? = some (String.ofList text) := by
  rw [literal?, mapM_literal]
  rfl

theorem isRecursive_literal (text : List Char) : (literal text).isRecursive = false := by
  simp [isRecursive, literal]

theorem anySuffix_iff {accept : List Char → Bool} {text : List Char} :
    anySuffix accept text = true ↔ ∃ suffix, suffix <:+ text ∧ accept suffix = true := by
  induction text with
  | nil => simp [anySuffix]
  | cons c rest ih => simp [anySuffix, ih, List.suffix_cons_iff, or_and_right, exists_or]

theorem matchesChars_literal {text name : List Char} : matchesChars (literal text) name = true ↔ name = text := by
  induction text generalizing name with
  | nil => simp [literal, matchesChars]
  | cons c rest ih =>
    have tail : ∀ name, matchesChars (List.map Token.char rest) name = true ↔ name = rest := fun _ => ih
    cases name with
    | nil => simp [literal, matchesChars, isStar]
    | cons d name => simp [literal, matchesChars, isStar, tokenMatches, tail]

/-- A star with a text behind it stands for the names that end with the text. -/
theorem accepts_ending {text : List Char} {name : String} :
    accepts (.anyText :: literal text) name = true ↔ text <:+ name.toList := by
  have star : accepts (.anyText :: literal text) name = anySuffix (matchesChars (literal text)) name.toList := by
    unfold accepts matchesChars
    rfl
  simp [star, anySuffix_iff, matchesChars_literal]

end Pattern

namespace PathPattern

def unrooted (text : List Char) : List Char := if text.head? = some '/' then text.tail else text

theorem piecesOf_slash (text : List Char) : piecesOf ('/' :: text) = [] :: piecesOf text := by
  have cut : Text.splitOn '/' ('/' :: text) = [] :: Text.splitOn '/' text := by
    rw [Text.splitOn_eq, Text.splitOn_eq, List.splitOn_cons_eq_if_modifyHead]
    rfl
  unfold piecesOf
  rw [cut]
  cases pieces : Text.splitOn '/' text with
  | nil => exact absurd pieces (Text.splitBy_ne_nil _ text)
  | cons first rest =>
    simp only [List.getLast?_cons_cons, List.dropLast_cons_cons]
    split <;> rfl

/-- A text that is a pattern as a whole is read piece by piece. -/
theorem ofText_eq {text : String} {whole : Pattern} {patterns : List Pattern}
    (read : Pattern.ofChars text.toList = some whole)
    (parts : (piecesOf (unrooted text.toList)).mapM Pattern.ofChars = some patterns) (ne : patterns ≠ []) :
    ofText text = some ⟨if text.toList.head? = some '/' then ⟨"/"⟩ else ⟨"."⟩, mergeRecursive patterns,
      text.toList.getLast? = some '/'⟩ := by
  have open_ : (unrooted text.toList).isEmpty = false := by
    cases given : unrooted text.toList with
    | nil =>
      have none : (piecesOf []).mapM Pattern.ofChars = some [] := by decide
      rw [given, none] at parts
      exact absurd (Option.some.inj parts).symm ne
    | cons c rest => rfl
  change ((Pattern.ofChars text.toList).bind fun _ =>
    ((piecesOf (unrooted text.toList)).mapM Pattern.ofChars).bind fun components =>
      some (PathPattern.mk _ (mergeRecursive
        (if (_ && (unrooted text.toList).isEmpty) = true then [[]] else components)) _)) = _
  rw [read, parts, open_, Bool.and_false]
  rfl

theorem mapM_ofChars_literal {pieces rest : List (List Char)} {patterns : List Pattern}
    (plain : ∀ piece ∈ pieces, ∀ c ∈ piece, isLiteral c = true)
    (read : rest.mapM Pattern.ofChars = some patterns) :
    (pieces ++ rest).mapM Pattern.ofChars = some (pieces.map literal ++ patterns) := by
  induction pieces with
  | nil => exact read
  | cons piece others ih =>
    obtain ⟨first, others_plain⟩ := List.forall_mem_cons.mp plain
    simp [List.mapM_cons, ofChars_literal first, ih others_plain]

theorem mergeRecursive_single {front : List Pattern} {recursive last : Pattern}
    (plain : ∀ pattern ∈ front, pattern.isRecursive = false) (last_plain : last.isRecursive = false) :
    mergeRecursive (front ++ [recursive, last]) = front ++ [recursive, last] := by
  induction front with
  | nil => simp [mergeRecursive, last_plain]
  | cons pattern rest ih =>
    obtain ⟨first, others⟩ := List.forall_mem_cons.mp plain
    have merged := ih others
    cases rest with
    | nil =>
      rw [List.nil_append] at merged
      rw [List.cons_append, List.nil_append, mergeRecursive, first, Bool.false_and, if_neg Bool.false_ne_true,
        merged]
    | cons second rest =>
      rw [List.cons_append] at merged
      rw [List.cons_append, List.cons_append, mergeRecursive, first, Bool.false_and,
        if_neg Bool.false_ne_true, merged]

end PathPattern

end WorkflowLint.Glob

import WorkflowLint.Proofs.Action.Parts
import WorkflowLint.Proofs.Path.Components
import WorkflowLint.Proofs.Url.Query

/-! What an encoded text stands for.

Percent-decoding gives back the bytes of whatever was encoded, as long as no percent sign was let stand. Nor
does what is encoded hold a sign that would end its segment or its component, so the pieces of a path and
the pairs of a query are read back one by one. -/

set_option autoImplicit false

namespace WorkflowLint.Url

def utf8 (text : String) : List UInt8 := text.toByteArray.data.toList

theorem utf8_eq (text : String) : utf8 text = text.toList.flatMap String.utf8EncodeChar := by
  have bytes : text.toByteArray = text.toList.utf8Encode := by
    rw [← String.toByteArray_ofList, String.ofList_toList]
  rw [utf8, bytes, List.utf8Encode, List.data_toByteArray]

theorem utf8_injective : Function.Injective utf8 := by
  intro text other same
  exact String.toByteArray_inj.mp (ByteArray.ext (Array.toList_inj.mp same))

section Percent

variable {keeps : Char → Bool}

theorem hexValue_hexDigit {n : Nat} (digit : n < 16) : hexValue (hexDigit n) = some n := by
  have each : ∀ n < 16, hexValue (hexDigit n) = some n := by decide
  exact each n digit

theorem percentDecode_percentByte (byte : UInt8) (rest : List Char) :
    percentDecode (percentByte byte ++ rest) = byte :: percentDecode rest := by
  have bound := byte.toNat_lt
  have high := hexValue_hexDigit (show byte.toNat / 16 < 16 by omega)
  have low := hexValue_hexDigit (show byte.toNat % 16 < 16 by omega)
  have whole : 16 * (byte.toNat / 16) + byte.toNat % 16 = byte.toNat := Nat.div_add_mod _ _
  simp only [percentByte, List.cons_append, List.nil_append, percentDecode, high, low, whole]
  simp

theorem percentDecode_percentChar (c : Char) (rest : List Char) :
    percentDecode (percentChar c ++ rest) = String.utf8EncodeChar c ++ percentDecode rest := by
  unfold percentChar
  induction String.utf8EncodeChar c with
  | nil => rfl
  | cons byte bytes ih => rw [List.flatMap_cons, List.append_assoc, percentDecode_percentByte, ih, List.cons_append]

theorem percentDecode_cons {c : Char} (other : c ≠ '%') (rest : List Char) :
    percentDecode (c :: rest) = String.utf8EncodeChar c ++ percentDecode rest := by
  rw [percentDecode]
  rintro a b more rfl
  exact absurd rfl other

/-- Where percent signs are encoded, decoding gives the bytes of the text. -/
theorem percentDecode_percentEncode (escaped : keeps '%' = false) (text : List Char) :
    percentDecode (percentEncode keeps text) = text.flatMap String.utf8EncodeChar := by
  induction text with
  | nil => rfl
  | cons c rest ih =>
    have behind : percentEncode keeps (c :: rest) =
        (if keeps c then [c] else percentChar c) ++ percentEncode keeps rest := List.flatMap_cons
    rw [behind, List.flatMap_cons, ← ih]
    split
    · next kept =>
      refine percentDecode_cons ?_ _
      rintro rfl
      rw [escaped] at kept
      cases kept
    · exact percentDecode_percentChar c _

end Percent

section Form

def spaced (c : Char) : Char := if c = '+' then ' ' else c

def formDecode (text : List Char) : List UInt8 := percentDecode (text.map spaced)

/-- The name and the value of a pair; without a sign between them, there is no value. -/
def formPair (pair : List Char) : List UInt8 × List UInt8 :=
  match Text.cutFirst '=' pair with
  | some (name, value) => (formDecode name, formDecode value)
  | none => (formDecode pair, [])

/-- The pairs of a form. Where nothing stands between two signs, there is none. -/
def formPairs (form : List Char) : List (List UInt8 × List UInt8) :=
  ((Text.splitOn '&' form).filter (!·.isEmpty)).map formPair

def queryPairs (url : Url) : List (List UInt8 × List UInt8) :=
  match url.query with
  | some query => formPairs query.toList
  | none => []

def keptInForm (c : Char) : Bool := c.isAlphanum || ['*', '-', '.', '_'].contains c

theorem spaced_of_ne {c : Char} (other : c ≠ '+') : spaced c = c := if_neg other

theorem map_spaced_percentChar (c : Char) : (percentChar c).map spaced = percentChar c := by
  refine (List.map_congr_left fun d member => ?_).trans (List.map_id _)
  refine spaced_of_ne ?_
  rintro rfl
  exact notMem_percentChar (by decide) c member

/-- With spaces for the plus signs, a component of a form is percent-encoded, but for its spaces. -/
theorem map_spaced_formEncode (text : List Char) :
    (formEncode text).map spaced = percentEncode (fun c => keptInForm c || c == ' ') text := by
  unfold formEncode percentEncode
  rw [List.map_flatMap]
  refine List.flatMap_congr fun c _ => ?_
  -- Three kinds of characters: those that stay, the space, and those that are escaped.
  by_cases kept : keptInForm c = true
  · have other : c ≠ '+' := by
      rintro rfl
      exact absurd kept (by decide)
    have stands : (c.isAlphanum || ['*', '-', '.', '_'].contains c) = true := kept
    rw [if_pos stands, if_pos (by simp [kept]), List.map_singleton, spaced_of_ne other]
  · have escaped : ¬(c.isAlphanum || ['*', '-', '.', '_'].contains c) = true := kept
    by_cases space : c = ' '
    · rw [if_neg escaped, space]
      rfl
    · rw [if_neg escaped, if_neg (by simpa using space), if_neg (by simp [kept, space]), map_spaced_percentChar]

theorem formDecode_formEncode (text : String) : formDecode (formEncode text.toList) = utf8 text := by
  rw [formDecode, map_spaced_formEncode, percentDecode_percentEncode (by decide), utf8_eq]

theorem notMem_formEncode {sign : Char} (isSign : IsSign sign) (escaped : keptInForm sign = false)
    (notPlus : sign ≠ '+') (text : List Char) : sign ∉ formEncode text := by
  intro member
  obtain ⟨c, _, inside⟩ := List.mem_flatMap.mp member
  split at inside
  · next kept =>
    obtain rfl := List.mem_singleton.mp inside
    rw [keptInForm, kept] at escaped
    cases escaped
  · split at inside
    · exact notPlus (List.mem_singleton.mp inside)
    · exact notMem_percentChar isSign c inside

theorem formPairs_ampersand (front rest : List Char) :
    formPairs (front ++ '&' :: rest) = formPairs front ++ formPairs rest := by
  simp only [formPairs, Text.splitOn_eq, List.splitOn_append_cons_self, List.filter_append, List.map_append]

theorem formPairs_pair (name value : String) :
    formPairs (formEncode name.toList ++ '=' :: formEncode value.toList) = [(utf8 name, utf8 value)] := by
  have ampersand : ∀ text, '&' ∉ formEncode text := notMem_formEncode (by decide) (by decide) (by decide)
  have equals : ∀ text, '=' ∉ formEncode text := notMem_formEncode (by decide) (by decide) (by decide)
  have free : '&' ∉ formEncode name.toList ++ '=' :: formEncode value.toList := by simp [ampersand]
  have cut := Text.cutFirst_append (equals name.toList) (formEncode value.toList)
  rw [formPairs, Text.splitOn_eq, List.splitOn_eq_singleton free, List.filter_cons_of_pos (by simp)]
  simp only [List.filter_nil, List.map_cons, List.map_nil, formPair, cut, formDecode_formEncode]

/-- A pair that is appended is read back behind all others. -/
theorem queryPairs_appendPair (url : Url) (name value : String) :
    (url.appendPair name value).queryPairs = url.queryPairs ++ [(utf8 name, utf8 value)] := by
  have pair := formPairs_pair name value
  unfold appendPair queryPairs
  cases url.query with
  | none => simpa using pair
  | some query =>
    by_cases empty : query = ""
    · have none : formPairs [] = [] := by decide
      simpa [empty, none] using pair
    · simp [empty, formPairs_ampersand, pair]

theorem appendPair_eq_some (url : Url) (name value : String) :
    ∃ query, url.appendPair name value = { url with query := some query } ∧
      formPairs query.toList = url.queryPairs ++ [(utf8 name, utf8 value)] := by
  have pairs := queryPairs_appendPair url name value
  unfold appendPair at pairs ⊢
  cases given : url.query with
  | none =>
    rw [given] at pairs
    exact ⟨_, rfl, pairs⟩
  | some query =>
    rw [given] at pairs
    exact ⟨_, rfl, pairs⟩

end Form

section Segments

variable {special : Bool} {segment : String}

def IsUnbroken (segment : String) : Prop := ∀ c ∈ segment.toList, c ≠ '\t' ∧ c ≠ '\n' ∧ c ≠ '\r'

instance (segment : String) : Decidable (IsUnbroken segment) :=
  List.decidableBAll (fun c => c ≠ '\t' ∧ c ≠ '\n' ∧ c ≠ '\r') segment.toList

theorem IsUnbroken.withoutBreaks (unbroken : IsUnbroken segment) : Url.withoutBreaks segment = segment.toList := by
  refine List.filter_eq_self.mpr fun c member => ?_
  simpa [and_assoc] using unbroken c member

theorem IsUnbroken.showsDots (unbroken : IsUnbroken segment) : ShowsDots segment := by
  rw [ShowsDots, unbroken.withoutBreaks]
  rintro (one | two)
  · rw [String.toList_injective (one.trans rfl : segment.toList = ".".toList)]
    decide
  · rw [String.toList_injective (two.trans rfl : segment.toList = "..".toList)]
    decide

/-- A segment of a path is decoded to what was pushed. -/
theorem percentDecode_encoded (unbroken : IsUnbroken segment) :
    percentDecode (encoded special segment).toList = utf8 segment := by
  have escaped : keptInSegment special '%' = false := by cases special <;> decide
  rw [encoded, String.toList_ofList, unbroken.withoutBreaks, percentDecode_percentEncode escaped, utf8_eq]

def segmentEnds : List Char := ['/', '\\', '?', '#']

theorem notMem_encoded {sign : Char} (ends : sign ∈ segmentEnds) (segment : String) :
    sign ∉ (encoded true segment).toList := by
  obtain ⟨isSign, escaped⟩ : IsSign sign ∧ keptInSegment true sign = false := by
    simp only [segmentEnds, List.mem_cons, List.not_mem_nil, or_false] at ends
    rcases ends with rfl | rfl | rfl | rfl <;> decide
  rw [encoded, String.toList_ofList]
  exact notMem_percentEncode isSign escaped _

end Segments

section Apart

theorem rooted_append (before added : List String) :
    (Path.rooted (before ++ added)).text = (Path.rooted before).text ++ (Path.rooted added).text := by
  simp [Path.text]

theorem splitOn_rooted (first : String) {rest : List String} (free : ∀ segment ∈ first :: rest, '/' ∉ segment.toList) :
    (first.toList ++ (Path.rooted rest).text.toList).splitOn '/' = (first :: rest).map String.toList := by
  induction rest generalizing first with
  | nil =>
    have none : (Path.rooted []).text = "" := rfl
    rw [none]
    simpa using List.splitOn_eq_singleton (free first List.mem_cons_self)
  | cons second rest ih =>
    obtain ⟨own, others⟩ := List.forall_mem_cons.mp free
    have cut : first.toList ++ (Path.rooted (second :: rest)).text.toList =
        first.toList ++ '/' :: (second.toList ++ (Path.rooted rest).text.toList) := by
      simp [Path.text]
    rw [cut, List.splitOn_append_cons_self, List.splitOn_eq_singleton own, ih second others]
    rfl

/-- Segments without slashes are told by the text of their path. -/
theorem rooted_injective {segments others : List String} (free : ∀ segment ∈ segments, '/' ∉ segment.toList)
    (others_free : ∀ segment ∈ others, '/' ∉ segment.toList)
    (same : (Path.rooted segments).text = (Path.rooted others).text) : segments = others := by
  have cut := splitOn_rooted "" (List.forall_mem_cons.mpr ⟨by simp, free⟩)
  have others_cut := splitOn_rooted "" (List.forall_mem_cons.mpr ⟨by simp, others_free⟩)
  rw [same, others_cut, List.map_cons, List.map_cons, List.cons.injEq] at cut
  exact (List.map_injective_iff.mpr (fun _ _ => String.toList_injective) cut.2).symm

/-- The guard of a path looks at its first segments only. -/
theorem pathGuard_eq (url : Url) (before : List String) {first : String} (filled : first ≠ "")
    (added others : List String) :
    ({ url with path := .rooted (before ++ first :: added) } : Url).pathGuard =
      ({ url with path := .rooted (before ++ first :: others) } : Url).pathGuard := by
  unfold pathGuard
  cases url.host with
  | some host => rfl
  | none =>
    match before with
    | [] => simp [filled]
    | [only] => by_cases empty : only = "" <;> simp [empty]
    | one :: two :: rest => by_cases empty : one = "" <;> simp [empty]

/-- URLs that differ behind the start of their paths, or in their queries, have different texts. -/
theorem parts_of_text {url : Url} {before added others : List String} {first : String} {query query' : Option String}
    (filled : first ≠ "") (unmarked : Unmarked (before ++ first :: added))
    (unmarked' : Unmarked (before ++ first :: others))
    (free : ∀ segment ∈ first :: added, '/' ∉ segment.toList)
    (free' : ∀ segment ∈ first :: others, '/' ∉ segment.toList)
    (same : ({ url with path := .rooted (before ++ first :: added), query := query } : Url).text =
      ({ url with path := .rooted (before ++ first :: others), query := query' } : Url).text) :
    query = query' ∧ added = others := by
  -- What the queries are does not depend on the paths, so they are compared first and taken away.
  have queries : query = query' := by
    by_contra different
    exact text_ne_of_query_ne unmarked unmarked' different same
  let this : Url := { url with path := .rooted (before ++ first :: added), query := query' }
  let other : Url := { url with path := .rooted (before ++ first :: others), query := query' }
  have parts : url.authorityText ++ (this.guardedPath ++ this.queryText) ++ url.fragmentText =
      url.authorityText ++ (other.guardedPath ++ this.queryText) ++ url.fragmentText := by
    rw [text_eq, text_eq, queries] at same
    exact same
  have guard : this.pathGuard = other.pathGuard := pathGuard_eq { url with query := query' } before filled added others
  rw [String.append_left_inj, String.append_right_inj, String.append_left_inj, guardedPath, guardedPath, guard,
    String.append_right_inj, rooted_append, rooted_append, String.append_right_inj] at parts
  exact ⟨queries, (List.cons.inj (rooted_injective free free' parts)).2⟩

end Apart

end WorkflowLint.Url

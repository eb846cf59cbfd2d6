import Mathlib.Data.List.TakeDrop
import Mathlib.Data.List.TakeWhile
import WorkflowLint.Proofs.Action.Parts
import WorkflowLint.Proofs.Path.Components
import WorkflowLint.Proofs.Url.Decoding

/-! A URL without the slashes at its end.

The slashes at the end of a URL that is read belong to what follows its authority. What stands before them
is read, too: its authority is the same, unless a blank came before the slashes. But a blank there would
end the name of the host, and no host is read with one. -/

set_option autoImplicit false

namespace WorkflowLint.Url

def isEdge (c : Char) : Bool := c.toNat ≤ 0x20

/-- There are few such characters, so what holds of them can be looked up. -/
theorem of_isEdge (p : Char → Prop) {edge : Char} (isEdge_edge : isEdge edge = true)
    (each : ∀ n ≤ 0x20, p (Char.ofNat n)) : p edge := by
  have bound : edge.toNat ≤ 0x20 := by simpa [isEdge] using isEdge_edge
  exact Char.ofNat_toNat edge ▸ each edge.toNat bound

section Bytes

/-- Only what is an escape is taken for one. -/
theorem percentDecode_plain {c : Char} {text : List Char}
    (plain : ∀ a b rest x y, c = '%' → text = a :: b :: rest → hexValue a = some x → hexValue b = some y → False) :
    percentDecode (c :: text) = String.utf8EncodeChar c ++ percentDecode text := by
  by_cases percent : c = '%'
  · have byte : String.utf8EncodeChar '%' = ['%'.toUInt8] := by decide
    subst percent
    match text with
    | [] => rfl
    | [a] => rfl
    | a :: b :: rest =>
      rw [percentDecode, byte]
      split
      · next x y first second => exact (plain a b rest x y rfl rfl first second).elim
      · rfl
  · exact percentDecode_cons percent text

theorem eq_of_mem_utf8EncodeChar {c d : Char} (ascii : c.toNat < 0x80)
    (member : UInt8.ofNat c.toNat ∈ String.utf8EncodeChar d) : d = c := by
  have toNat : (UInt8.ofNat c.toNat).toNat = c.toNat := by
    rw [UInt8.toNat_ofNat']
    omega
  have high : ∀ {n : Nat}, UInt8.ofNat c.toNat = UInt8.ofNat n → 0x80 ≤ n → n < 0x100 → False := by
    intro n same low bound
    have numbers := congrArg UInt8.toNat same
    rw [toNat, UInt8.toNat_ofNat'] at numbers
    omega
  unfold String.utf8EncodeChar at member
  dsimp only at member
  split at member
  · next single =>
    have numbers := congrArg UInt8.toNat (List.mem_singleton.mp member)
    rw [toNat, UInt8.toNat_ofNat'] at numbers
    have codes : c.toNat = d.toNat := by
      change c.toNat = d.val.toNat
      omega
    rw [← Char.ofNat_toNat c, codes, Char.ofNat_toNat]
  · split at member
    · simp only [List.mem_cons, List.not_mem_nil, or_false] at member
      rcases member with same | same <;> exact (high same (by omega) (by omega)).elim
    · split at member <;> simp only [List.mem_cons, List.not_mem_nil, or_false] at member
      · rcases member with same | same | same <;> exact (high same (by omega) (by omega)).elim
      · rcases member with same | same | same | same <;> exact (high same (by omega) (by omega)).elim

end Bytes

theorem mem_intercalate {separator piece : List Char} {pieces : List (List Char)} {c : Char}
    (among : piece ∈ pieces) (inside : c ∈ piece) : c ∈ separator.intercalate pieces := by
  induction pieces with
  | nil => cases among
  | cons first rest ih =>
    by_cases last : rest = []
    · rw [last, List.mem_singleton] at among
      simpa [last, ← among] using inside
    · rw [List.intercalate_cons_of_ne_nil last, List.mem_append]
      rcases List.mem_cons.mp among with rfl | later
      · exact .inl (List.mem_append_left _ inside)
      · exact .inr (ih later)

section Host

variable {edge : Char} (isEdge_edge : isEdge edge = true)

include isEdge_edge

theorem ascii_edge : edge.toNat < 0x80 := of_isEdge (·.toNat < 0x80) isEdge_edge (by decide)

theorem hexValue_edge : hexValue edge = none := of_isEdge (hexValue · = none) isEdge_edge (by decide)

/-- A character at the end that is no digit is not taken for a part of an escape. -/
theorem percentDecode_concat (text : List Char) :
    percentDecode (text ++ [edge]) = percentDecode text ++ String.utf8EncodeChar edge := by
  have noDigit := hexValue_edge isEdge_edge
  fun_induction percentDecode text with
  | case1 => exact (percentDecode_plain (by simp)).trans (List.append_nil _)
  | case2 a b rest x y second first ih =>
    simp only [List.cons_append, percentDecode, first, second, ih]
  | case3 a b rest none ih =>
    have byte : String.utf8EncodeChar '%' = ['%'.toUInt8] := by decide
    have plain := @percentDecode_plain '%' (a :: b :: rest ++ [edge]) fun _ _ _ x y _ same first second => by
      cases same
      exact none x y first second
    rw [List.cons_append, plain, byte, ih]
    rfl
  | case4 c rest short ih =>
    have plain := @percentDecode_plain c (rest ++ [edge]) fun a b more x y percent same first second => by
      rcases rest with _ | ⟨one, _ | ⟨two, others⟩⟩
      · cases same
      · cases same
        rw [noDigit] at second
        cases second
      · exact short one two others percent rfl
    rw [List.cons_append, plain, ih, List.append_assoc]

theorem mem_of_fromUTF8? {bytes : List UInt8} {name : String}
    (read : String.fromUTF8? ⟨(bytes ++ String.utf8EncodeChar edge).toArray⟩ = some name) : edge ∈ name.toList := by
  have content : name.toByteArray = ⟨(bytes ++ String.utf8EncodeChar edge).toArray⟩ := by
    unfold String.fromUTF8? at read
    split at read
    · cases read
      rfl
    · cases read
  have single : String.utf8EncodeChar edge = [UInt8.ofNat edge.toNat] := by
    have small : edge.val.toNat ≤ 127 := Nat.le_of_lt_succ (ascii_edge isEdge_edge)
    unfold String.utf8EncodeChar
    exact if_pos small
  have inside : UInt8.ofNat edge.toNat ∈ utf8 name := by
    rw [utf8, content, single]
    simp
  rw [utf8_eq] at inside
  obtain ⟨d, member, byte⟩ := List.mem_flatMap.mp inside
  rwa [← eq_of_mem_utf8EncodeChar (ascii_edge isEdge_edge) byte]

theorem mem_of_toAscii {name ascii : List Char} (member : edge ∈ name)
    (read : HostName.toAscii name = some ascii) : edge ∈ ascii := by
  have small := ascii_edge isEdge_edge
  have lower : edge.toLower = edge := of_isEdge (fun c => c.toLower = c) isEdge_edge (by decide)
  have folded : edge ∈ name.flatMap HostName.fold := by
    refine List.mem_flatMap.mpr ⟨edge, member, ?_⟩
    simp [HostName.fold, small, lower]
  have label : ∀ {label out : List Char}, edge ∈ label → HostName.asciiLabel label = some out → edge ∈ out := by
    intro label out inLabel written
    unfold HostName.asciiLabel at written
    split at written
    · split at written
      · split at written
        · cases written
          exact inLabel
        · cases written
      · cases written
    · split at written
      · cases written
      · split at written
        · cases written
          exact inLabel
        · cases written
          -- What is ASCII in a label opens its Punycode.
          have basic : edge ∈ label.filter (·.toNat < 0x80) := List.mem_filter.mpr ⟨inLabel, by simpa using small⟩
          have opened : (label.filter (·.toNat < 0x80)).isEmpty = false := by
            simpa using List.ne_nil_of_mem basic
          refine List.mem_append_right _ ?_
          rw [HostName.encode, opened, if_neg Bool.false_ne_true]
          exact List.mem_append_left _ (List.mem_append_left _ basic)
  have noSeparator : edge ≠ '.' := of_isEdge (· ≠ '.') isEdge_edge (by decide)
  obtain ⟨piece, cut, inPiece⟩ := Text.exists_mem_splitOn folded noSeparator
  obtain ⟨labels, parts, same⟩ := Option.bind_eq_some_iff.mp read
  cases same
  obtain ⟨out, inLabels, written⟩ := (Text.mem_of_mapM parts).1 piece cut
  exact mem_intercalate inLabels (label inPiece written)

theorem readHost_edge (front : List Char) : readHost (front ++ [edge]) = none := by
  have closes : edge ≠ ']' := of_isEdge (· ≠ ']') isEdge_edge (by decide)
  have opens : edge ≠ '[' := of_isEdge (· ≠ '[') isEdge_edge (by decide)
  unfold readHost
  split
  · next rest opened =>
    have last : rest.getLast? = some edge := by
      have whole : (front ++ [edge]).getLast? = some edge := List.getLast?_concat
      cases rest with
      | nil =>
        rw [opened] at whole
        exact absurd (Option.some.inj whole).symm opens
      | cons c more =>
        rw [opened] at whole
        rwa [List.getLast?_cons_cons] at whole
    simp [bracketed, last, closes]
  · simp only [Option.bind_eq_bind, Option.bind_eq_none_iff]
    intro name decoded ascii written
    rw [percentDecode_concat isEdge_edge] at decoded
    have inside := mem_of_toAscii isEdge_edge (mem_of_fromUTF8? isEdge_edge decoded) written
    have forbidden : forbiddenInName edge = true := of_isEdge (forbiddenInName · = true) isEdge_edge (by decide)
    have any : ascii.any forbiddenInName = true := List.any_eq_true.mpr ⟨edge, inside, forbidden⟩
    simp [any]

end Host

section Authority

variable {scheme : String} {authority rest others : List Char} {url : Url}

structure IsAuthority (scheme : String) (authority rest : List Char) : Prop where
  inside : ∀ c ∈ authority, endsAuthority (isSpecialScheme scheme) c = false
  ends : ∀ c ∈ rest.head?, endsAuthority (isSpecialScheme scheme) c = true

theorem span_append {accept : Char → Bool} {front rest : List Char} (inside : ∀ c ∈ front, accept c = true)
    (stops : ∀ c ∈ rest.head?, accept c = false) : (front ++ rest).span accept = (front, rest) := by
  have stopped : rest.takeWhile accept = [] := by
    cases rest with
    | nil => rfl
    | cons c more => simp [stops c rfl]
  have taken : (front ++ rest).takeWhile accept = front := by
    rw [List.takeWhile_append_of_pos inside, stopped, List.append_nil]
  have cut := List.takeWhile_append_dropWhile (p := accept) (l := front ++ rest)
  rw [taken, List.append_cancel_left_eq] at cut
  rw [List.span_eq_takeWhile_dropWhile, taken, cut]

theorem IsAuthority.span (isAuthority : IsAuthority scheme authority rest) :
    (authority ++ rest).span (fun c => !endsAuthority (isSpecialScheme scheme) c) = (authority, rest) :=
  span_append (fun c member => by simp [isAuthority.inside c member])
    fun c member => by simp [isAuthority.ends c member]

def placeOf (authority : List Char) : Option (List Char) × List Char :=
  match Text.cutLast '@' authority with
  | some (userinfo, place) => (some userinfo, place)
  | none => (none, authority)

def addressOf (authority : List Char) : List Char × Option (List Char) := cutPort false (placeOf authority).2

theorem readAuthority_eq_some (special : isSpecialScheme scheme = true)
    (isAuthority : IsAuthority scheme authority rest) :
    readAuthority scheme (authority ++ rest) = some url ↔
      ∃ host port, (addressOf authority).1 ≠ [] ∧ readHost (addressOf authority).1 = some host ∧
        readPort scheme ((addressOf authority).2.getD []) = some port ∧
        url =
          { scheme
            username := (readUserinfo ((placeOf authority).1.getD [])).1
            password := (readUserinfo ((placeOf authority).1.getD [])).2
            host := some host
            port
            path := readPath scheme (cutSuffixes true rest).1
            query := (cutSuffixes true rest).2.1
            fragment := (cutSuffixes true rest).2.2 } := by
  unfold readAuthority
  dsimp only
  rw [isAuthority.span]
  simp only [special, Bool.true_or, Bool.and_true, if_true]
  change (if (addressOf authority).1.isEmpty = true then none else
    (readHost (addressOf authority).1).bind fun host =>
      (readPort scheme ((addressOf authority).2.getD [])).bind fun port =>
        some (Url.mk scheme (readUserinfo ((placeOf authority).1.getD [])).1
          (readUserinfo ((placeOf authority).1.getD [])).2 (some host) port _ _ _)) = some url ↔ _
  by_cases empty : (addressOf authority).1 = []
  · simp [empty]
  · have filled : ¬(addressOf authority).1.isEmpty = true := by simpa using empty
    rw [if_neg filled, Option.bind_eq_some_iff]
    refine exists_congr fun host => ?_
    rw [Option.bind_eq_some_iff]
    simp only [Option.some.injEq, empty, ne_eq, not_false_eq_true, true_and]
    constructor
    · rintro ⟨hosted, port, ported, rfl⟩
      exact ⟨port, hosted, ported, rfl⟩
    · rintro ⟨port, hosted, ported, rfl⟩
      exact ⟨hosted, port, ported, rfl⟩

theorem readAuthority_rest (special : isSpecialScheme scheme = true) (isAuthority : IsAuthority scheme authority rest)
    (isAuthority' : IsAuthority scheme authority others)
    (read : readAuthority scheme (authority ++ rest) = some url) :
    ∃ base, readAuthority scheme (authority ++ others) = some base ∧ base.scheme = url.scheme ∧
      base.username = url.username ∧ base.password = url.password ∧ base.host = url.host ∧
        base.port = url.port := by
  obtain ⟨host, port, named, hosted, ported, rfl⟩ := (readAuthority_eq_some special isAuthority).mp read
  exact ⟨_, (readAuthority_eq_some special isAuthority').mpr ⟨host, port, named, hosted, ported, rfl⟩,
    rfl, rfl, rfl, rfl, rfl⟩

theorem cutPort_edge {edge : Char} (notColon : edge ≠ ':') (inside : Bool) (place : List Char) :
    (∃ name, cutPort inside (place ++ [edge]) = (name ++ [edge], none)) ∨
      ∃ name digits, cutPort inside (place ++ [edge]) = (name, some (digits ++ [edge])) := by
  induction place generalizing inside with
  | nil =>
    left
    refine ⟨[], ?_⟩
    simp [cutPort, notColon]
  | cons c more ih =>
    rw [List.cons_append, cutPort]
    split
    · exact .inr ⟨[], more, rfl⟩
    · rcases ih (if c == '[' then true else if c == ']' then false else inside) with ⟨name, cut⟩ | ⟨name, digits, cut⟩
      · exact .inl ⟨c :: name, by simp only [cut, List.cons_append]⟩
      · exact .inr ⟨c :: name, digits, by simp only [cut]⟩

/-- No authority that ends in a blank is read. -/
theorem readAuthority_edge (special : isSpecialScheme scheme = true) {edge : Char} (isEdge_edge : isEdge edge = true)
    {front : List Char} (isAuthority : IsAuthority scheme (front ++ [edge]) rest) :
    readAuthority scheme (front ++ [edge] ++ rest) = none := by
  have noAt : edge ≠ '@' := of_isEdge (· ≠ '@') isEdge_edge (by decide)
  have noColon : edge ≠ ':' := of_isEdge (· ≠ ':') isEdge_edge (by decide)
  rw [Option.eq_none_iff_forall_ne_some]
  intro url read
  obtain ⟨host, port, -, hosted, ported, -⟩ := (readAuthority_eq_some special isAuthority).mp read
  obtain ⟨place, placed⟩ : ∃ place, (placeOf (front ++ [edge])).2 = place ++ [edge] := by
    unfold placeOf
    split
    · next userinfo place cut =>
      have ends : (front ++ [edge]).getLast? = some edge := List.getLast?_concat
      rw [(Text.cutLast_eq_some cut).1] at ends
      rcases List.eq_nil_or_concat place with none | ⟨before, last, concat⟩
      · rw [none, List.getLast?_concat] at ends
        exact absurd (Option.some.inj ends).symm noAt
      · rw [concat, List.concat_eq_append, ← List.cons_append, ← List.append_assoc, List.getLast?_concat] at ends
        exact ⟨before, by rw [concat, List.concat_eq_append, Option.some.inj ends]⟩
    · exact ⟨front, rfl⟩
  rcases cutPort_edge noColon false place with ⟨name, cut⟩ | ⟨name, digits, cut⟩
  · rw [addressOf, placed, cut] at hosted
    exact absurd hosted (by rw [readHost_edge isEdge_edge]; exact nofun)
  · rw [addressOf, placed, cut] at ported
    have noDigit : edge.isDigit = false := of_isEdge (·.isDigit = false) isEdge_edge (by decide)
    simp [readPort, noDigit] at ported

end Authority

section Scheme

variable {scheme : String} {text rest : List Char}

theorem cutScheme_eq_some :
    cutScheme text = some (scheme, rest) ↔
      ∃ c more, text = c :: more ++ ':' :: rest ∧ (∀ d ∈ c :: more, isSchemeChar d = true) ∧ c.isAlpha = true ∧
        scheme = String.ofList ((c :: more).map Char.toLower) := by
  constructor
  · intro cut
    cases text with
    | nil => cases cut
    | cons c more =>
      have whole := List.takeWhile_append_dropWhile (p := isSchemeChar) (l := c :: more)
      have named : ∀ d ∈ (c :: more).takeWhile isSchemeChar, isSchemeChar d = true :=
        fun d member => List.mem_takeWhile_imp member
      simp only [cutScheme, List.span_eq_takeWhile_dropWhile] at cut
      split at cut
      · next after behind =>
        split at cut
        · next letter =>
          cases cut
          have first : isSchemeChar c = true := by simp [isSchemeChar, Char.isAlphanum, letter]
          have taken := List.takeWhile_cons_of_pos (l := more) first
          rw [taken, behind] at whole
          rw [taken] at named ⊢
          exact ⟨c, more.takeWhile isSchemeChar, whole.symm, named, letter, rfl⟩
        · cases cut
      · cases cut
  · rintro ⟨c, more, rfl, named, letter, rfl⟩
    have cut := @span_append isSchemeChar (c :: more) (':' :: rest) named
      (fun d member => by cases member; decide)
    rw [List.cons_append] at cut ⊢
    simp only [cutScheme, cut, letter, if_true]

/-- A scheme stands before anything that holds no colon. -/
theorem cutScheme_append {front behind : List Char} (free : ':' ∉ behind)
    (cut : cutScheme (front ++ behind) = some (scheme, rest)) :
    ∃ inner, rest = inner ++ behind ∧ cutScheme front = some (scheme, inner) := by
  obtain ⟨c, more, whole, named, letter, lower⟩ := cutScheme_eq_some.mp cut
  -- The colon that ends the scheme is not behind the cut, so the whole scheme comes before it.
  rcases List.append_eq_append_iff.mp whole with ⟨_, _, inBehind⟩ | ⟨inner, opened, behind_cut⟩
  · rw [inBehind] at free
    simp at free
  · cases inner with
    | nil =>
      rw [List.nil_append] at behind_cut
      rw [← behind_cut] at free
      simp at free
    | cons colon inner =>
      cases behind_cut
      exact ⟨inner, rfl, cutScheme_eq_some.mpr ⟨c, more, opened, named, letter, lower⟩⟩

end Scheme

section Strip

theorem dropTrailing_append_of_neg {accept : Char → Bool} {last : Char} (kept : accept last = false)
    (text : List Char) : Text.dropTrailing accept (text ++ [last]) = text ++ [last] := by
  simp [Text.dropTrailing, kept]

theorem dropTrailing_append (accept : Char → Bool) (text : List Char) :
    ∃ dropped, (∀ c ∈ dropped, accept c = true) ∧ text = Text.dropTrailing accept text ++ dropped := by
  refine ⟨(text.reverse.takeWhile accept).reverse, fun c member => ?_, ?_⟩
  · exact List.mem_takeWhile_imp (List.mem_reverse.mp member)
  · rw [Text.dropTrailing, ← List.reverse_append, List.takeWhile_append_dropWhile, List.reverse_reverse]

/-- Before slashes, only blanks at the end of a text count that would not otherwise. -/
theorem strip_slashes (text : List Char) (count : Nat) :
    ∃ blanks, (∀ c ∈ blanks, isEdge c = true) ∧
      strip (text ++ List.replicate (count + 1) '/') = strip text ++ blanks ++ List.replicate (count + 1) '/' := by
  have slash : isEdge '/' = false := by decide
  obtain ⟨dropped, edges, cut⟩ := dropTrailing_append isEdge (text.dropWhile isEdge)
  have opened : (text ++ List.replicate (count + 1) '/').dropWhile isEdge =
      text.dropWhile isEdge ++ List.replicate (count + 1) '/' := by
    rw [List.dropWhile_append]
    split
    · next empty =>
      rw [List.isEmpty_iff.mp empty, List.nil_append]
      simp [List.replicate_succ, slash]
    · rfl
  have closed : Text.dropTrailing isEdge (text.dropWhile isEdge ++ List.replicate (count + 1) '/') =
      text.dropWhile isEdge ++ List.replicate (count + 1) '/' := by
    rw [List.replicate_succ', ← List.append_assoc, dropTrailing_append_of_neg slash]
  refine ⟨dropped.filter fun c => c != '\t' && c != '\n' && c != '\r', fun c member => ?_, ?_⟩
  · exact edges c (List.mem_of_mem_filter member)
  · change (Text.dropTrailing isEdge ((text ++ List.replicate (count + 1) '/').dropWhile isEdge)).filter _ =
      (Text.dropTrailing isEdge (text.dropWhile isEdge)).filter _ ++ _ ++ _
    rw [opened, closed]
    nth_rewrite 1 [cut]
    rw [List.filter_append, List.filter_append]
    simp

end Strip

section Slashes

variable {scheme : String} {url : Url}

theorem drop_takeWhile (accept : Char → Bool) (text : List Char) :
    text.drop (text.takeWhile accept).length = text.dropWhile accept := by
  have whole := List.takeWhile_append_dropWhile (p := accept) (l := text)
  have cut := congrArg (List.drop (text.takeWhile accept).length) whole
  rw [List.drop_left] at cut
  exact cut.symm

theorem readForeign_scheme {text : List Char} (read : readForeign scheme text = some url) : url.scheme = scheme := by
  unfold readForeign at read
  split at read
  · exact (readAuthority_path read).1
  · dsimp only at read
    split at read <;> cases read <;> rfl

/-- What follows `http:` or the like, if no other URL is its base. -/
theorem parse_eq_readAuthority {text : String} {rest : List Char} (special : isSpecialScheme scheme = true)
    (noFile : scheme ≠ "file") (cut : cutScheme (strip text.toList) = some (scheme, rest)) :
    parse text = readAuthority scheme (rest.dropWhile (isSlash true)) := by
  have other : (scheme == "file") = false := beq_eq_false_iff_ne.mpr noFile
  unfold parse Url.read
  simp only [cut, other, special, if_true, Bool.false_eq_true, if_false, drop_takeWhile]

theorem scheme_of_parse {text : String} (read : parse text = some url) :
    ∃ rest, cutScheme (strip text.toList) = some (url.scheme, rest) := by
  unfold parse Url.read at read
  dsimp only at read
  split at read
  · next scheme rest cut =>
    have same : url.scheme = scheme := by
      split at read
      · next file => exact (readFile_path read).1.trans (beq_iff_eq.mp file).symm
      · split at read
        · exact (readAuthority_path read).1
        · exact readForeign_scheme read
    exact ⟨rest, by rw [cut, same]⟩
  · next impossible => cases impossible
  · cases read

theorem endsAuthority_edge {edge : Char} (isEdge_edge : isEdge edge = true) (special : Bool) :
    endsAuthority special edge = false := by
  exact of_isEdge (fun c => ∀ special, endsAuthority special c = false) isEdge_edge (by decide) special

/-- An authority that ends inside the text does not depend on what is behind the text. -/
theorem readAuthority_within (special : isSpecialScheme scheme = true) {text behind more : List Char} {c : Char}
    (ended : text.dropWhile (fun c => !endsAuthority (isSpecialScheme scheme) c) = c :: more)
    (read : readAuthority scheme (text ++ behind) = some url) :
    ∃ base, readAuthority scheme text = some base ∧ base.scheme = url.scheme ∧
      base.username = url.username ∧ base.password = url.password ∧ base.host = url.host ∧
        base.port = url.port := by
  have whole := List.takeWhile_append_dropWhile (p := fun c => !endsAuthority (isSpecialScheme scheme) c) (l := text)
  have stops := List.head?_dropWhile_not (fun c => !endsAuthority (isSpecialScheme scheme) c) text
  rw [ended] at whole stops
  have ends : endsAuthority (isSpecialScheme scheme) c = true := by simpa using stops
  have isAuthority : ∀ more, IsAuthority scheme
      (text.takeWhile fun c => !endsAuthority (isSpecialScheme scheme) c) (c :: more) := by
    refine fun more => ⟨fun d member => by simpa using List.mem_takeWhile_imp member, fun d member => ?_⟩
    cases member
    exact ends
  rw [← whole, List.append_assoc, List.cons_append] at read
  rw [← whole]
  exact readAuthority_rest special (isAuthority _) (isAuthority more) read

theorem readAuthority_slashes (special : isSpecialScheme scheme = true) {text blanks : List Char}
    (edges : ∀ c ∈ blanks, isEdge c = true) (count : Nat)
    (read : readAuthority scheme (text ++ blanks ++ List.replicate (count + 1) '/') = some url) :
    ∃ base, readAuthority scheme text = some base ∧ base.scheme = url.scheme ∧
      base.username = url.username ∧ base.password = url.password ∧ base.host = url.host ∧
        base.port = url.port := by
  have slash : ∀ c ∈ (List.replicate (count + 1) '/').head?, endsAuthority (isSpecialScheme scheme) c = true := by
    intro c member
    cases member
    simp [endsAuthority, isSlash]
  -- The authority ends inside the text, or at the slashes; then blanks before these would be its last part.
  cases ended : text.dropWhile (fun c => !endsAuthority (isSpecialScheme scheme) c) with
  | cons c more => exact readAuthority_within special ended (List.append_assoc .. ▸ read)
  | nil =>
    have inside : ∀ c ∈ text, endsAuthority (isSpecialScheme scheme) c = false :=
      fun c member => by simpa using List.dropWhile_eq_nil_iff.mp ended c member
    rcases List.eq_nil_or_concat blanks with rfl | ⟨before, edge, rfl⟩
    · rw [List.append_nil] at read
      have alone : IsAuthority scheme text [] := ⟨inside, nofun⟩
      have found := readAuthority_rest special ⟨inside, slash⟩ alone read
      rwa [List.append_nil] at found
    · rw [List.concat_eq_append] at edges read
      have blank := edges edge (by simp)
      rw [← List.append_assoc] at read
      have isAuthority : IsAuthority scheme (text ++ before ++ [edge]) (List.replicate (count + 1) '/') := by
        refine ⟨fun c member => ?_, slash⟩
        rw [List.append_assoc] at member
        rcases List.mem_append.mp member with inText | inBlanks
        · exact inside c inText
        · exact endsAuthority_edge (edges c inBlanks) _
      rw [readAuthority_edge special blank isAuthority] at read
      cases read

/-- The slashes before an authority can be left out of a text alone: slashes alone hold no authority. -/
theorem readAuthority_opened (special : isSpecialScheme scheme = true) {text blanks : List Char}
    (edges : ∀ c ∈ blanks, isEdge c = true) (count : Nat)
    (read : readAuthority scheme
      ((text ++ (blanks ++ List.replicate count '/')).dropWhile (isSlash true)) = some url) :
    readAuthority scheme (text.dropWhile (isSlash true) ++ blanks ++ List.replicate count '/') = some url := by
  rw [List.dropWhile_append] at read
  split at read
  · next empty =>
    rw [List.isEmpty_iff.mp empty]
    cases blanks with
    | nil =>
      have passed : (List.replicate count '/').dropWhile (isSlash true) = [] :=
        List.dropWhile_eq_nil_iff.mpr fun c member => by rw [List.eq_of_mem_replicate member]; rfl
      rw [List.nil_append, passed] at read
      have none : IsAuthority scheme [] [] := ⟨nofun, nofun⟩
      obtain ⟨_, _, named, _⟩ := (readAuthority_eq_some special none).mp read
      exact absurd rfl named
    | cons blank more =>
      have notSlash : isSlash true blank = false := by
        have other := endsAuthority_edge (edges blank List.mem_cons_self) true
        simp only [endsAuthority, Bool.or_eq_false_iff] at other
        exact other.1.1
      rw [List.cons_append, List.dropWhile_cons_of_neg (by simp [notSlash])] at read
      exact read
  · rw [List.append_assoc]
    exact read

/-- A web URL that is read is read without slashes at its end, and has the same authority then. -/
theorem parse_dropTrailing {text : String} (read : parse text = some url)
    (web : url.scheme = "http" ∨ url.scheme = "https") :
    ∃ base, parse (String.ofList (Text.dropTrailing (· == '/') text.toList)) = some base ∧
      base.scheme = url.scheme ∧ base.username = url.username ∧ base.password = url.password ∧
        base.host = url.host ∧ base.port = url.port := by
  have special : isSpecialScheme url.scheme = true := isSpecial_of_web web
  have noFile : url.scheme ≠ "file" := by
    intro file
    simp [file] at web
  obtain ⟨slashes, all, whole⟩ := dropTrailing_append (· == '/') text.toList
  obtain ⟨rest, cut⟩ := scheme_of_parse read
  rw [parse_eq_readAuthority special noFile cut] at read
  -- What is dropped are slashes only; without any, nothing has changed.
  have repeated : slashes = List.replicate slashes.length '/' :=
    List.eq_replicate_of_mem fun c member => beq_iff_eq.mp (all c member)
  cases length : slashes.length with
  | zero =>
    rw [List.length_eq_zero_iff.mp length, List.append_nil] at whole
    rw [← whole, String.ofList_toList, parse_eq_readAuthority special noFile cut]
    exact ⟨url, read, rfl, rfl, rfl, rfl, rfl⟩
  | succ count =>
    rw [repeated, length] at whole
    obtain ⟨blanks, edges, stripped⟩ := strip_slashes (Text.dropTrailing (· == '/') text.toList) count
    have free : ':' ∉ blanks ++ List.replicate (count + 1) '/' := by
      intro member
      rcases List.mem_append.mp member with blank | slash
      · exact absurd (edges ':' blank) (by decide)
      · cases List.eq_of_mem_replicate slash
    rw [whole, stripped, List.append_assoc] at cut
    obtain ⟨inner, rfl, inner_cut⟩ := cutScheme_append free cut
    rw [← String.toList_ofList (l := Text.dropTrailing (· == '/') text.toList)] at inner_cut
    rw [parse_eq_readAuthority special noFile inner_cut]
    exact readAuthority_slashes special edges count (readAuthority_opened special edges (count + 1) read)

end Slashes

end WorkflowLint.Url

import Mathlib.Data.List.TakeWhile
import WorkflowLint.Json.Reader

/-! Which texts read as an empty array.

Two brackets do, with blanks around each, and nothing else does. An array that is open is alone on the
stack and empty only after a first bracket; once anything else has come, no token leads back there. -/

set_option autoImplicit false

namespace WorkflowLint.Json

def IsEmptyArray (text : List Char) : Prop :=
  ∃ before between after : List Char, text = before ++ '[' :: (between ++ ']' :: after) ∧
    ∀ c ∈ before ++ between ++ after, c ∈ [' ', '\t', '\n', '\r']

namespace Token

def mark? : Token → Option Char
  | openArray => some '['
  | closeArray => some ']'
  | openObject => some '\x7b'
  | closeObject => some '\x7d'
  | comma => some ','
  | colon => some ':'
  | scalar _ => none

/-- Scalars are neither arrays nor objects; here it is arrays that matter. -/
def IsFlat (token : Token) : Prop := ∀ items, ¬token = .scalar (.array items)

theorem isSpace_iff (c : Char) : isSpace c = true ↔ c ∈ [' ', '\t', '\n', '\r'] := by
  simp [isSpace, or_assoc]

section Take

variable {text rest : List Char}

theorem ofParts_ne_array {negative : Bool} {whole : List Char} {fraction : Option (List Char)}
    {exponent : Option Int} {items : List Json} :
    ofParts negative whole fraction exponent ≠ some (.array items) := by
  intro read
  unfold ofParts at read
  dsimp only at read
  split at read
  · split at read
    · cases read
    · split at read <;> cases read
  · obtain ⟨bits, _, same⟩ := Option.map_eq_some_iff.mp read
    cases same

theorem takeNumber_ne_array {items : List Json} : takeNumber text ≠ some (.array items, rest) := by
  have unsigned : ∀ negative cs, takeUnsigned negative cs ≠ some (.array items, rest) := by
    intro negative cs read
    simp only [takeUnsigned, Option.bind_eq_bind, Option.bind_eq_some_iff] at read
    obtain ⟨_, _, _, _, _, _, number, made, same⟩ := read
    cases same
    exact ofParts_ne_array made
  unfold takeNumber
  split <;> exact unsigned _ _

theorem take_isFlat {token : Token} (taken : take text = some (token, rest)) : token.IsFlat := by
  rintro items rfl
  unfold take at taken
  split at taken
  all_goals try cases taken
  · obtain ⟨_, _, same⟩ := Option.map_eq_some_iff.mp taken
    cases same
  · obtain ⟨⟨number, left⟩, read, same⟩ := Option.map_eq_some_iff.mp taken
    cases same
    exact takeNumber_ne_array read

theorem take_eq_mark {token : Token} {c : Char} (mark : token.mark? = some c) :
    take text = some (token, rest) ↔ text = c :: rest := by
  constructor
  · intro taken
    unfold take at taken
    split at taken
    all_goals try cases taken
    all_goals try cases mark
    all_goals try rfl
    all_goals
      obtain ⟨_, _, same⟩ := Option.map_eq_some_iff.mp taken
      cases same
      cases mark
  · rintro rfl
    cases token <;> cases mark <;> rfl

theorem takeAll_eq_cons {fuel : Nat} {token : Token} {tokens : List Token} :
    takeAll (fuel + 1) text = some (token :: tokens) ↔
      ∃ rest, take (text.dropWhile isSpace) = some (token, rest) ∧ takeAll fuel rest = some tokens := by
  rw [takeAll]
  cases text.dropWhile isSpace with
  | nil => simp [take]
  | cons c cs =>
    simp only [Option.bind_eq_bind, Option.bind_eq_some_iff, Option.pure_def, Option.some.injEq,
      List.cons.injEq, Prod.exists]
    constructor
    · rintro ⟨_, rest, taken, _, others, rfl, rfl⟩
      exact ⟨rest, taken, others⟩
    · rintro ⟨rest, taken, others⟩
      exact ⟨token, rest, taken, tokens, others, rfl, rfl⟩

theorem takeAll_eq_nil {fuel : Nat} :
    takeAll (fuel + 1) text = some [] ↔ ∀ c ∈ text, isSpace c = true := by
  rw [← List.dropWhile_eq_nil_iff, takeAll]
  cases text.dropWhile isSpace with
  | nil => simp
  | cons c cs => simp [Option.bind_eq_some_iff]

theorem takeAll_isFlat {fuel : Nat} {tokens : List Token} (taken : takeAll fuel text = some tokens) :
    ∀ token ∈ tokens, token.IsFlat := by
  induction fuel generalizing text tokens with
  | zero =>
    cases taken
    nofun
  | succ fuel ih =>
    cases tokens with
    | nil => nofun
    | cons token tokens =>
      obtain ⟨rest, first, others⟩ := takeAll_eq_cons.mp taken
      rintro other (_ | ⟨_, member⟩)
      · exact take_isFlat first
      · exact ih others other member

end Take

theorem dropWhile_eq_cons {isBlank : Char → Bool} {text rest : List Char} {c : Char}
    (kept : isBlank c = false) :
    text.dropWhile isBlank = c :: rest ↔
      ∃ before, text = before ++ c :: rest ∧ ∀ b ∈ before, isBlank b = true := by
  constructor
  · intro dropped
    refine ⟨text.takeWhile isBlank, ?_, fun b member => List.mem_takeWhile_imp member⟩
    rw [← dropped, List.takeWhile_append_dropWhile]
  · rintro ⟨before, rfl, blank⟩
    rw [List.dropWhile_append_of_pos blank, List.dropWhile_cons_of_neg (by simp [kept])]

theorem takeAll_brackets {text : List Char} {fuel : Nat} :
    takeAll (fuel + 3) text = some [.openArray, .closeArray] ↔ IsEmptyArray text := by
  have opening : ∀ cs rest : List Char, take (cs.dropWhile isSpace) = some (.openArray, rest) ↔
      ∃ before, cs = before ++ '[' :: rest ∧ ∀ b ∈ before, isSpace b = true :=
    fun _ _ => (take_eq_mark rfl).trans (dropWhile_eq_cons rfl)
  have closing : ∀ cs rest : List Char, take (cs.dropWhile isSpace) = some (.closeArray, rest) ↔
      ∃ before, cs = before ++ ']' :: rest ∧ ∀ b ∈ before, isSpace b = true :=
    fun _ _ => (take_eq_mark rfl).trans (dropWhile_eq_cons rfl)
  unfold IsEmptyArray
  simp only [takeAll_eq_cons, takeAll_eq_nil, opening, closing, ← isSpace_iff, List.mem_append, or_imp,
    forall_and]
  constructor
  · rintro ⟨_, ⟨before, rfl, blank⟩, after, ⟨between, rfl, blank'⟩, blank''⟩
    exact ⟨before, between, after, rfl, ⟨blank, blank'⟩, blank''⟩
  · rintro ⟨before, between, after, rfl, ⟨blank, blank'⟩, blank''⟩
    exact ⟨_, ⟨before, rfl, blank⟩, after, ⟨between, rfl, blank'⟩, blank''⟩

theorem ofText_eq_brackets (text : String) :
    ofText text = some [.openArray, .closeArray] ↔ IsEmptyArray text.toList := by
  unfold ofText
  rw [← String.length_toList]
  have short : ∀ cs, IsEmptyArray cs → 2 ≤ cs.length := by
    rintro _ ⟨before, between, after, rfl, _⟩
    simp only [List.length_append, List.length_cons]
    omega
  -- The fuel is enough for two tokens and the end once the text is as long as two brackets.
  match text.toList with
  | [] => exact iff_of_false (by simp [takeAll]) fun empty => by simpa using short _ empty
  | [c] =>
    refine iff_of_false (fun taken => ?_) fun empty => by simpa using short _ empty
    obtain ⟨rest, first, others⟩ := takeAll_eq_cons.mp taken
    have bound := List.length_dropWhile_le isSpace [c]
    rw [(take_eq_mark rfl).mp first] at bound
    obtain rfl : rest = [] := by simpa using bound
    simp [takeAll] at others
  | a :: b :: rest => exact takeAll_brackets

end Token

namespace Reading

/-- Something has come that is not a single open bracket, and no empty array can be the result. -/
structure Past (reading : Reading) : Prop where
  result : reading.result ≠ some (.array [])
  frames : reading.frames ≠ [.array []]
  done : reading.frames = [] → reading.expected = .nothing

theorem complete_past {value : Json} {frames : List Frame} {next : Reading}
    (completed : complete value frames = some next) (filled : frames = [] → value ≠ .array []) :
    next.Past := by
  unfold complete at completed
  split at completed
  · cases completed
    exact ⟨fun same => filled rfl (Option.some.inj same), nofun, fun _ => rfl⟩
  · cases completed
    exact ⟨nofun, by simp, nofun⟩
  · cases completed
    exact ⟨nofun, by simp, nofun⟩
  · cases completed

theorem enter_past {frame : Frame} {expected : Expected} {frames : List Frame} {next : Reading}
    (entered : enter frame expected frames = some next) (deep : frame = .array [] → frames ≠ []) :
    next.Past := by
  unfold enter at entered
  split at entered
  · cases entered
    refine ⟨nofun, fun single => ?_, nofun⟩
    obtain ⟨fresh, bottom⟩ := List.cons.inj single
    exact deep fresh bottom
  · cases entered

theorem step_past {reading next : Reading} {token : Token} (past : reading.Past)
    (flat : token.IsFlat) (stepped : step reading token = some next) : next.Past := by
  have nested : reading.expected ≠ .nothing → reading.frames ≠ [] := mt past.done
  cases token with
  | openArray =>
    simp only [step] at stepped
    split at stepped
    -- Once something has ended, no bracket is accepted: a new one has others below it.
    next accepts => exact enter_past stepped fun _ => nested fun ended => by simp [ended, acceptsValue] at accepts
    next => cases stepped
  | openObject =>
    simp only [step] at stepped
    split at stepped
    next => exact enter_past stepped nofun
    next => cases stepped
  | closeArray =>
    simp only [step] at stepped
    split at stepped
    next items rest opened =>
      split at stepped
      -- What closes at the bottom has items, as an empty array alone on the stack is excluded.
      · refine complete_past stepped fun bottom same => past.frames ?_
        obtain rfl : items = [] := by simpa using same
        rw [opened, bottom]
      · cases stepped
    next => cases stepped
  | closeObject =>
    simp only [step] at stepped
    split at stepped
    next =>
      split at stepped
      · exact complete_past stepped fun _ => nofun
      · cases stepped
    next => cases stepped
  | comma =>
    simp only [step] at stepped
    split at stepped
    next items rest separated opened =>
      cases stepped
      exact ⟨nofun, opened ▸ past.frames, nofun⟩
    next =>
      cases stepped
      exact ⟨nofun, by simp, nofun⟩
    next => cases stepped
  | colon =>
    simp only [step] at stepped
    split at stepped
    next expects =>
      cases stepped
      exact ⟨nofun, past.frames, fun closed => absurd closed (nested (by simp [expects]))⟩
    next => cases stepped
  | scalar value =>
    simp only [step] at stepped
    split at stepped
    next => exact complete_past stepped fun _ same => flat [] (same ▸ rfl)
    next =>
      split at stepped
      next =>
        split at stepped
        next =>
          cases stepped
          exact ⟨nofun, by simp, nofun⟩
        next => cases stepped
      next => cases stepped

theorem foldlM_cons_eq_some {reading last : Reading} {token : Token} {rest : List Token} :
    (token :: rest).foldlM step reading = some last ↔
      ∃ next, step reading token = some next ∧ rest.foldlM step next = some last := by
  rw [List.foldlM_cons, Option.bind_eq_bind, Option.bind_eq_some_iff]

theorem foldlM_past {tokens : List Token} (flat : ∀ token ∈ tokens, token.IsFlat)
    {reading last : Reading} (past : reading.Past) (read : tokens.foldlM step reading = some last) :
    last.Past := by
  induction tokens generalizing reading with
  | nil =>
    cases read
    exact past
  | cons token tokens ih =>
    obtain ⟨next, stepped, rest⟩ := foldlM_cons_eq_some.mp read
    exact ih (fun other member => flat other (.tail _ member))
      (step_past past (flat token (.head _)) stepped) rest

def opened : Reading := ⟨.valueOrEnd, [.array []], none⟩

def closed : Reading := ⟨.nothing, [], some (.array [])⟩

theorem start_past {next : Reading} {token : Token} (flat : token.IsFlat)
    (other : token ≠ .openArray) (stepped : step start token = some next) : next.Past := by
  cases token with
  | openArray => exact absurd rfl other
  | openObject =>
    cases stepped
    exact ⟨nofun, by simp, nofun⟩
  | closeArray | closeObject | comma | colon => cases stepped
  | scalar value =>
    cases stepped
    exact ⟨fun same => flat [] (Option.some.inj same ▸ rfl), nofun, fun _ => rfl⟩

theorem opened_past {next : Reading} {token : Token} (other : token ≠ .closeArray)
    (stepped : step opened token = some next) : next.Past := by
  cases token with
  | closeArray => exact absurd rfl other
  | openArray | openObject | scalar value =>
    cases stepped
    exact ⟨nofun, by simp [opened], nofun⟩
  | closeObject | comma | colon => cases stepped

theorem step_closed (token : Token) : step closed token = none := by
  cases token <;> rfl

section Empty

variable {tokens : List Token} (flat : ∀ token ∈ tokens, token.IsFlat) {last : Reading}
  (result : last.result = some (.array []))
include flat result

theorem eq_of_foldlM_opened (read : tokens.foldlM step opened = some last) :
    tokens = [.closeArray] := by
  rcases tokens with _ | ⟨token, rest⟩
  · cases read
    cases result
  obtain ⟨next, stepped, read⟩ := foldlM_cons_eq_some.mp read
  by_cases bracket : token = .closeArray
  · subst bracket
    cases stepped
    -- The array is complete, and nothing may follow it.
    rcases rest with _ | ⟨other, rest⟩
    · rfl
    · obtain ⟨_, stepped, _⟩ := foldlM_cons_eq_some.mp read
      cases (step_closed other).symm.trans stepped
  · have past := opened_past bracket stepped
    exact absurd result (foldlM_past (fun _ member => flat _ (.tail _ member)) past read).result

theorem eq_of_foldlM_start (read : tokens.foldlM step start = some last) :
    tokens = [.openArray, .closeArray] := by
  rcases tokens with _ | ⟨token, rest⟩
  · cases read
    cases result
  obtain ⟨next, stepped, read⟩ := foldlM_cons_eq_some.mp read
  have later : ∀ other ∈ rest, other.IsFlat := fun _ member => flat _ (.tail _ member)
  by_cases bracket : token = .openArray
  · subst bracket
    cases stepped
    rw [eq_of_foldlM_opened later result read]
  · have past := start_past (flat token (.head _)) bracket stepped
    exact absurd result (foldlM_past later past read).result

end Empty

theorem foldlM_emptyArray {tokens : List Token} (flat : ∀ token ∈ tokens, token.IsFlat) :
    (∃ last, tokens.foldlM step start = some last ∧ last.result = some (.array [])) ↔
      tokens = [.openArray, .closeArray] := by
  constructor
  · rintro ⟨last, read, result⟩
    exact eq_of_foldlM_start flat result read
  · rintro rfl
    exact ⟨closed, rfl, rfl⟩

end Reading

/-- A text reads as an empty array just when it is one to the eye. -/
theorem read_eq_emptyArray (text : String) :
    read text = some (.array []) ↔ IsEmptyArray text.toList := by
  rw [← Token.ofText_eq_brackets, read]
  simp only [Option.bind_eq_bind, Option.bind_eq_some_iff]
  constructor
  · rintro ⟨tokens, taken, last⟩
    rw [taken, (Reading.foldlM_emptyArray (Token.takeAll_isFlat taken)).mp last]
  · intro taken
    exact ⟨_, taken, (Reading.foldlM_emptyArray (Token.takeAll_isFlat taken)).mpr rfl⟩

end WorkflowLint.Json

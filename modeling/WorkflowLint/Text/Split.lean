/-! Cutting texts at separators, over lists of characters. -/

set_option autoImplicit false

namespace WorkflowLint.Text

def occursIn (needle : List Char) : List Char → Bool
  | [] => needle.isEmpty
  | c :: rest => needle.isPrefixOf (c :: rest) || occursIn needle rest

def cutFirst (separator : Char) : List Char → Option (List Char × List Char)
  | [] => none
  | c :: rest =>
    if c = separator then some ([], rest)
    else (cutFirst separator rest).map fun (before, after) => (c :: before, after)

def cutLast (separator : Char) : List Char → Option (List Char × List Char)
  | [] => none
  | c :: rest =>
    match cutLast separator rest with
    | some (before, after) => some (c :: before, after)
    | none => if c = separator then some ([], rest) else none

/-- The pieces between the characters that `isSeparator` accepts: one more than there are of them. -/
def splitBy (isSeparator : Char → Bool) : List Char → List (List Char)
  | [] => [[]]
  | c :: rest =>
    if isSeparator c then [] :: splitBy isSeparator rest
    else
      match splitBy isSeparator rest with
      | [] => [[c]]
      | piece :: pieces => (c :: piece) :: pieces

def splitOn (separator : Char) : List Char → List (List Char) :=
  splitBy (· == separator)

def dropTrailing (drop : Char → Bool) (cs : List Char) : List Char :=
  (cs.reverse.dropWhile drop).reverse

theorem cutFirst_eq_some {separator : Char} {cs before after : List Char}
    (h : cutFirst separator cs = some (before, after)) :
    cs = before ++ separator :: after ∧ separator ∉ before := by
  induction cs generalizing before with
  | nil => simp [cutFirst] at h
  | cons c rest ih =>
    by_cases hc : c = separator
    · simp only [cutFirst, hc, if_true, Option.some.injEq, Prod.mk.injEq] at h
      obtain ⟨rfl, rfl⟩ := h
      simp [hc]
    · simp only [cutFirst, hc, if_false] at h
      obtain ⟨⟨b, a⟩, hb, heq⟩ := Option.map_eq_some_iff.1 h
      simp only [Prod.mk.injEq] at heq
      obtain ⟨rfl, rfl⟩ := heq
      obtain ⟨rfl, hn⟩ := ih hb
      exact ⟨rfl, by simp [hn, Ne.symm hc]⟩

theorem cutLast_eq_none {separator : Char} {cs : List Char} :
    cutLast separator cs = none ↔ separator ∉ cs := by
  induction cs with
  | nil => simp [cutLast]
  | cons c rest ih =>
    cases h : cutLast separator rest with
    | some p => simp_all [cutLast]
    | none =>
      by_cases hc : c = separator
      · simp [cutLast, h, hc]
      · have := ih.1 h
        simp [cutLast, h, hc, this, Ne.symm hc]

theorem cutLast_eq_some {separator : Char} {cs before after : List Char}
    (h : cutLast separator cs = some (before, after)) :
    cs = before ++ separator :: after ∧ separator ∉ after := by
  induction cs generalizing before with
  | nil => simp [cutLast] at h
  | cons c rest ih =>
    cases hr : cutLast separator rest with
    | some p =>
      simp only [cutLast, hr, Option.some.injEq, Prod.mk.injEq] at h
      obtain ⟨rfl, rfl⟩ := h
      obtain ⟨hcs, hn⟩ := ih hr
      exact ⟨by rw [hcs]; rfl, hn⟩
    | none =>
      by_cases hc : c = separator
      · simp only [cutLast, hr, hc, if_true, Option.some.injEq, Prod.mk.injEq] at h
        obtain ⟨rfl, rfl⟩ := h
        exact ⟨by simp [hc], cutLast_eq_none.1 hr⟩
      · simp [cutLast, hr, hc] at h

end WorkflowLint.Text

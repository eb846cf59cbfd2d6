import WorkflowLint.Action.Reference

/-! What reading a reference tells about its text.

Each text is read in one of three ways, and which one is told by the marker of a path in the same
repository and by the last `@` alone. -/

set_option autoImplicit false

namespace WorkflowLint

namespace Text

theorem occursIn_iff {needle text : List Char} : occursIn needle text = true ↔ needle <:+: text := by
  induction text with
  | nil => simp [occursIn]
  | cons c rest ih =>
    rw [occursIn, Bool.or_eq_true, ih, List.infix_cons_iff, List.isPrefixOf_iff_prefix]

theorem cutLast_append {separator : Char} (before : List Char) {after : List Char}
    (last : separator ∉ after) :
    cutLast separator (before ++ separator :: after) = some (before, after) := by
  induction before with
  | nil => simp [cutLast, cutLast_eq_none.mpr last]
  | cons c rest ih => rw [List.cons_append, cutLast, ih]

end Text

namespace RemoteAction

@[simp] theorem ofParts_raw (raw : String) (path revision : List Char) :
    (ofParts raw path revision).raw = raw := by
  unfold ofParts
  split
  · rfl
  · split <;> rfl

@[simp] theorem ofParts_revision (raw : String) (path revision : List Char) :
    (ofParts raw path revision).revision = String.ofList revision := by
  unfold ofParts
  split
  · rfl
  · split <;> rfl

end RemoteAction

namespace ActionRef

/-- The three ways to read a text, each with all that it tells. -/
theorem parse_cases (text : String) :
    (inTreeMarker <:+: text.toList ∧ parse text = .inTree text) ∨
    (¬inTreeMarker <:+: text.toList ∧ '@' ∉ text.toList ∧ parse text = .unpinned text) ∨
    (¬inTreeMarker <:+: text.toList ∧ ∃ path revision, text.toList = path ++ '@' :: revision ∧
      '@' ∉ revision ∧ parse text = .remote (RemoteAction.ofParts text path revision)) := by
  unfold parse
  by_cases marked : Text.occursIn inTreeMarker text.toList = true
  · exact .inl ⟨Text.occursIn_iff.mp marked, if_pos marked⟩
  · have unmarked := fun infixed => marked (Text.occursIn_iff.mpr infixed)
    rw [if_neg marked]
    cases cut : Text.cutLast '@' text.toList with
    | none => exact .inr (.inl ⟨unmarked, Text.cutLast_eq_none.mp cut, rfl⟩)
    | some parts =>
      obtain ⟨path, revision⟩ := parts
      obtain ⟨same, last⟩ := Text.cutLast_eq_some cut
      exact .inr (.inr ⟨unmarked, path, revision, same, last, rfl⟩)

theorem parse_cut {path revision : String} (last : '@' ∉ revision.toList)
    (unmarked : ¬inTreeMarker <:+: (path ++ "@" ++ revision).toList) :
    parse (path ++ "@" ++ revision) =
      .remote (RemoteAction.ofParts (path ++ "@" ++ revision) path.toList revision.toList) := by
  have cut : (path ++ "@" ++ revision).toList = path.toList ++ '@' :: revision.toList := by simp
  obtain ⟨marked, _⟩ | ⟨_, bare, _⟩ | ⟨_, front, back, cut', last', parsed⟩ :=
    parse_cases (path ++ "@" ++ revision)
  · exact absurd marked unmarked
  · exact absurd (by simp [cut]) bare
  · -- There is one last `@` only, so this cut is the given one.
    have same := (Text.cutLast_append path.toList last).symm.trans
      (cut ▸ cut' ▸ Text.cutLast_append front last')
    cases same
    exact parsed

theorem raw_of_parse {text : String} {action : RemoteAction} (parsed : parse text = .remote action) :
    action.raw = text := by
  obtain ⟨_, other⟩ | ⟨_, _, other⟩ | ⟨_, path, revision, _, _, other⟩ := parse_cases text
  · cases other.symm.trans parsed
  · cases other.symm.trans parsed
  · cases other.symm.trans parsed
    exact RemoteAction.ofParts_raw text path revision

end ActionRef

end WorkflowLint

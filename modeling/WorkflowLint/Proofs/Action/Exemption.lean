import WorkflowLint.Proofs.Action.Reference
import WorkflowLint.Rules

/-! References that are exempt from all checks, as staying in their own repository.

The marker of such a reference is looked for in its whole text, before the text is cut. There is no `@`
in the marker, so it stands on one side of the last one: in the path or in the revision. A revision with
the marker in it exempts its reference just as a path does, and any other revision leaves it to the path. -/

set_option autoImplicit false

namespace WorkflowLint

namespace Text

variable {needle before after : List Char} {separator : Char}

theorem prefix_append_cons (free : separator ∉ needle) :
    needle <+: before ++ separator :: after ↔ needle <+: before := by
  induction before generalizing needle with
  | nil =>
    cases needle with
    | nil => simp
    | cons c rest =>
      have apart : c ≠ separator := fun same => free (same ▸ List.mem_cons_self)
      simp [List.cons_prefix_cons, apart]
  | cons first rest ih =>
    cases needle with
    | nil => simp
    | cons c others =>
      have freeOthers : separator ∉ others := fun member => free (List.mem_cons_of_mem c member)
      simp [List.cons_prefix_cons, ih freeOthers]

-- The needle must not be empty: an empty one stands in front of the separator, too.
theorem infix_append_cons (given : needle ≠ []) (free : separator ∉ needle) :
    needle <:+: before ++ separator :: after ↔ needle <:+: before ∨ needle <:+: after := by
  induction before with
  | nil =>
    have apart : ¬needle <+: [] ++ separator :: after := by
      rw [prefix_append_cons free, List.prefix_nil]
      exact given
    rw [List.nil_append] at apart ⊢
    rw [List.infix_cons_iff, List.infix_nil]
    simp only [apart, given, false_or]
  | cons first rest ih =>
    have starts : needle <+: (first :: rest) ++ separator :: after ↔ needle <+: first :: rest :=
      prefix_append_cons free
    rw [List.cons_append] at starts ⊢
    rw [List.infix_cons_iff, List.infix_cons_iff, starts, ih, or_assoc]

end Text

namespace ActionRef

theorem parse_eq_inTree {text : String} : parse text = .inTree text ↔ inTreeMarker <:+: text.toList := by
  obtain ⟨marked, parsed⟩ | ⟨unmarked, _, parsed⟩ | ⟨unmarked, _, _, _, _, parsed⟩ := parse_cases text
  · simp [parsed, marked]
  · simp [parsed, unmarked]
  · simp [parsed, unmarked]

section At

variable {path revision : String} (last : '@' ∉ revision.toList)

theorem marked_at :
    inTreeMarker <:+: (path ++ "@" ++ revision).toList ↔
      inTreeMarker <:+: path.toList ∨ inTreeMarker <:+: revision.toList := by
  have cut : (path ++ "@" ++ revision).toList = path.toList ++ '@' :: revision.toList := by simp
  rw [cut]
  exact Text.infix_append_cons (by decide) (by decide)

include last

theorem parse_at (unmarked : ¬inTreeMarker <:+: (path ++ "@" ++ revision).toList) :
    ∃ action, parse (path ++ "@" ++ revision) = .remote action ∧ action.revision = revision :=
  ⟨_, parse_cut last unmarked, by simp⟩

end At

/-- A reference is exempt just when the marker is in its path or in its revision. Any other one is remote,
and pinned to its revision. So the path alone decides where the revision has no slash, as a commit hash
has none, and where there is no revision. -/
theorem parse_exempt_iff (path revision : String) :
    let text := path ++ "@" ++ revision
    ('@' ∉ revision.toList →
      (parse text = .inTree text ↔ inTreeMarker <:+: path.toList ∨ inTreeMarker <:+: revision.toList) ∧
      (¬inTreeMarker <:+: path.toList → ¬inTreeMarker <:+: revision.toList →
        ∃ action, parse text = .remote action ∧ action.revision = revision) ∧
      ('/' ∉ revision.toList → (parse text = .inTree text ↔ inTreeMarker <:+: path.toList))) ∧
    ('@' ∉ path.toList →
      (parse path = .inTree path ↔ inTreeMarker <:+: path.toList) ∧
      (¬inTreeMarker <:+: path.toList → parse path = .unpinned path)) := by
  intro text
  constructor
  · intro last
    have exempt : parse text = .inTree text ↔
        inTreeMarker <:+: path.toList ∨ inTreeMarker <:+: revision.toList :=
      parse_eq_inTree.trans marked_at
    refine ⟨exempt, ?_, ?_⟩
    · intro plainPath plainRevision
      exact parse_at last fun marked => (marked_at.mp marked).elim plainPath plainRevision
    · intro slashless
      have plain : ¬inTreeMarker <:+: revision.toList := fun marked =>
        slashless (marked.subset (by decide))
      rw [exempt, or_iff_left plain]
  · intro unpinned
    refine ⟨parse_eq_inTree, fun unmarked => ?_⟩
    obtain ⟨marked, _⟩ | ⟨_, _, parsed⟩ | ⟨_, _, _, cut, _, _⟩ := parse_cases path
    · exact absurd marked unmarked
    · exact parsed
    · exact absurd (cut ▸ by simp) unpinned

theorem parse_exempt_branch :
    (∃ action, parse "o/r@a/b" = .remote action ∧ action.revision = "a/b") ∧
      parse "./a@v1" = .inTree "./a@v1" ∧ parse "o/r" = .unpinned "o/r" := by
  have unmarked : ∀ text : String, Text.occursIn inTreeMarker text.toList = false →
      ¬inTreeMarker <:+: text.toList := fun text absent marked => by
    simp [Text.occursIn_iff.mpr marked] at absent
  obtain ⟨_, remote, _⟩ := (parse_exempt_iff "o/r" "a/b").1 (by decide)
  obtain ⟨_, unpinned⟩ := (parse_exempt_iff "o/r" "a/b").2 (by decide)
  obtain ⟨_, _, byPath⟩ := (parse_exempt_iff "./a" "v1").1 (by decide)
  refine ⟨remote (unmarked _ (by decide)) (unmarked _ (by decide)), ?_, unpinned (unmarked _ (by decide))⟩
  exact (byPath (by decide)).mpr (Text.occursIn_iff.mp (by decide))

/-- A revision with the marker in it exempts a reference whose path has no marker: whatever the registry
would say, nothing is said about it. -/
theorem parse_exempt_revision :
    let path := "owner/repo"
    let revision := "./x"
    let text := path ++ "@" ++ revision
    ¬inTreeMarker <:+: path.toList ∧ '@' ∉ revision.toList ∧ parse text = .inTree text ∧
      ∀ (settings : RuleSettings) (registry : ActionRegistry Id) (key : String) (number : Nat),
        (Rules.uses settings registry key number text : Id (List Finding)) = [] := by
  intro path revision text
  have exempt : parse text = .inTree text := by decide
  refine ⟨mt Text.occursIn_iff.mpr (by decide), by decide, exempt, ?_⟩
  intro settings registry key number
  unfold Rules.uses
  rw [exempt]
  rfl

end ActionRef

end WorkflowLint

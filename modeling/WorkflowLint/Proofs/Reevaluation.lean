import WorkflowLint.Proofs.Additions
import WorkflowLint.Proofs.Registry.Replay

/-! Linting a workflow again with the registry that has linted it before.

The first time leaves in the memo all that the second time looks for: whether an action exists is
remembered like its newest commit, and it is the remembered answer that decides what is asked next. So
the findings are the same, however the registry's server would answer by now, and nobody asks it. -/

set_option autoImplicit false

namespace WorkflowLint

open Registry (Memo Settings Transport remembering)

theorem Registry.remembering_replays (settings : Settings) :
    Rules.Answers Registry.Task.replaying (remembering settings) .anything where
  present text := ask_replays settings (ActionRef.parse text) .presence
  update text := updateUrl_replays settings (ActionRef.parse text)

namespace Workflow

theorem findings_replay (rules : RuleSettings) (settings : Settings) (workflow : Workflow) :
    (workflow.findings rules (remembering settings)).Replays fun _ => True :=
  Registry.Task.replaying.mono (fun _ _ => trivial)
    (Rules.findings_holds rules (Registry.remembering_replays settings) workflow)

def lintInOrder (settings : Settings) (workflows : List (RuleSettings × Workflow)) :
    Registry.Task (List (List Finding)) :=
  .inOrder (workflows.map fun ruled => ruled.2.findings ruled.1 (remembering settings))

theorem lintInOrder_replays (settings : Settings) (workflows : List (RuleSettings × Workflow)) :
    (lintInOrder settings workflows).Replays fun _ => True := by
  refine Registry.Task.inOrder_holds Registry.Task.replaying fun task member => ?_
  obtain ⟨ruled, _, rfl⟩ := List.mem_map.mp member
  exact findings_replay ruled.1 settings ruled.2

/-- A workflow that was linted at any time before is linted again to the same findings and without any
request; memo and transport are left as they are. This holds from every memo, whatever workflows were
linted in between, and even if the transport never gives the same reply twice. -/
theorem findings_again (rules : RuleSettings) (settings : Settings) (workflow : Workflow)
    (between : List (RuleSettings × Workflow)) {σ : Type} (transport : Transport σ) (memo : Memo) (state : σ) :
    let task := workflow.findings rules (remembering settings)
    let first := task.run transport memo state
    let others := (lintInOrder settings between).run transport first.memo first.state
    let second := task.run transport others.memo others.state
    second.value = first.value ∧ second.requested = [] ∧
      second.memo = others.memo ∧ second.state = others.state := by
  intro task first others second
  have grown : first.memo.Extends others.memo :=
    (lintInOrder_replays settings between).grows transport first.memo first.state
  have again : second = ⟨first.value, others.memo, others.state, []⟩ :=
    (findings_replay rules settings workflow).again transport memo state grown others.state
  -- All four statements are about this one outcome.
  rw [again]
  exact ⟨rfl, rfl, rfl, rfl⟩

end Workflow

end WorkflowLint

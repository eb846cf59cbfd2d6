import WorkflowLint.Registry.Remote
import WorkflowLint.Registry.Task

/-! Action registries, as the rules see them: whether an action exists, what its newest commit is, and
where a commit can be read. The answers come in a monad, so that a registry may work for them. -/

set_option autoImplicit false

namespace WorkflowLint

structure ActionRegistry (m : Type → Type) where
  isPresent : ActionRef → m Bool
  newest : ActionRef → m (Option String)
  commitUrl : RemoteAction → String → String

namespace ActionRegistry

variable {m : Type → Type} [Monad m]

def updateUrl (registry : ActionRegistry m) (reference : ActionRef) : m (Option String) :=
  match reference with
  | .remote action => do
    let newest ← registry.newest reference
    return newest.bind fun sha =>
      if sha = action.revision then none else some (registry.commitUrl action sha)
  | _ => pure none

/-- Without a network every action exists and none has news. -/
def offline : ActionRegistry m where
  isPresent _ := pure true
  newest _ := pure none
  commitUrl := Registry.commitUrl Registry.defaultWebUrl

end ActionRegistry

namespace Registry

def rememberedPresence (settings : Settings) (action : RemoteAction) : Task Bool :=
  .recallPresence action.raw fun
    | some found => .done found
    | none => (Task.ofLookup (presence settings action)).bind fun found =>
      .keepPresence action.raw found (.done found)

/-- That there is no news is an answer too, and kept like any other. -/
def rememberedNewest (settings : Settings) (action : RemoteAction) : Task (Option String) :=
  .recallNewest action.raw fun
    | some sha => .done sha
    | none => (Task.ofLookup (newest settings action)).bind fun sha =>
      .keepNewest action.raw sha (.done sha)

def remembering (settings : Settings) : ActionRegistry Task where
  isPresent
    | .remote action => rememberedPresence settings action
    | _ => .done true
  newest
    | .remote action => rememberedNewest settings action
    | _ => .done none
  commitUrl := commitUrl settings.webUrl

end Registry

end WorkflowLint

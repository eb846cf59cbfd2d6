import WorkflowLint.Registry.Reply

/-! Lookups: questions that are settled by a few requests, each of which may depend on the replies to
those before it. -/

set_option autoImplicit false

namespace WorkflowLint.Registry

inductive Lookup (α : Type) where
  | done (value : α)
  | ask (url : String) (next : Reply → Lookup α)

namespace Lookup

variable {α σ : Type}

/-- Settles a lookup through a transport: its value, the state left, and the URLs asked, in order. -/
def run (transport : Transport σ) : Lookup α → σ → α × σ × List String
  | .done value, state => (value, state, [])
  | .ask url next, state =>
    let (reply, state) := transport url state
    let (value, state, asked) := run transport (next reply) state
    (value, state, url :: asked)

/-- Asks where there is a URL to ask; without one, or when the request fails, nothing is found. -/
def fetch (url : Option String) (next : Json → Lookup (Option α)) : Lookup (Option α) :=
  match url with
  | none => .done none
  | some url => .ask url fun
    | .ok json => next json
    | .error _ => .done none

end Lookup

end WorkflowLint.Registry

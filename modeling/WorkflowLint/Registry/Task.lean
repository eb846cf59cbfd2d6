import WorkflowLint.Registry.Lookup

/-! Work that shares a memo of answers. A task is a sequence of atomic steps: it reads the memo, writes
to it, or sends a request. Tasks that run side by side interleave between these steps. -/

set_option autoImplicit false

namespace WorkflowLint.Registry

/-- The answers so far, by the raw text of the reference; newer entries come first. -/
structure Memo where
  presence : List (String × Bool)
  newest : List (String × Option String)
  deriving DecidableEq, Repr

def Memo.empty : Memo := ⟨[], []⟩

inductive Task (α : Type) where
  | done (value : α)
  | request (url : String) (next : Reply → Task α)
  | recallPresence (raw : String) (next : Option Bool → Task α)
  | keepPresence (raw : String) (found : Bool) (next : Task α)
  | recallNewest (raw : String) (next : Option (Option String) → Task α)
  | keepNewest (raw : String) (sha : Option String) (next : Task α)

namespace Task

variable {α β σ : Type}

def bind : Task α → (α → Task β) → Task β
  | .done value, f => f value
  | .request url next, f => .request url fun reply => (next reply).bind f
  | .recallPresence raw next, f => .recallPresence raw fun known => (next known).bind f
  | .keepPresence raw found next, f => .keepPresence raw found (next.bind f)
  | .recallNewest raw next, f => .recallNewest raw fun known => (next known).bind f
  | .keepNewest raw sha next, f => .keepNewest raw sha (next.bind f)

instance : Monad Task where
  pure := .done
  bind := .bind

def ofLookup : Lookup α → Task α
  | .done value => .done value
  | .ask url next => .request url fun reply => ofLookup (next reply)

structure Outcome (α σ : Type) where
  value : α
  memo : Memo
  state : σ
  requested : List String

/-- Runs a task on its own, without steps of others in between. -/
def run (transport : Transport σ) : Task α → Memo → σ → Outcome α σ
  | .done value, memo, state => ⟨value, memo, state, []⟩
  | .request url next, memo, state =>
    let (reply, state) := transport url state
    let outcome := run transport (next reply) memo state
    { outcome with requested := url :: outcome.requested }
  | .recallPresence raw next, memo, state =>
    run transport (next (memo.presence.lookup raw)) memo state
  | .keepPresence raw found next, memo, state =>
    run transport next { memo with presence := (raw, found) :: memo.presence } state
  | .recallNewest raw next, memo, state =>
    run transport (next (memo.newest.lookup raw)) memo state
  | .keepNewest raw sha next, memo, state =>
    run transport next { memo with newest := (raw, sha) :: memo.newest } state

end Task

end WorkflowLint.Registry

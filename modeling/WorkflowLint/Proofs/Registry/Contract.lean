import WorkflowLint.Proofs.Rules.Results
import WorkflowLint.Registry.Basic

/-! What holds of a task whatever it recalls and whatever it is replied.

Other tasks may write to the memo between any two steps, so nothing is known of an entry but what
every writer keeps to. A contract says what that is, for entries, for requests and for replies. -/

set_option autoImplicit false

namespace WorkflowLint.Registry

structure Contract where
  /-- The URLs that may be requested. -/
  asks : String → Prop
  reply : String → Reply → Prop
  presence : String → Bool → Prop
  newest : String → Option String → Prop

namespace Contract

/-- Every entry that a task can find keeps to the contract. -/
structure Admits (contract : Contract) (memo : Memo) : Prop where
  presence : ∀ raw found, memo.presence.lookup raw = some found → contract.presence raw found
  newest : ∀ raw sha, memo.newest.lookup raw = some sha → contract.newest raw sha

theorem admits_empty (contract : Contract) : contract.Admits .empty where
  presence _ _ known := by simp [Memo.empty] at known
  newest _ _ known := by simp [Memo.empty] at known

theorem holds_lookup_cons {α : Type} {holds : String → α → Prop} {entries : List (String × α)}
    (valid : ∀ raw value, entries.lookup raw = some value → holds raw value) {raw : String} {value : α}
    (kept : holds raw value) :
    ∀ other found, ((raw, value) :: entries).lookup other = some found → holds other found := by
  intro other found known
  rw [List.lookup_cons] at known
  split at known
  next same =>
    cases known
    exact eq_of_beq same ▸ kept
  next => exact valid other found known

theorem Admits.keepPresence {contract : Contract} {memo : Memo} (valid : contract.Admits memo)
    {raw : String} {found : Bool} (kept : contract.presence raw found) :
    contract.Admits { memo with presence := (raw, found) :: memo.presence } where
  presence := holds_lookup_cons valid.presence kept
  newest := valid.newest

theorem Admits.keepNewest {contract : Contract} {memo : Memo} (valid : contract.Admits memo)
    {raw : String} {sha : Option String} (kept : contract.newest raw sha) :
    contract.Admits { memo with newest := (raw, sha) :: memo.newest } where
  presence := valid.presence
  newest := holds_lookup_cons valid.newest kept

end Contract

def Contract.onRequests (asks : String → Prop) (replies : String → Reply → Prop) : Contract where
  asks := asks
  reply := replies
  presence _ _ := True
  newest _ _ := True

theorem Contract.onRequests_admits (asks : String → Prop) (replies : String → Reply → Prop)
    (memo : Memo) : (onRequests asks replies).Admits memo :=
  ⟨fun _ _ _ => trivial, fun _ _ _ => trivial⟩

namespace Task

variable {α β σ : Type} {contract : Contract}

/-- The task keeps to the contract, and its value satisfies `post`, as long as all others keep to it. -/
def Ensures (contract : Contract) (post : α → Prop) : Task α → Prop
  | .done value => post value
  | .request url next =>
    contract.asks url ∧ ∀ reply, contract.reply url reply → (next reply).Ensures contract post
  | .recallPresence raw next =>
    ∀ known, (∀ found, known = some found → contract.presence raw found) →
      (next known).Ensures contract post
  | .keepPresence raw found next => contract.presence raw found ∧ next.Ensures contract post
  | .recallNewest raw next =>
    ∀ known, (∀ sha, known = some sha → contract.newest raw sha) → (next known).Ensures contract post
  | .keepNewest raw sha next => contract.newest raw sha ∧ next.Ensures contract post

theorem Ensures.mono {post weaker : α → Prop} (implies : ∀ value, post value → weaker value)
    {task : Task α} (ensured : task.Ensures contract post) : task.Ensures contract weaker := by
  induction task with
  | done value => exact implies value ensured
  | request url next ih => exact ⟨ensured.1, fun reply ok => ih reply (ensured.2 reply ok)⟩
  | recallPresence raw next ih => exact fun known ok => ih known (ensured known ok)
  | keepPresence raw found next ih => exact ⟨ensured.1, ih ensured.2⟩
  | recallNewest raw next ih => exact fun known ok => ih known (ensured known ok)
  | keepNewest raw sha next ih => exact ⟨ensured.1, ih ensured.2⟩

theorem ensures_bind {post : α → Prop} {out : β → Prop} {task : Task α} {next : α → Task β}
    (first : task.Ensures contract post) (rest : ∀ value, post value → (next value).Ensures contract out) :
    (task.bind next).Ensures contract out := by
  induction task with
  | done value => exact rest value first
  | request url cont ih => exact ⟨first.1, fun reply ok => ih reply (first.2 reply ok)⟩
  | recallPresence raw cont ih => exact fun known ok => ih known (first known ok)
  | keepPresence raw found cont ih => exact ⟨first.1, ih first.2⟩
  | recallNewest raw cont ih => exact fun known ok => ih known (first known ok)
  | keepNewest raw sha cont ih => exact ⟨first.1, ih first.2⟩

theorem ensures_anything (replies : String → Reply → Prop) (task : Task α) :
    task.Ensures (.onRequests (fun _ => True) replies) fun _ => True := by
  induction task with
  | done value => trivial
  | request url next ih => exact ⟨trivial, fun reply _ => ih reply⟩
  | recallPresence raw next ih => exact fun known _ => ih known
  | keepPresence raw found next ih => exact ⟨trivial, ih⟩
  | recallNewest raw next ih => exact fun known _ => ih known
  | keepNewest raw sha next ih => exact ⟨trivial, ih⟩

/-- The rules can be followed through tasks that keep to a contract. -/
def results (contract : Contract) : ResultLogic Task where
  Holds task post := task.Ensures contract post
  pure holds := holds
  bind first rest := ensures_bind first rest
  mono implies ensured := ensured.mono implies

/-- A task on its own, from a memo and through a transport that keep to the contract. -/
theorem Ensures.run {post : α → Prop} {task : Task α} (ensured : task.Ensures contract post)
    {transport : Transport σ} (replies : ∀ url state, contract.reply url (transport url state).1)
    {memo : Memo} (valid : contract.Admits memo) (state : σ) :
    post (task.run transport memo state).value ∧
      contract.Admits (task.run transport memo state).memo ∧
      ∀ url ∈ (task.run transport memo state).requested, contract.asks url := by
  induction task generalizing memo state with
  | done value => exact ⟨ensured, valid, by simp [Task.run]⟩
  | request url next ih =>
    have rest := ih (transport url state).1 (ensured.2 _ (replies url state)) valid
      (transport url state).2
    refine ⟨rest.1, rest.2.1, ?_⟩
    intro other member
    rcases List.mem_cons.mp member with rfl | member
    · exact ensured.1
    · exact rest.2.2 other member
  | recallPresence raw next ih => exact ih _ (ensured _ (valid.presence raw)) valid state
  | keepPresence raw found next ih => exact ih ensured.2 (valid.keepPresence ensured.1) state
  | recallNewest raw next ih => exact ih _ (ensured _ (valid.newest raw)) valid state
  | keepNewest raw sha next ih => exact ih ensured.2 (valid.keepNewest ensured.1) state

def log (transport : Transport σ) : Task α → Memo → σ → List (String × Reply)
  | .done _, _, _ => []
  | .request url next, memo, state =>
    let (reply, state) := transport url state
    (url, reply) :: log transport (next reply) memo state
  | .recallPresence raw next, memo, state => log transport (next (memo.presence.lookup raw)) memo state
  | .keepPresence raw found next, memo, state =>
    log transport next { memo with presence := (raw, found) :: memo.presence } state
  | .recallNewest raw next, memo, state => log transport (next (memo.newest.lookup raw)) memo state
  | .keepNewest raw sha next, memo, state =>
    log transport next { memo with newest := (raw, sha) :: memo.newest } state

/-- What is requested keeps to a contract as soon as the replies of the run itself do. -/
theorem Ensures.requested {post : α → Prop} {task : Task α} (ensured : task.Ensures contract post)
    {transport : Transport σ} {memo : Memo} (valid : contract.Admits memo) (state : σ)
    (replied : ∀ exchange ∈ task.log transport memo state, contract.reply exchange.1 exchange.2) :
    ∀ url ∈ (task.run transport memo state).requested, contract.asks url := by
  induction task generalizing memo state with
  | done value => simp [Task.run]
  | request url next ih =>
    have first := replied (url, (transport url state).1) (.head _)
    have rest := ih _ (ensured.2 _ first) valid (transport url state).2
      fun exchange member => replied exchange (.tail _ member)
    intro other member
    rcases List.mem_cons.mp member with rfl | member
    · exact ensured.1
    · exact rest other member
  | recallPresence raw next ih => exact ih _ (ensured _ (valid.presence raw)) valid state replied
  | keepPresence raw found next ih => exact ih ensured.2 (valid.keepPresence ensured.1) state replied
  | recallNewest raw next ih => exact ih _ (ensured _ (valid.newest raw)) valid state replied
  | keepNewest raw sha next ih => exact ih ensured.2 (valid.keepNewest ensured.1) state replied

end Task

end WorkflowLint.Registry

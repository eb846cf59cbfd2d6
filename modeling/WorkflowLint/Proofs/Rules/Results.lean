import Mathlib.Data.List.Basic
import WorkflowLint.Rules

/-! What can be told of the results of rules without knowing the registry they ask.

The rules run in any monad. A logic of results says which predicates hold of every result of a program
in it; the statements here follow the rules from the answers of a registry to the findings. -/

set_option autoImplicit false

namespace WorkflowLint

/-- A judgement on programs that sees only what they result in, and follows them step by step. -/
structure ResultLogic (m : Type → Type) [Monad m] where
  Holds : {α : Type} → m α → (α → Prop) → Prop
  pure : ∀ {α : Type} {value : α} {post : α → Prop}, post value → Holds (Pure.pure value) post
  bind : ∀ {α β : Type} {first : m α} {next : α → m β} {post : α → Prop} {out : β → Prop},
    Holds first post → (∀ value, post value → Holds (next value) out) → Holds (first >>= next) out
  mono : ∀ {α : Type} {program : m α} {post weaker : α → Prop},
    (∀ value, post value → weaker value) → Holds program post → Holds program weaker

namespace ResultLogic

def ofId : ResultLogic Id where
  Holds program post := post program
  pure holds := holds
  bind first rest := rest _ first
  mono implies holds := implies _ holds

def ofState (σ : Type) : ResultLogic (StateM σ) where
  Holds program post := ∀ state, post (program.run state).1
  pure holds _ := holds
  bind first rest state := rest _ (first state) _
  mono implies holds state := implies _ (holds state)

end ResultLogic

namespace Rules

variable {m : Type → Type} [Monad m]

def collectFrom {α β : Type} (f : α → Nat → m (List β)) : Nat → List α → m (List β)
  | _, [] => pure []
  | start, item :: rest => do
    let first ← f item start
    let others ← collectFrom f (start + 1) rest
    return first ++ others

theorem collect_eq_collectFrom {α β : Type} (f : α → m (List β)) (start : Nat) (items : List α) :
    collect f items = collectFrom (fun item _ => f item) start items := by
  induction items generalizing start with
  | nil => rfl
  | cons item rest ih => simp only [collect, collectFrom, ih (start + 1)]

theorem steps_eq_collectFrom (settings : RuleSettings) (registry : ActionRegistry m) (key : String)
    (start : Nat) (items : List Step) :
    steps settings registry key start items =
      collectFrom (fun item number => step settings registry key number item) start items := by
  induction items generalizing start with
  | nil => rfl
  | cons item rest ih => simp only [steps, collectFrom, ih]

variable (logic : ResultLogic m)

/-- Where each item results in a part that some witness explains, all parts together are explained by
a witness for each place. -/
theorem collectFrom_holds {α β ω : Type} [Inhabited ω] {f : α → Nat → m (List β)}
    {part : α → Nat → ω → List β} {explains : α → Nat → ω → Prop} (start : Nat) (items : List α)
    (each : ∀ item place, (item, place) ∈ items.zipIdx start →
      logic.Holds (f item place) fun found =>
        ∃ witness, explains item place witness ∧ found = part item place witness) :
    logic.Holds (collectFrom f start items) fun found => ∃ witness : Nat → ω,
      (∀ item place, (item, place) ∈ items.zipIdx start → explains item place (witness place)) ∧
      found = (items.zipIdx start).flatMap fun entry => part entry.1 entry.2 (witness entry.2) := by
  induction items generalizing start with
  | nil => exact logic.pure ⟨fun _ => default, by simp, rfl⟩
  | cons item rest ih =>
    unfold collectFrom
    refine logic.bind (each item start (by simp)) ?_
    rintro _ ⟨first, explained, rfl⟩
    refine logic.bind (ih (start + 1) fun item place member => each item place (by simp [member])) ?_
    rintro _ ⟨others, othersExplained, rfl⟩
    -- The places of the rest all come behind `start`, so one function serves both.
    have behind : ∀ item place, (item, place) ∈ rest.zipIdx (start + 1) → place ≠ start := by
      intro item place member
      have := List.le_snd_of_mem_zipIdx member
      omega
    refine logic.pure ⟨Function.update others start first, ?_, ?_⟩
    · intro other place member
      rcases List.mem_cons.mp (List.zipIdx_cons ▸ member) with same | member
      · obtain ⟨rfl, rfl⟩ := Prod.mk.inj same
        simpa using explained
      · rw [Function.update_of_ne (behind other place member)]
        exact othersExplained other place member
    · rw [List.zipIdx_cons, List.flatMap_cons, Function.update_self]
      refine congrArg (part item start first ++ ·) (List.flatMap_congr fun entry member => ?_)
      rw [Function.update_of_ne (behind entry.1 entry.2 member)]

end Rules

end WorkflowLint

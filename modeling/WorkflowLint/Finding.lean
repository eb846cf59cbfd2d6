/-! Findings: what a rule says about a workflow file, how much one weighs, and the exit code that the
weight of a run leads to. -/

set_option autoImplicit false

namespace WorkflowLint

inductive Level where
  | warning
  | error
  deriving DecidableEq, Repr

def Level.name : Level → String
  | .warning => "warning"
  | .error => "error"

/-- The weight of a set of findings: `none < warning < error`. -/
inductive Severity where
  | none
  | warning
  | error
  deriving DecidableEq, Repr

namespace Severity

def name : Severity → String
  | .none => "none"
  | .warning => "warning"
  | .error => "error"

def rank : Severity → Nat
  | .none => 0
  | .warning => 1
  | .error => 2

instance : Max Severity where
  max a b := if a.rank ≤ b.rank then b else a

theorem rank_max (a b : Severity) : (max a b).rank = max a.rank b.rank := by
  cases a <;> cases b <;> rfl

/-- Errors always fail a run, with code 2; warnings fail a strict run only, with code 1. -/
def exitCode (strict : Bool) : Severity → Nat
  | .error => 2
  | .warning => if strict then 1 else 0
  | .none => 0

end Severity

def Level.severity : Level → Severity
  | .warning => .warning
  | .error => .error

structure Finding where
  level : Level
  description : String
  deriving DecidableEq, Repr

namespace Finding

def warning (description : String) : Finding := ⟨.warning, description⟩

def error (description : String) : Finding := ⟨.error, description⟩

def severity (findings : List Finding) : Severity :=
  findings.foldr (fun f rest => max f.level.severity rest) .none

@[simp] theorem severity_nil : severity [] = .none := rfl

@[simp] theorem severity_cons (f : Finding) (rest : List Finding) :
    severity (f :: rest) = max f.level.severity (severity rest) := rfl

theorem severity_append (fs gs : List Finding) :
    severity (fs ++ gs) = max (severity fs) (severity gs) := by
  induction fs with
  | nil => cases h : severity gs <;> simp [h] <;> rfl
  | cons f rest ih =>
    rw [List.cons_append, severity_cons, ih, severity_cons]
    cases f.level <;> cases severity rest <;> cases severity gs <;> rfl

end Finding

end WorkflowLint

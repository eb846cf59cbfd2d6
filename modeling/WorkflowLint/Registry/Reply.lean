import WorkflowLint.Json.Basic

/-! What a request to an action registry comes back with. -/

set_option autoImplicit false

namespace WorkflowLint.Registry

inductive Failure where
  | notFound
  | rateLimited
  | unauthorized
  | status (code : Nat)
  | network (reason : String)
  | decode (reason : String)
  deriving DecidableEq, Repr

def Failure.message : Failure → String
  | .notFound => "not found"
  | .rateLimited => "rate limit exceeded"
  | .unauthorized => "unauthorized"
  | .status code => "unexpected HTTP status " ++ toString code
  | .network reason => "network error: " ++ reason
  | .decode reason => "unexpected response: " ++ reason

abbrev Reply := Except Failure Json

abbrev Transport (σ : Type) := String → σ → Reply × σ

def Transport.fixed {σ : Type} (answer : String → Reply) : Transport σ :=
  fun url state => (answer url, state)

end WorkflowLint.Registry

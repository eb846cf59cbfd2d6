import WorkflowLint.Registry.Reply
import WorkflowLint.Text.Blank

/-! What the status of a response says about a request that did not succeed. -/

set_option autoImplicit false

namespace WorkflowLint.Http

def isSuccess (status : Nat) : Bool := 200 ≤ status && status < 300

/-- An exhausted quota is told by 429, or by 403 with no request remaining; any other 403 is a matter
of permission. -/
def failureOf (status : Nat) (remaining : Option String) : Registry.Failure :=
  if status = 404 then .notFound
  else if status = 401 then .unauthorized
  else if status = 429 then .rateLimited
  else if status = 403 then
    if (remaining.map fun text => Text.trim text.toList) = some ['0'] then .rateLimited else .unauthorized
  else .status status

end WorkflowLint.Http

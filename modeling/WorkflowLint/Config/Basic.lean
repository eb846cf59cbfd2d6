/-! Configurations as they are written: each part and each field may be left out. -/

set_option autoImplicit false

namespace WorkflowLint

structure RulesConfig where
  internalNamespace : Option String := none
  floatingRunnerMarker : Option String := none
  deriving DecidableEq, Repr

structure RegistryConfig where
  apiUrl : Option String := none
  webUrl : Option String := none
  /-- In seconds. -/
  timeout : Option Nat := none
  /-- The environment variable that holds the token. -/
  tokenVariable : Option String := none
  offline : Option Bool := none
  deriving DecidableEq, Repr

structure Config where
  output : Option String := none
  strict : Option Bool := none
  rules : Option RulesConfig := none
  registry : Option RegistryConfig := none
  deriving DecidableEq, Repr

end WorkflowLint

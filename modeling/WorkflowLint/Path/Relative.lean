import WorkflowLint.Path.Basic

/-! How a path is written from a base directory. -/

set_option autoImplicit false

namespace WorkflowLint.Path

/-- The components that lead from a base to a path; none where that cannot be told. Only what both
start with is left out, so nothing is once a component has been taken over (`started`). -/
def stepsFrom : Bool → List Component → List Component → Option (List Component)
  | _, [], path => some path
  | _, _ :: base, [] => some (.up :: base.map fun _ => .up)
  | started, b :: base, p :: path =>
    if !started && p = b then stepsFrom false base path
    else
      match b with
      | .here => (stepsFrom true base path).map (p :: ·)
      | .up => none
      | _ => some ((.up :: base.map fun _ => .up) ++ p :: path)

def ofComponents : List Component → Path
  | [] => ⟨""⟩
  | .root :: rest => ⟨"/" ++ "/".intercalate (rest.map Component.text)⟩
  | components => ⟨"/".intercalate (components.map Component.text)⟩

/-- The path from a base directory. An absolute path that a relative base says nothing about stays. -/
def relativeTo (base path : Path) : Option Path :=
  if path.isAbsolute = base.isAbsolute then
    (stepsFrom false base.components path.components).map ofComponents
  else if path.isAbsolute then some path else none

/-- The name under which a file is shown: its path from the base directory where it lies below that,
else the path as it was given. -/
def shownFrom (base path : Path) : String :=
  match relativeTo base path with
  | some short =>
    if short.text.isEmpty || short.components.head? = some .up then path.text else short.text
  | none => path.text

end WorkflowLint.Path

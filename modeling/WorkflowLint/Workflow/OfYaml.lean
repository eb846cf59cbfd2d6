import WorkflowLint.Workflow
import WorkflowLint.Yaml.Decoder.Any

/-! Workflows from YAML documents. -/

set_option autoImplicit false

namespace WorkflowLint

open Yaml (Decoder)

/-- A text is one label, and a sequence of texts are several; any other value is a group. -/
def RunsOn.ofValue : Yaml.Value → RunsOn
  | .string text => .label text
  | .sequence items =>
    let texts := items.mapM fun
      | .string text => some text
      | _ => none
    match texts with
    | some texts => .labels texts
    | none => .other
  | _ => .other

def RunsOn.decode (context : Yaml.Context) (node : Yaml.Node) : Decoder RunsOn := do
  let value ← Decoder.untaggedValue context node
  if value.keysAreUnique then return .ofValue value
  else throw (.data (.noVariant "RunsOn") none)

def decodeOptionalText : Yaml.Context → Yaml.Node → Decoder (Option String) :=
  Decoder.optional (Decoder.text "a string")

def Step.decode : Yaml.Context → Yaml.Node → Decoder Step :=
  Decoder.record "struct Step"
    [("name", fun context step node => return { step with name := ← decodeOptionalText context node }),
      ("uses", fun context step node => return { step with uses := ← decodeOptionalText context node }),
      ("run", fun context step node => return { step with run := ← decodeOptionalText context node })]
    {}

/-- The names of variables. Their values have to be values, but do not matter. -/
def decodeNames (context : Yaml.Context) (node : Yaml.Node) : Decoder (List String) := do
  return (← Decoder.table Decoder.value context node).map Prod.fst

def Job.decode : Yaml.Context → Yaml.Node → Decoder Job :=
  Decoder.record "struct Job"
    [("name", fun context job node => return { job with name := ← decodeOptionalText context node }),
      ("runs-on", fun context job node =>
        return { job with runsOn := ← Decoder.optional RunsOn.decode context node }),
      ("env", fun context job node =>
        return { job with env := ← Decoder.optional decodeNames context node }),
      ("steps", fun context job node =>
        return { job with steps := ← Decoder.list Step.decode context node })]
    {}

def Workflow.decode : Yaml.Context → Yaml.Node → Decoder Workflow :=
  Decoder.record "struct WorkflowDocument"
    [("name", fun context workflow node =>
        return { workflow with name := ← decodeOptionalText context node }),
      ("jobs", fun context workflow node =>
        return { workflow with jobs := ← Decoder.optional (Decoder.table Job.decode) context node })]
    {}

def Workflow.ofYaml (text : String) : Except Yaml.Error Workflow :=
  Decoder.run Workflow.decode text

end WorkflowLint

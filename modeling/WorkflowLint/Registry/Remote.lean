import WorkflowLint.Registry.Lookup
import WorkflowLint.Registry.Settings

/-! The two questions about an action, answered by requests alone. An internal action is known by the
commits of its subpath; any other by its repository, its latest release and the tag of that release. -/

set_option autoImplicit false

namespace WorkflowLint.Registry

variable (settings : Settings)

def textAt? (name : String) (json : Json) : Option String :=
  (json.member? name).bind Json.text?

/-- Whether the commits in a reply leave room for the action: only an empty list rules it out. -/
def hasCommits : Json → Bool
  | .array commits => !commits.isEmpty
  | _ => true

/-- A failure says that the action is missing only when the registry says so itself. -/
def saysPresent (accepts : Json → Bool) : Reply → Bool
  | .ok json => accepts json
  | .error .notFound => false
  | .error _ => true

/-- Whether the action exists. Where there is nothing to ask, it does. -/
def presence (action : RemoteAction) : Lookup Bool :=
  match settings.historyUrl action with
  | some url => .ask url fun reply => .done (saysPresent hasCommits reply)
  | none =>
    match settings.repositoryUrl action with
    | some url => .ask url fun reply => .done (saysPresent (fun _ => true) reply)
    | none => .done true

/-- The commit that a tag's reference leads to: its own object, or else the one that object points at. -/
def commitOfTag (reference : Json) : Lookup (Option String) :=
  match reference.member? "object" with
  | none => .done none
  | some object =>
    if textAt? "type" object = some "commit" then .done (textAt? "sha" object)
    else
      .fetch (textAt? "url" object) fun tag => .done ((tag.member? "object").bind (textAt? "sha"))

def newest (action : RemoteAction) : Lookup (Option String) :=
  match settings.historyUrl action with
  | some url => .fetch (some url) fun commits => .done ((commits.item? 0).bind (textAt? "sha"))
  | none =>
    .fetch (settings.releaseUrl action) fun release =>
      .fetch ((textAt? "tag_name" release).bind (settings.tagUrl action)) commitOfTag

end WorkflowLint.Registry

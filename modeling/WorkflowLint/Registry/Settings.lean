import WorkflowLint.Action.Reference
import WorkflowLint.Url.Extend
import WorkflowLint.Url.Reader

/-! Where a registry is found, and the URLs under which it answers for an action. -/

set_option autoImplicit false

namespace WorkflowLint.Registry

def defaultApiUrl : String := "https://api.github.com"

def defaultWebUrl : String := "https://github.com"

structure Settings where
  apiUrl : String := defaultApiUrl
  webUrl : String := defaultWebUrl
  /-- The owner whose actions share repositories, one per subpath. -/
  internalNamespace : String := "bitwarden"
  deriving DecidableEq, Repr

def withoutTrailingSlashes (url : String) : String :=
  String.ofList (Text.dropTrailing (· == '/') url.toList)

namespace Settings

/-- The URL below the repository of an action, where it names one and the base URL can be used. -/
def endpoint (settings : Settings) (action : RemoteAction) (extra : List String) : Option Url := do
  let repo ← action.repo
  let base ← Url.parse (withoutTrailingSlashes settings.apiUrl)
  base.extendPath ("repos" :: action.owner :: repo :: extra)

def historyUrl (settings : Settings) (action : RemoteAction) : Option String :=
  if action.isInternal settings.internalNamespace then do
    let subpath ← action.subpath
    let url ← settings.endpoint action ["commits"]
    return (url.appendPair "path" subpath).text
  else none

def repositoryUrl (settings : Settings) (action : RemoteAction) : Option String :=
  (settings.endpoint action []).map Url.text

def releaseUrl (settings : Settings) (action : RemoteAction) : Option String :=
  (settings.endpoint action ["releases", "latest"]).map Url.text

/-- The reference of a tag; a slash in its name separates segments. -/
def tagUrl (settings : Settings) (action : RemoteAction) (tag : String) : Option String :=
  let pieces := (Text.splitOn '/' tag.toList).map String.ofList
  (settings.endpoint action (["git", "ref", "tags"] ++ pieces)).map Url.text

end Settings

/-- The page of a commit below the web URL; an action without repository is named by its owner. -/
def commitUrl (webUrl : String) (action : RemoteAction) (sha : String) : String :=
  withoutTrailingSlashes webUrl ++ "/" ++ action.repository.getD action.owner ++ "/commit/" ++ sha

end WorkflowLint.Registry

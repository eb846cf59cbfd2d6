import WorkflowLint.Http.Message
import WorkflowLint.Http.Status
import WorkflowLint.Json.Reader
import WorkflowLint.Text.Base64
import WorkflowLint.Url.Reader

/-! The client that looks up JSON documents over HTTP. It follows redirects, tells a server who asks,
and makes a reply of the final response. -/

set_option autoImplicit false

namespace WorkflowLint.Http

structure Client where
  token : Option String
  deriving DecidableEq, Repr

/-- A blank token is none. -/
def Client.ofToken (token : Option String) : Client :=
  ⟨token.filter fun text => !(Text.trim text.toList).isEmpty⟩

def credentials (url : Url) : Option String :=
  if url.username.isEmpty && url.password.isEmpty then none
  else do
    let user ← String.fromUTF8? ⟨(Url.percentDecode url.username.toList).toArray⟩
    let password := (String.fromUTF8? ⟨(Url.percentDecode url.password.toList).toArray⟩).getD ""
    return user ++ ":" ++ password

def basicAuthorization (credentials : String) : String :=
  "Basic " ++ String.ofList (Text.base64 credentials.toUTF8.toList)

def bearerAuthorization (token : String) : String := "Bearer " ++ token

def withoutCredentials (url : Url) : Url := { url with username := "", password := "" }

def isHttp (url : Url) : Bool := url.scheme = "http" || url.scheme = "https"

/-- The first request for a URL. There is none for a token that no header can carry, nor for a URL
that is not one of HTTP. -/
def Client.request (client : Client) (url : String) : Option Request := do
  let url ← Url.parse url
  if !isHttp url then none
  else if (client.token.map fun token => token.toList.all isHeaderChar) = some false then none
  else
    return {
      url := withoutCredentials url
      authorization :=
        (credentials url).map basicAuthorization <|> client.token.map bearerAuthorization }

def isRedirect (status : Nat) : Bool := [301, 302, 303, 307, 308].contains status

def redirection (request : Request) (response : Response) : Option Url :=
  if isRedirect response.status then (response.header? "location").bind (Url.join request.url)
  else none

/-- The request that a redirect leads to. Only the same host and port are told who asks. -/
def redirected (request : Request) (url : Url) : Request :=
  { url := url
    authorization :=
      if url.host = request.url.host && url.knownPort = request.url.knownPort then
        request.authorization
      else none }

def redirectLimit : Nat := 10

def exchange {σ : Type} (server : Server σ) (redirects : Nat) (request : Request) (state : σ) :
    Except Registry.Failure Response × σ :=
  match server request state with
  | (none, state) => (.error (.network "no answer"), state)
  | (some response, state) =>
    match redirection request response, redirects with
    | none, _ => (.ok response, state)
    | some _, 0 => (.error (.network "too many redirects"), state)
    | some url, redirects + 1 =>
      if isHttp url then exchange server redirects (redirected request url) state
      else (.error (.network "redirect to a foreign scheme"), state)

/-- The value of a header as text; a value beyond printable ASCII is none. -/
def visible? (value : String) : Option String :=
  if value.toList.all fun c => c = '\t' || Url.isPlain c then some value else none

/-- A successful response has to carry a JSON document; any other one is a failure of its status. -/
def replyOf (response : Response) : Registry.Reply :=
  if isSuccess response.status then
    match (String.fromUTF8? response.content).bind Json.read with
    | some json => .ok json
    | none => .error (.decode "not a JSON document")
  else
    .error (failureOf response.status ((response.header? "x-ratelimit-remaining").bind visible?))

def Client.transport {σ : Type} (client : Client) (server : Server σ) : Registry.Transport σ :=
  fun url state =>
    match client.request url with
    | none => (.error (.network "not a usable request"), state)
    | some request =>
      match exchange server redirectLimit request state with
      | (.ok response, state) => (replyOf response, state)
      | (.error failure, state) => (.error failure, state)

end WorkflowLint.Http

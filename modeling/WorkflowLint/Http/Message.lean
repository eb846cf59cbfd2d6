import WorkflowLint.Url.Basic

/-! Requests and responses of HTTP, as far as lookups use them. -/

set_option autoImplicit false

namespace WorkflowLint.Http

structure Request where
  url : Url
  authorization : Option String
  deriving DecidableEq, Repr

namespace Request

def method : String := "GET"

def accept : String := "application/vnd.github+json"

def userAgent : String := "wflint/0.1.0"

end Request

structure Response where
  status : Nat
  headers : List (String × String)
  body : ByteArray

/-- Answers requests, from a state that they change, or leaves them without an answer. -/
abbrev Server (σ : Type) := Request → σ → Option Response × σ

def unreachable {σ : Type} : Server σ := fun _ state => (none, state)

def isHeaderChar (c : Char) : Bool := c = '\t' || (0x20 ≤ c.toNat && c.toNat ≠ 0x7F)

namespace Response

def trimValue (value : String) : String :=
  let isPadding (c : Char) : Bool := c = ' ' || c = '\t'
  String.ofList ((value.toList.dropWhile isPadding).reverse.dropWhile isPadding).reverse

def lowercase (name : String) : String := String.ofList (name.toList.map Char.toLower)

/-- The value of the first header of that name, which is given in small letters. -/
def header? (name : String) (response : Response) : Option String :=
  (response.headers.find? fun header => lowercase header.1 = name).map fun header => trimValue header.2

/-- A response of status 204 has no content, whatever comes behind its headers. -/
def content (response : Response) : ByteArray :=
  if response.status = 204 then .empty else response.body

end Response

end WorkflowLint.Http

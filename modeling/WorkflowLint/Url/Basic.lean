import WorkflowLint.Url.Percent

/-! URLs by their parts, and as text. -/

set_option autoImplicit false

namespace WorkflowLint

namespace Url

inductive Host where
  | name (text : String)
  | ipv4 (address : Nat)
  /-- Eight pieces of 16 bits. -/
  | ipv6 (pieces : List Nat)
  deriving DecidableEq, Repr

/-- A rooted path is the list of what stands after each of its slashes; any other path is one text,
and a URL that has one cannot be a base for others. -/
inductive Path where
  | rootless (text : String)
  | rooted (segments : List String)
  deriving DecidableEq, Repr

end Url

structure Url where
  scheme : String
  username : String
  password : String
  host : Option Url.Host
  port : Option Nat
  path : Url.Path
  query : Option String
  fragment : Option String
  deriving DecidableEq, Repr

namespace Url

/-- The schemes whose URLs always have a host and a rooted path, with their usual ports. -/
def specialSchemes : List (String × Option Nat) :=
  [("http", some 80), ("https", some 443), ("ws", some 80), ("wss", some 443), ("ftp", some 21),
    ("file", none)]

def isSpecialScheme (scheme : String) : Bool := (specialSchemes.lookup scheme).isSome

def defaultPort (scheme : String) : Option Nat := (specialSchemes.lookup scheme).join

def isSpecial (url : Url) : Bool := isSpecialScheme url.scheme

def canBeBase (url : Url) : Bool :=
  match url.path with
  | .rooted _ => true
  | .rootless _ => false

def knownPort (url : Url) : Option Nat := url.port <|> defaultPort url.scheme

def hexText (n : Nat) : String := String.ofList (Nat.toDigits 16 n)

def leadingZeros (pieces : List Nat) : Nat := (pieces.takeWhile (· == 0)).length

/-- The start and length of the first longest run of at least two zeros. -/
def longestZeros (pieces : List Nat) : Option (Nat × Nat) :=
  let runs := (List.range pieces.length).map fun i => (i, leadingZeros (pieces.drop i))
  runs.foldl (fun best run =>
    if run.2 < 2 then best
    else match best with
      | some b => if b.2 < run.2 then some run else best
      | none => some run) none

def colonJoined (pieces : List Nat) : String := ":".intercalate (pieces.map hexText)

def Host.text : Host → String
  | .name text => text
  | .ipv4 address =>
    ".".intercalate ([16777216, 65536, 256, 1].map fun unit => toString (address / unit % 256))
  | .ipv6 pieces =>
    match longestZeros pieces with
    | none => "[" ++ colonJoined pieces ++ "]"
    | some (start, length) =>
      "[" ++ colonJoined (pieces.take start) ++ "::" ++ colonJoined (pieces.drop (start + length)) ++ "]"

def Path.text : Path → String
  | .rootless text => text
  | .rooted segments => String.join (segments.map ("/" ++ ·))

def userinfoText (url : Url) : String :=
  if url.username.isEmpty && url.password.isEmpty then ""
  else url.username ++ (if url.password.isEmpty then "" else ":" ++ url.password) ++ "@"

def portText (url : Url) : String :=
  match url.port with
  | some port => ":" ++ toString port
  | none => ""

/-- A rooted path without a host may not look like one. -/
def pathGuard (url : Url) : String :=
  match url.host, url.path with
  | none, .rooted ("" :: _ :: _) => "/."
  | _, _ => ""

def queryText (url : Url) : String :=
  match url.query with
  | some query => "?" ++ query
  | none => ""

def fragmentText (url : Url) : String :=
  match url.fragment with
  | some fragment => "#" ++ fragment
  | none => ""

def text (url : Url) : String :=
  url.scheme ++ ":" ++
    (match url.host with
      | some host => "//" ++ url.userinfoText ++ host.text ++ url.portText
      | none => url.pathGuard) ++
    url.path.text ++ url.queryText ++ url.fragmentText

def target (url : Url) : String := url.path.text ++ url.queryText

end Url

end WorkflowLint

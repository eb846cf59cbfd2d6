import WorkflowLint.Url.Basic

/-! Adding to a URL: segments behind its path, and pairs behind its query. What is added is encoded, so
that it stays one segment or one component. -/

set_option autoImplicit false

namespace WorkflowLint.Url

def withoutBreaks (segment : String) : List Char :=
  segment.toList.filter fun c => c != '\t' && c != '\n' && c != '\r'

/-- A path that is only a slash has one empty segment, which the first one pushed replaces. -/
def pushEncoded (segments : List String) (segment : String) : List String :=
  if segments = [""] then [segment] else segments ++ [segment]

/-- What is left when a segment that reads as two dots comes behind a path. -/
def climb (segments : List String) : List String := segments.dropLast ++ [""]

/-- Adds one segment. The segments `.` and `..` are left out; with breaks inside, which go, they are
read like the dots of a path. -/
def pushSegment (special file : Bool) (segments : List String) (segment : String) : List String :=
  if segment = "." || segment = ".." then segments
  else
    let plain := withoutBreaks segment
    let pushed :=
      if plain = ['.', '.'] then climb segments
      else if plain = ['.'] then pushEncoded segments ""
      else pushEncoded segments (String.ofList (percentEncode (keptInSegment special) plain))
    if file then
      match pushed.dropWhile String.isEmpty with
      | [] => [""]
      | rest => rest
    else pushed

/-- A trailing slash ends in an empty segment, which gives way to the segments added. -/
def dropTrailingEmpty (segments : List String) : List String :=
  match segments with
  | [] => []
  | [only] => [only]
  | _ => if segments.getLast? = some "" then segments.dropLast else segments

def extendPath (url : Url) (segments : List String) : Option Url :=
  match url.path with
  | .rootless _ => none
  | .rooted base =>
    let start := dropTrailingEmpty base
    let push := pushSegment url.isSpecial (url.scheme == "file")
    some { url with path := .rooted (segments.foldl push start) }

def appendPair (url : Url) (name value : String) : Url :=
  let pair := String.ofList (formEncode name.toList ++ '=' :: formEncode value.toList)
  match url.query with
  | none => { url with query := some pair }
  | some query => { url with query := some (if query.isEmpty then pair else query ++ "&" ++ pair) }

end WorkflowLint.Url

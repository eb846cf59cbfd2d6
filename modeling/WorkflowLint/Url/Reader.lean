import WorkflowLint.Text.Split
import WorkflowLint.Url.Basic
import WorkflowLint.Url.HostName

/-! Reading URLs, absolute ones and those relative to another. -/

set_option autoImplicit false

namespace WorkflowLint.Url

/-- The text without the characters that are ignored wherever they stand, and without the blanks and
controls at its ends. -/
def strip (text : List Char) : List Char :=
  let isEdge (c : Char) : Bool := c.toNat ≤ 0x20
  (Text.dropTrailing isEdge (text.dropWhile isEdge)).filter fun c =>
    c != '\t' && c != '\n' && c != '\r'

def isSchemeChar (c : Char) : Bool := c.isAlphanum || c == '+' || c == '-' || c == '.'

def cutScheme (text : List Char) : Option (String × List Char) :=
  match text with
  | c :: _ =>
    let (scheme, rest) := text.span isSchemeChar
    match rest with
    | ':' :: after => if c.isAlpha then some (String.ofList (scheme.map Char.toLower), after) else none
    | _ => none
  | [] => none

def isSlash (special : Bool) (c : Char) : Bool := c == '/' || (special && c == '\\')

def endsAuthority (special : Bool) (c : Char) : Bool := isSlash special c || c == '?' || c == '#'

section Hosts

def forbiddenInHost (c : Char) : Bool :=
  ['\x00', '\t', '\n', '\r', ' ', '#', '/', ':', '<', '>', '?', '@', '[', '\\', ']', '^', '|'].contains c

def forbiddenInName (c : Char) : Bool :=
  forbiddenInHost c || c.toNat ≤ 0x1F || c == '%' || c.toNat == 0x7F

def digitsValue (radix : Nat) (digits : List Char) : Option Nat :=
  digits.foldl (fun acc c => do
    let n ← acc
    let d ← hexValue c
    if d < radix then some (n * radix + d) else none) (some 0)

/-- A part of an address in numbers: decimal, octal after `0`, hexadecimal after `0x`. -/
def addressPart : List Char → Option Nat
  | [] => none
  | '0' :: 'x' :: rest | '0' :: 'X' :: rest => digitsValue 16 rest
  | '0' :: c :: rest => digitsValue 8 (c :: rest)
  | digits => digitsValue 10 digits

/-- Whether the last label of a host name is a number, so that the name has to be an address. -/
def endsInNumber (name : List Char) : Bool :=
  let labels := Text.splitOn '.' name
  let labels := if labels.getLast? == some [] then labels.dropLast else labels
  match labels.getLast? with
  | some last => !last.isEmpty && (last.all Char.isDigit || (addressPart last).isSome)
  | none => false

/-- The last part of an address fills the bytes that the parts before it leave. -/
def ipv4Address (name : List Char) : Option Nat := do
  let labels := Text.splitOn '.' name
  let labels := if labels.getLast? == some [] then labels.dropLast else labels
  if 4 < labels.length then none
  else
    let parts ← labels.mapM addressPart
    let last ← parts.getLast?
    let before := parts.dropLast
    if before.any (255 < ·) || Nat.pow 256 (4 - before.length) ≤ last then none
    else some (before.foldl (fun acc part => acc * 256 + part) 0 * Nat.pow 256 (4 - before.length) + last)

def embeddedAddress (text : List Char) : Option (List Nat) := do
  let parts ← (Text.splitOn '.' text).mapM fun part =>
    if part.isEmpty || 3 < part.length || (part.length != 1 && part.head? == some '0') ||
        !part.all Char.isDigit then none
    else (digitsValue 10 part).bind fun n => if n ≤ 255 then some n else none
  match parts with
  | [a, b, c, d] => some [a * 256 + b, c * 256 + d]
  | _ => none

def addressPieces (text : List Char) : Option (List Nat) :=
  if text.isEmpty then some []
  else
    let words := Text.splitOn ':' text
    (words.zipIdx.mapM fun (place : List Char × Nat) =>
      let word := place.1
      if place.2 + 1 == words.length && word.contains '.' then embeddedAddress word
      else if word.isEmpty || 4 < word.length then none
      else (digitsValue 16 word).map fun n => [n]).map List.flatten

def cutDoubleColon : List Char → Option (List Char × List Char)
  | ':' :: ':' :: rest => some ([], rest)
  | c :: rest => (cutDoubleColon rest).map fun (before, after) => (c :: before, after)
  | [] => none

/-- An address of eight pieces, of which `::` stands for the zeros that are missing. -/
def ipv6Address (text : List Char) : Option (List Nat) :=
  match cutDoubleColon text with
  | none => do
    let pieces ← addressPieces text
    if pieces.length = 8 then some pieces else none
  | some (before, after) => do
    let left ← addressPieces before
    let right ← addressPieces after
    if before.contains '.' || 7 < left.length + right.length then none
    else some (left ++ List.replicate (8 - left.length - right.length) 0 ++ right)

def bracketed (text : List Char) : Option Host :=
  if text.getLast? == some ']' then (ipv6Address text.dropLast).map Host.ipv6 else none

def readHost (text : List Char) : Option Host :=
  match text with
  | '[' :: rest => bracketed rest
  | _ => do
    let name ← String.fromUTF8? ⟨(percentDecode text).toArray⟩
    let ascii ← HostName.toAscii name.toList
    if ascii.isEmpty || ascii.any forbiddenInName then none
    else if endsInNumber ascii then (ipv4Address ascii).map Host.ipv4
    else some (.name (String.ofList ascii))

def readForeignHost (text : List Char) : Option Host :=
  match text with
  | '[' :: rest => bracketed rest
  | _ =>
    if text.any forbiddenInHost then none
    else some (.name (String.ofList (percentEncode keptInHost text)))

end Hosts

section Paths

def isDot (segment : List Char) : Bool :=
  ["." , "%2e"].contains (String.ofList (segment.map Char.toLower))

def isDoubleDot (segment : List Char) : Bool :=
  ["..", ".%2e", "%2e.", "%2e%2e"].contains (String.ofList (segment.map Char.toLower))

/-- A drive letter, which a file path does not lose to `..`. -/
def isDrive (segment : List Char) : Bool :=
  match segment with
  | [c, bar] => c.isAlpha && (bar == ':' || bar == '|')
  | _ => false

/-- Adds a segment to a path; `last` tells that none follows. A dot leaves the path as it is, and two
dots take its last segment away; at the end either leaves an empty segment. -/
def addSegment (file last : Bool) (path : List String) (segment : List Char) : List String :=
  if isDoubleDot segment then
    let shorter :=
      match path with
      | [drive] => if file && isDrive drive.toList then path else []
      | _ => path.dropLast
    if last then shorter ++ [""] else shorter
  else if isDot segment then
    if last then path ++ [""] else path
  else
    match file && path.isEmpty && isDrive segment, segment with
    | true, letter :: _ => path ++ [String.ofList [letter, ':']]
    | _, _ => path ++ [String.ofList (percentEncode keptInPath segment)]

def addSegments (file : Bool) (path : List String) : List (List Char) → List String
  | [] => path
  | [segment] => addSegment file true path segment
  | segment :: rest => addSegments file (addSegment file false path segment) rest

/-- The path of a file URL does not open with empty segments. -/
def dropLeadingEmpty (segments : List String) : List String :=
  match segments.dropWhile String.isEmpty with
  | [] => if segments.isEmpty then [] else [""]
  | rest => rest

def readSegments (scheme : String) (base : List String) (text : List Char) : Path :=
  let file := scheme == "file"
  let segments := addSegments file base (Text.splitBy (isSlash (isSpecialScheme scheme)) text)
  .rooted (if file then dropLeadingEmpty segments else segments)

def readPath (scheme : String) (text : List Char) : Path :=
  match text with
  | [] => if isSpecialScheme scheme then .rooted [""] else .rooted []
  | c :: rest =>
    if isSlash (isSpecialScheme scheme) c then readSegments scheme [] rest
    else readSegments scheme [] text

end Paths

def cutSuffixes (special : Bool) (text : List Char) : List Char × Option String × Option String :=
  let (front, fragment) :=
    match Text.cutFirst '#' text with
    | some (front, fragment) => (front, some (String.ofList (percentEncode keptInFragment fragment)))
    | none => (text, none)
  match Text.cutFirst '?' front with
  | some (path, query) =>
    (path, some (String.ofList (percentEncode (keptInQuery special) query)), fragment)
  | none => (front, none, fragment)

def readUserinfo (text : List Char) : String × String :=
  let encoded (part : List Char) := String.ofList (percentEncode keptInUserinfo part)
  match Text.cutFirst ':' text with
  | some (name, password) => (encoded name, encoded password)
  | none => (encoded text, "")

/-- Splits before the colon of a port; inside brackets colons belong to the host. -/
def cutPort (inside : Bool) : List Char → List Char × Option (List Char)
  | [] => ([], none)
  | c :: rest =>
    if c == ':' && !inside then ([], some rest)
    else
      let inside := if c == '[' then true else if c == ']' then false else inside
      let (host, port) := cutPort inside rest
      (c :: host, port)

/-- A port in digits; the usual one is left out, and so is an empty one. -/
def readPort (scheme : String) (digits : List Char) : Option (Option Nat) :=
  if digits.isEmpty then some none
  else if !digits.all Char.isDigit then none
  else
    (digitsValue 10 digits).bind fun n =>
      if 65535 < n then none
      else if some n = defaultPort scheme then some none
      else some (some n)

def readAuthority (scheme : String) (text : List Char) : Option Url := do
  let special := isSpecialScheme scheme
  let (authority, rest) := text.span fun c => !endsAuthority special c
  let (userinfo, place) :=
    match Text.cutLast '@' authority with
    | some (userinfo, place) => (some userinfo, place)
    | none => (none, authority)
  let (name, digits) := cutPort false place
  let (username, password) := readUserinfo (userinfo.getD [])
  if name.isEmpty && (special || userinfo.isSome || digits.isSome) then none
  else
    let host ← if special then readHost name else readForeignHost name
    let port ← readPort scheme (digits.getD [])
    let (path, query, fragment) := cutSuffixes special rest
    return { scheme, username, password, host, port, path := readPath scheme path, query, fragment }

def withoutAuthority (scheme : String) (host : Option Host) (path : Path)
    (query fragment : Option String) : Url :=
  { scheme, username := "", password := "", host, port := none, path, query, fragment }

def readFile (text : List Char) : Option Url := do
  let bare (front : List Char) (query fragment : Option String) : Url :=
    withoutAuthority "file" (some (.name "")) (readPath "file" front) query fragment
  match text with
  | a :: b :: rest =>
    if isSlash true a && isSlash true b then
      let (name, rest) := rest.span fun c => !endsAuthority true c
      if isDrive name then
        let (front, query, fragment) := cutSuffixes true (name ++ rest)
        return bare front query fragment
      else
        let (front, query, fragment) := cutSuffixes true rest
        if name.isEmpty then return bare front query fragment
        else
          let host ← readHost name
          let host := if host == .name "localhost" then .name "" else host
          return { bare front query fragment with host := some host }
    else
      let (front, query, fragment) := cutSuffixes true text
      return bare front query fragment
  | _ =>
    let (front, query, fragment) := cutSuffixes true text
    return bare front query fragment

def readForeign (scheme : String) (text : List Char) : Option Url :=
  match text with
  | '/' :: '/' :: rest => readAuthority scheme rest
  | _ =>
    let (front, query, fragment) := cutSuffixes false text
    match front with
    | '/' :: rest => some (withoutAuthority scheme none (readSegments scheme [] rest) query fragment)
    | _ =>
      let path := Path.rootless (String.ofList (percentEncode keptInHost front))
      some (withoutAuthority scheme none path query fragment)

def readRelative (base : Url) (text : List Char) : Option Url :=
  let special := isSpecialScheme base.scheme
  let baseSegments := match base.path with
    | .rooted segments => segments
    | .rootless _ => []
  match text with
  | '/' :: '/' :: rest => readAuthority base.scheme rest
  | a :: b :: rest =>
    if isSlash special a && isSlash special b then
      readAuthority base.scheme (rest.dropWhile (isSlash special))
    else relativePath special baseSegments
  | _ => relativePath special baseSegments
where
  relativePath (special : Bool) (baseSegments : List String) : Option Url :=
    let (front, query, fragment) := cutSuffixes special text
    match front with
    | [] => some { base with query := if query.isSome then query else base.query, fragment }
    | c :: rest =>
      if isSlash special c then
        some { base with path := readSegments base.scheme [] rest, query, fragment }
      else
        some { base with path := readSegments base.scheme baseSegments.dropLast front, query, fragment }

def read (base : Option Url) (text : String) : Option Url :=
  let text := strip text.toList
  match cutScheme text, base with
  | some (scheme, rest), _ =>
    if scheme == "file" then readFile rest
    else if isSpecialScheme scheme then
      let slashes := (rest.takeWhile (isSlash true)).length
      match base with
      | some base =>
        if slashes < 2 && base.scheme == scheme then readRelative base rest
        else readAuthority scheme (rest.drop slashes)
      | none => readAuthority scheme (rest.drop slashes)
    else readForeign scheme rest
  | none, some base =>
    match text with
    | '#' :: fragment =>
      some { base with fragment := some (String.ofList (percentEncode keptInFragment fragment)) }
    | _ => if base.canBeBase then readRelative base text else none
  | none, none => none

def parse (text : String) : Option Url := read none text

def join (base : Url) (reference : String) : Option Url := read (some base) reference

end WorkflowLint.Url

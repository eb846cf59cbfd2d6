import WorkflowLint.Text.Split

/-! Patterns for names. A question mark stands for any character, a star for any text, brackets for one
of some characters. Two stars stand for directories at any depth; they make up a whole component. -/

set_option autoImplicit false

namespace WorkflowLint.Glob

structure Range where
  first : Char
  last : Char
  deriving DecidableEq, Repr

inductive Token where
  | char (c : Char)
  | anyChar
  | anyText
  | anyDirectories
  | oneOf (ranges : List Range)
  | noneOf (ranges : List Range)
  deriving DecidableEq, Repr

abbrev Pattern := List Token

def readRanges : List Char → List Range
  | a :: '-' :: b :: rest => ⟨a, b⟩ :: readRanges rest
  | a :: rest => ⟨a, a⟩ :: readRanges rest
  | [] => []

/-- A bracket, behind its opening mark: what it holds, and the rest. A closing mark that comes first
belongs to what it holds. -/
def readBracket : List Char → Option (Token × List Char)
  | '!' :: c :: rest =>
    (Text.cutFirst ']' rest).map fun (inner, rest) => (.noneOf (readRanges (c :: inner)), rest)
  | c :: rest =>
    if c = '!' then none
    else (Text.cutFirst ']' rest).map fun (inner, rest) => (.oneOf (readRanges (c :: inner)), rest)
  | [] => none

/-- Reads a pattern. `atStart` tells whether a component starts here. -/
def readTokens : Nat → Bool → List Char → Option Pattern
  | 0, _, _ => some []
  | _ + 1, _, [] => some []
  | fuel + 1, atStart, c :: rest =>
    match c with
    | '?' => (readTokens fuel false rest).map (.anyChar :: ·)
    | '*' =>
      let stars := rest.takeWhile (· = '*')
      let rest := rest.drop stars.length
      match stars.length with
      | 0 => (readTokens fuel false rest).map (.anyText :: ·)
      | 1 =>
        if !atStart then none
        else
          match rest with
          | [] => some [.anyDirectories]
          | '/' :: rest => (readTokens fuel true rest).map (.anyDirectories :: ·)
          | _ => none
      | _ => none
    | '[' =>
      match readBracket rest with
      | some (token, rest) => (readTokens fuel false rest).map (token :: ·)
      | none => none
    | c => (readTokens fuel (c = '/') rest).map (.char c :: ·)

/-- The pattern of a text; none where a bracket is open or stars stand where they must not. -/
def Pattern.ofChars (text : List Char) : Option Pattern := readTokens (text.length + 1) true text

namespace Pattern

def isRecursive (p : Pattern) : Bool := p.contains .anyDirectories

def literalChar? : Token → Option Char
  | .char c => some c
  | _ => none

def literal? (p : Pattern) : Option String := (p.mapM literalChar?).map String.ofList

def isIn (c : Char) (ranges : List Range) : Bool :=
  ranges.any fun r => r.first ≤ c && c ≤ r.last

def tokenMatches (c : Char) : Token → Bool
  | .char d => c = d
  | .anyChar => true
  | .oneOf ranges => isIn c ranges
  | .noneOf ranges => !isIn c ranges
  | .anyText | .anyDirectories => false

def isStar : Token → Bool
  | .anyText | .anyDirectories => true
  | _ => false

def anySuffix (accept : List Char → Bool) : List Char → Bool
  | [] => accept []
  | c :: rest => accept (c :: rest) || anySuffix accept rest

def matchesChars : Pattern → List Char → Bool
  | [], text => text.isEmpty
  | token :: rest, text =>
    if isStar token then anySuffix (matchesChars rest) text
    else
      match text with
      | [] => false
      | c :: text => tokenMatches c token && matchesChars rest text

def accepts (p : Pattern) (name : String) : Bool := matchesChars p name.toList

/-- Whether the pattern starts with a point, and so may stand for the entries that all directories
have. -/
def startsWithPoint (p : Pattern) : Bool := p.head? = some (.char '.')

end Pattern

end WorkflowLint.Glob

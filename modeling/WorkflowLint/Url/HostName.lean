import WorkflowLint.Text.Split

/-! Host names beyond ASCII: letters are folded to their small form, characters without a shape are
dropped, and each label that still leaves ASCII is written in the letters, digits and hyphens of its
Punycode.

This is the mapping of domain names as far as it goes character by character. A letter is not composed with
the marks behind it, a character that stands for several others (a ligature, say) is left as it is, and of the
conditions on a label beyond ASCII only the forbidden characters are checked: neither the directions of its
letters nor a mark at its start. Joiners count as forbidden everywhere, also between letters they may join. -/

set_option autoImplicit false

namespace WorkflowLint.Url.HostName

/-- The folding of letters outside ASCII, as `(first, last, step, shift)`. -/
def foldRanges : List (Nat × Nat × Nat × Int) :=
  [(0xAA, 0xAA, 1, -73), (0xB2, 0xB3, 1, -128), (0xB5, 0xB5, 1, 775), (0xB9, 0xB9, 1, -136),
   (0xBA, 0xBA, 1, -75), (0xC0, 0xD6, 1, 32), (0xD8, 0xDE, 1, 32), (0x100, 0x12E, 2, 1), (0x134, 0x136, 2, 1),
   (0x139, 0x13D, 2, 1), (0x141, 0x147, 2, 1), (0x14A, 0x176, 2, 1), (0x178, 0x178, 1, -121),
   (0x179, 0x17D, 2, 1), (0x181, 0x181, 1, 210), (0x182, 0x184, 2, 1), (0x186, 0x186, 1, 206),
   (0x187, 0x187, 1, 1), (0x189, 0x18A, 1, 205), (0x18B, 0x18B, 1, 1), (0x18E, 0x18E, 1, 79),
   (0x18F, 0x18F, 1, 202), (0x190, 0x190, 1, 203), (0x191, 0x191, 1, 1), (0x193, 0x193, 1, 205),
   (0x194, 0x194, 1, 207), (0x196, 0x196, 1, 211), (0x197, 0x197, 1, 209), (0x198, 0x198, 1, 1),
   (0x19C, 0x19C, 1, 211), (0x19D, 0x19D, 1, 213), (0x19F, 0x19F, 1, 214), (0x1A0, 0x1A4, 2, 1),
   (0x1A6, 0x1A6, 1, 218), (0x1A7, 0x1A7, 1, 1), (0x1A9, 0x1A9, 1, 218), (0x1AC, 0x1AC, 1, 1),
   (0x1AE, 0x1AE, 1, 218), (0x1AF, 0x1AF, 1, 1), (0x1B1, 0x1B2, 1, 217), (0x1B3, 0x1B5, 2, 1),
   (0x1B7, 0x1B7, 1, 219), (0x1B8, 0x1B8, 1, 1), (0x1BC, 0x1BC, 1, 1), (0x1CD, 0x1DB, 2, 1),
   (0x1DE, 0x1EE, 2, 1), (0x1F4, 0x1F4, 1, 1), (0x1F6, 0x1F6, 1, -97), (0x1F7, 0x1F7, 1, -56),
   (0x1F8, 0x21E, 2, 1), (0x220, 0x220, 1, -130), (0x222, 0x232, 2, 1), (0x23A, 0x23A, 1, 10795),
   (0x23B, 0x23B, 1, 1), (0x23D, 0x23D, 1, -163), (0x23E, 0x23E, 1, 10792), (0x241, 0x241, 1, 1),
   (0x243, 0x243, 1, -195), (0x244, 0x244, 1, 69), (0x245, 0x245, 1, 71), (0x246, 0x24E, 2, 1),
   (0x370, 0x372, 2, 1), (0x376, 0x376, 1, 1), (0x37F, 0x37F, 1, 116), (0x386, 0x386, 1, 38),
   (0x388, 0x38A, 1, 37), (0x38C, 0x38C, 1, 64), (0x38E, 0x38F, 1, 63), (0x391, 0x3A1, 1, 32),
   (0x3A3, 0x3AB, 1, 32), (0x3CF, 0x3CF, 1, 8), (0x3D8, 0x3EE, 2, 1), (0x3F4, 0x3F4, 1, -60),
   (0x3F7, 0x3F7, 1, 1), (0x3FA, 0x3FA, 1, 1), (0x3FD, 0x3FF, 1, -130), (0x400, 0x40F, 1, 80),
   (0x410, 0x42F, 1, 32), (0x460, 0x480, 2, 1), (0x48A, 0x4BE, 2, 1), (0x4C0, 0x4C0, 1, 15),
   (0x4C1, 0x4CD, 2, 1), (0x4D0, 0x52E, 2, 1), (0x531, 0x556, 1, 48), (0x10A0, 0x10C5, 1, 7264),
   (0x10C7, 0x10C7, 1, 7264), (0x10CD, 0x10CD, 1, 7264), (0x1C90, 0x1CBA, 1, -3008),
   (0x1CBD, 0x1CBF, 1, -3008), (0x1E00, 0x1E94, 2, 1), (0x1E9E, 0x1E9E, 1, -7615),
   (0x1EA0, 0x1EFE, 2, 1), (0x1F08, 0x1F0F, 1, -8), (0x1F18, 0x1F1D, 1, -8),
   (0x1F28, 0x1F2F, 1, -8), (0x1F38, 0x1F3F, 1, -8), (0x1F48, 0x1F4D, 1, -8),
   (0x1F59, 0x1F5F, 2, -8), (0x1F68, 0x1F6F, 1, -8), (0x1FB8, 0x1FB9, 1, -8),
   (0x1FBA, 0x1FBA, 1, -74), (0x1FC8, 0x1FCA, 2, -86), (0x1FD8, 0x1FD9, 1, -8),
   (0x1FDA, 0x1FDA, 1, -100), (0x1FE8, 0x1FE9, 1, -8), (0x1FEA, 0x1FEA, 1, -112),
   (0x1FEC, 0x1FEC, 1, -7), (0x1FF8, 0x1FF8, 1, -128), (0x1FFA, 0x1FFA, 1, -126),
   (0x2126, 0x2126, 1, -7517), (0x212A, 0x212A, 1, -8383), (0x212B, 0x212B, 1, -8262),
   (0x2132, 0x2132, 1, 28), (0x2183, 0x2183, 1, 1), (0x2C00, 0x2C2F, 1, 48),
   (0x2C60, 0x2C60, 1, 1), (0x2C62, 0x2C62, 1, -10743), (0x2C63, 0x2C63, 1, -3814),
   (0x2C64, 0x2C64, 1, -10727), (0x2C67, 0x2C6B, 2, 1), (0x2C6D, 0x2C6D, 1, -10780),
   (0x2C6E, 0x2C6E, 1, -10749), (0x2C6F, 0x2C6F, 1, -10783), (0x2C70, 0x2C70, 1, -10782),
   (0x2C72, 0x2C72, 1, 1), (0x2C75, 0x2C75, 1, 1), (0x2C7E, 0x2C7F, 1, -10815),
   (0x2C80, 0x2CE2, 2, 1), (0x2CEB, 0x2CED, 2, 1), (0x2CF2, 0x2CF2, 1, 1),
   (0x3002, 0x3002, 1, -12244), (0xA640, 0xA66C, 2, 1), (0xA680, 0xA69A, 2, 1),
   (0xA722, 0xA72E, 2, 1), (0xA732, 0xA76E, 2, 1), (0xA779, 0xA77B, 2, 1),
   (0xA77D, 0xA77D, 1, -35332), (0xA77E, 0xA786, 2, 1), (0xA78B, 0xA78B, 1, 1),
   (0xA78D, 0xA78D, 1, -42280), (0xA790, 0xA792, 2, 1), (0xA796, 0xA7A8, 2, 1),
   (0xA7AA, 0xA7AA, 1, -42308), (0xA7AB, 0xA7AB, 1, -42319), (0xA7AC, 0xA7AC, 1, -42315),
   (0xA7AD, 0xA7AD, 1, -42305), (0xA7AE, 0xA7AE, 1, -42308), (0xA7B0, 0xA7B0, 1, -42258),
   (0xA7B1, 0xA7B1, 1, -42282), (0xA7B2, 0xA7B2, 1, -42261), (0xA7B3, 0xA7B3, 1, 928),
   (0xA7B4, 0xA7C2, 2, 1), (0xA7C4, 0xA7C4, 1, -48), (0xA7C5, 0xA7C5, 1, -42307),
   (0xA7C6, 0xA7C6, 1, -35384), (0xA7C7, 0xA7C9, 2, 1), (0xA7D0, 0xA7D0, 1, 1),
   (0xA7D6, 0xA7D8, 2, 1), (0xA7F5, 0xA7F5, 1, 1), (0xFF01, 0xFF20, 1, -65248),
   (0xFF21, 0xFF3A, 1, -65216), (0xFF3B, 0xFF5E, 1, -65248), (0xFF61, 0xFF61, 1, -65331),
   (0x10400, 0x10427, 1, 40), (0x104B0, 0x104D3, 1, 40), (0x10570, 0x1057A, 1, 39),
   (0x1057C, 0x1058A, 1, 39), (0x1058C, 0x10592, 1, 39), (0x10594, 0x10595, 1, 39),
   (0x10C80, 0x10CB2, 1, 64), (0x118A0, 0x118BF, 1, 32), (0x16E40, 0x16E5F, 1, 32),
   (0x1E900, 0x1E921, 1, 34)]

def ignoredRanges : List (Nat × Nat) :=
  [(0xAD, 0xAD), (0x34F, 0x34F), (0x115F, 0x1160), (0x17B4, 0x17B5), (0x180B, 0x180F),
   (0x200B, 0x200B), (0x2060, 0x2064), (0x206A, 0x206F), (0x3164, 0x3164), (0xFE00, 0xFE0F),
   (0xFEFF, 0xFEFF), (0xFFA0, 0xFFA0), (0x1BCA0, 0x1BCA3), (0x1D173, 0x1D17A), (0xE0100, 0xE01EF)]

/-- The characters that are refused in names, as ranges `(first, last)`: controls, marks of direction and of
joining, and those for private use. -/
def forbiddenRanges : List (Nat × Nat) :=
  [(0x80, 0x9F), (0x600, 0x605), (0x61C, 0x61C), (0x6DD, 0x6DD), (0x70F, 0x70F), (0x890, 0x891),
   (0x8E2, 0x8E2), (0x1680, 0x1680), (0x200C, 0x200F), (0x2024, 0x2026), (0x2028, 0x202E),
   (0x2066, 0x2069), (0x2FF0, 0x2FFB), (0xE000, 0xF8FF), (0xFDD0, 0xFDEF), (0xFE12, 0xFE12),
   (0xFE19, 0xFE19), (0xFE30, 0xFE30), (0xFE52, 0xFE52), (0xFFF9, 0xFFFF), (0xE0001, 0xE007F),
   (0xF0000, 0x10FFFF)]

def isWithin (ranges : List (Nat × Nat)) (c : Char) : Bool :=
  ranges.any fun (first, last) => first ≤ c.toNat && c.toNat ≤ last

def fold (c : Char) : List Char :=
  let n := c.toNat
  if n < 0x80 then [c.toLower]
  else if isWithin ignoredRanges c then []
  else
    match foldRanges.find? fun (first, last, step, _) =>
        first ≤ n && n ≤ last && (n - first) % step == 0 with
    | some (_, _, _, shift) => [Char.ofNat (n + shift).toNat]
    | none => [c]

def digit (value : Nat) : Char :=
  if value < 26 then Char.ofNat ('a'.toNat + value) else Char.ofNat ('0'.toNat + (value - 26))

def digitValue (c : Char) : Option Nat :=
  if 'a' ≤ c ∧ c ≤ 'z' then some (c.toNat - 'a'.toNat)
  else if '0' ≤ c ∧ c ≤ '9' then some (c.toNat - '0'.toNat + 26)
  else none

def threshold (k bias : Nat) : Nat := min 26 (max 1 (k - bias))

def biasSteps : Nat → Nat → Nat → Nat × Nat
  | 0, delta, k => (delta, k)
  | steps + 1, delta, k => if delta ≤ 455 then (delta, k) else biasSteps steps (delta / 35) (k + 36)

def adapt (delta count : Nat) (first : Bool) : Nat :=
  let scaled := if first then delta / 700 else delta / 2
  let start := scaled + scaled / count
  let (rest, k) := biasSteps start start 0
  k + 36 * rest / (rest + 38)

/-- A number in digits of variable radix, the lowest first. -/
def digits (bias : Nat) : Nat → Nat → Nat → List Char
  | 0, _, _ => []
  | fuel + 1, k, q =>
    let t := threshold k bias
    if q < t then [digit q]
    else digit (t + (q - t) % (36 - t)) :: digits bias fuel (k + 36) ((q - t) / (36 - t))

structure Progress where
  delta : Nat
  bias : Nat
  written : Nat
  out : List Char

def writeAt (n basic : Nat) (s : Progress) (c : Char) : Progress :=
  if c.toNat < n then { s with delta := s.delta + 1 }
  else if c.toNat = n then
    { delta := 0
      bias := adapt s.delta (s.written + 1) (s.written == basic)
      written := s.written + 1
      out := s.out ++ digits s.bias (s.delta + 1) 36 s.delta }
  else s

def writeFrom (label : List Char) (basic : Nat) : Nat → Nat → Progress → Progress
  | 0, _, s => s
  | fuel + 1, n, s =>
    match (label.filter (n ≤ ·.toNat)).map Char.toNat |>.min? with
    | none => s
    | some m =>
      let s := { s with delta := s.delta + (m - n) * (s.written + 1) }
      let s := label.foldl (writeAt m basic) s
      writeFrom label basic fuel (m + 1) { s with delta := s.delta + 1 }

def encode (label : List Char) : List Char :=
  let basic := label.filter (·.toNat < 0x80)
  let opening := if basic.isEmpty then [] else basic ++ ['-']
  opening ++ (writeFrom label basic.length label.length 0x80 ⟨0, 72, basic.length, []⟩).out

def readNumber (bias : Nat) : List Char → Nat → Nat → Nat → Option (Nat × List Char)
  | [], _, _, _ => none
  | c :: rest, k, weight, sum => do
    let value ← digitValue c
    let sum := sum + value * weight
    let t := threshold k bias
    if value < t then some (sum, rest) else readNumber bias rest (k + 36) (weight * (36 - t)) sum

def readFrom : Nat → List Char → Nat → Nat → Nat → List Char → Option (List Char)
  | 0, _, _, _, _, _ => none
  | _, [], _, _, _, out => some out
  | fuel + 1, text, n, i, bias, out => do
    let (sum, rest) ← readNumber bias text 36 1 i
    let count := out.length + 1
    let n := n + sum / count
    let place := sum % count
    if 0x10FFFF < n ∨ (0xD800 ≤ n ∧ n ≤ 0xDFFF) then none
    else
      readFrom fuel rest n (place + 1) (adapt (sum - i) count (i == 0))
        (out.take place ++ Char.ofNat n :: out.drop place)

def decode (text : List Char) : Option (List Char) :=
  let (basic, rest) := (Text.cutLast '-' text).getD ([], text)
  if basic.any (0x80 ≤ ·.toNat) then none
  else readFrom (rest.length + 1) rest 0x80 0 72 basic

def mark : List Char := ['x', 'n', '-', '-']

/-- A text that needs the mark: it is folded, and leaves ASCII. -/
def needsMark (text : List Char) : Bool :=
  text.any (0x80 ≤ ·.toNat) && text.flatMap fold = text && !text.any (isWithin forbiddenRanges)

/-- The ASCII form of one folded label. A label that is already marked has to stand for a text that
needs the mark. -/
def asciiLabel (label : List Char) : Option (List Char) :=
  if mark.isPrefixOf label then
    match decode (label.drop 4) with
    | some text => if needsMark text then some label else none
    | none => none
  else if label.any (isWithin forbiddenRanges) then none
  else if label.all (·.toNat < 0x80) then some label
  else some (mark ++ encode label)

/-- The ASCII form of a host name. For names beyond ASCII, and for labels that are already marked, this is only a
part of the mapping, without what the module leaves out: some names that have to be refused get a form, and some
others get another form than theirs, or none. -/
def toAscii (name : List Char) : Option (List Char) := do
  let labels ← (Text.splitOn '.' (name.flatMap fold)).mapM asciiLabel
  return ['.'].intercalate labels

end WorkflowLint.Url.HostName

import WorkflowLint.Text.Printable

/-! Texts as they are quoted in messages: between double quotes, on one line, with every character
that cannot be shown written by its number. -/

set_option autoImplicit false

namespace WorkflowLint.Text

def quotedChar (c : Char) : String :=
  if c = '\x00' then "\\0"
  else if c = '\t' then "\\t"
  else if c = '\r' then "\\r"
  else if c = '\n' then "\\n"
  else if c = '"' then "\\\""
  else if c = '\\' then "\\\\"
  else if isPrintable c then c.toString
  else "\\u\x7b" ++ String.ofList (Nat.toDigits 16 c.toNat) ++ "\x7d"

def quoted (text : String) : String :=
  "\"" ++ text.toList.foldl (fun acc c => acc ++ quotedChar c) "" ++ "\""

end WorkflowLint.Text

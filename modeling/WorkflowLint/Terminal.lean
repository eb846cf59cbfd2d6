/-! Coloured text on a terminal: control sequences around a text, which select and reset a rendition. -/

set_option autoImplicit false

namespace WorkflowLint.Terminal

inductive Colour where
  | red
  | yellow
  | blue
  | cyan
  deriving DecidableEq, Repr

def Colour.code : Colour → String
  | .red => "31"
  | .yellow => "33"
  | .blue => "34"
  | .cyan => "36"

def select (code : String) : String := "\x1b[" ++ code ++ "m"

/-- The text in a foreground colour; the default colour follows it. -/
def paint (colour : Colour) (text : String) : String :=
  select colour.code ++ text ++ select "39"

def embolden (text : String) : String :=
  select "1" ++ text ++ select "0"

def banner (coloured : Bool) (colour : Colour) (word : String) : String :=
  if coloured then embolden (paint colour word) else word

def errorBanner (coloured : Bool) : String := banner coloured .red "error:"

def noteBanner (coloured : Bool) : String := banner coloured .cyan "note:"

def infoBanner (coloured : Bool) : String := banner coloured .blue "info:"

end WorkflowLint.Terminal

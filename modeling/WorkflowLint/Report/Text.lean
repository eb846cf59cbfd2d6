import WorkflowLint.Report
import WorkflowLint.Terminal

/-! A report as text for a reader: a heading per file, a line per finding, and an empty line after each
file. Files without findings are left out. -/

set_option autoImplicit false

namespace WorkflowLint

def Level.colour : Level → Terminal.Colour
  | .warning => .yellow
  | .error => .red

def Level.text (coloured : Bool) (level : Level) : String :=
  if coloured then Terminal.paint level.colour level.name else level.name

def Finding.text (coloured : Bool) (f : Finding) : String :=
  "  - " ++ f.level.text coloured ++ " " ++ f.description ++ "\n"

def FileReport.text (coloured : Bool) (r : FileReport) : String :=
  if r.findings.isEmpty then ""
  else "# " ++ r.file ++ "\n" ++ String.join (r.findings.map (Finding.text coloured)) ++ "\n"

def Report.text (coloured : Bool) (r : Report) : String :=
  String.join (r.files.map (FileReport.text coloured))

end WorkflowLint

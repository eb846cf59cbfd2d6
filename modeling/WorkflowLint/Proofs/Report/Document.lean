import WorkflowLint.Report.Document

/-! Reading a report back from its document.

Each kind of document has a reader of its own, which looks at names and values only, so that no order
of members matters. The reader of a report gives back every report whole. -/

set_option autoImplicit false

namespace WorkflowLint

namespace Json

def items? : Json → Option (List Json)
  | .array items => some items
  | _ => none

def count? : Json → Option Nat
  | .integer value => value.toNat?
  | _ => none

variable (name : String) (document : Json)

def textIn? : Option String := (document.member? name).bind text?

def itemsIn? : Option (List Json) := (document.member? name).bind items?

def countIn? : Option Nat := (document.member? name).bind count?

section Simp

variable (members : List (String × Json))

@[simp] theorem text?_string (value : String) : text? (.string value) = some value := rfl

@[simp] theorem items?_array (items : List Json) : items? (.array items) = some items := rfl

@[simp] theorem count?_integer (count : Nat) : count? (.integer count) = some count := rfl

@[simp] theorem member?_object : member? name (.object members) = members.lookup name := rfl

@[simp] theorem textIn?_object : textIn? name (.object members) = (members.lookup name).bind text? := rfl

@[simp] theorem itemsIn?_object : itemsIn? name (.object members) = (members.lookup name).bind items? := rfl

@[simp] theorem countIn?_object : countIn? name (.object members) = (members.lookup name).bind count? := rfl

end Simp

end Json

def Level.ofName? (name : String) : Option Level :=
  [Level.warning, .error].find? (·.name = name)

@[simp] theorem Level.ofName?_name (level : Level) : Level.ofName? level.name = some level := by
  cases level <;> decide

def Severity.ofName? (name : String) : Option Severity :=
  [Severity.none, .warning, .error].find? (·.name = name)

@[simp] theorem Severity.ofName?_name (severity : Severity) :
    Severity.ofName? severity.name = some severity := by
  cases severity <;> decide

def Finding.ofDocument? (document : Json) : Option Finding := do
  let level ← Level.ofName? (← document.textIn? "level")
  let description ← document.textIn? "description"
  return ⟨level, description⟩

def FileReport.ofDocument? (document : Json) : Option FileReport := do
  let file ← document.textIn? "file"
  let severity ← Severity.ofName? (← document.textIn? "severity")
  let findings ← (← document.itemsIn? "findings").mapM Finding.ofDocument?
  return ⟨file, findings, severity⟩

def Report.ofDocument? (document : Json) : Option Report := do
  let files ← (← document.itemsIn? "files").mapM FileReport.ofDocument?
  let summary ← document.member? "summary"
  let errors ← summary.countIn? "errors"
  let warnings ← summary.countIn? "warnings"
  let count ← summary.countIn? "files"
  let severity ← Severity.ofName? (← summary.textIn? "severity")
  return ⟨files, ⟨errors, warnings, count⟩, severity⟩

theorem mapM_map_eq {α β γ : Type} {write : α → β} {read : β → Option γ} {result : α → γ}
    (each : ∀ item, read (write item) = some (result item)) (items : List α) :
    (items.map write).mapM read = some (items.map result) := by
  induction items with
  | nil => rfl
  | cons item rest ih => simp [List.mapM_cons, each, ih]

theorem mapM_map_inverse {α β : Type} {write : α → β} {read : β → Option α}
    (inverse : ∀ item, read (write item) = some item) (items : List α) :
    (items.map write).mapM read = some items := by
  rw [mapM_map_eq inverse, List.map_id']

theorem Finding.ofDocument?_document (finding : Finding) :
    Finding.ofDocument? finding.document = some finding := by
  simp [ofDocument?, document, List.lookup_cons]

theorem FileReport.ofDocument?_document (report : FileReport) :
    FileReport.ofDocument? report.document = some report := by
  have findings := mapM_map_inverse Finding.ofDocument?_document report.findings
  simp [ofDocument?, document, List.lookup_cons, findings]

theorem Report.ofDocument?_document (report : Report) :
    Report.ofDocument? report.document = some report := by
  have files := mapM_map_inverse FileReport.ofDocument?_document report.files
  simp [ofDocument?, document, List.lookup_cons, files]

end WorkflowLint

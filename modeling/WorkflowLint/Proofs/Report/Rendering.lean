import WorkflowLint.Proofs.Report.Document
import WorkflowLint.Proofs.Terminal.Part
import WorkflowLint.Report.Text

/-! The texts of a report beside its document.

The plain text can be told from the document alone. The coloured text is the plain one with a pair of
control sequences put in around the level of each finding, at places that are known: what a name or a
description holds does not matter, control sequences and line breaks of its own included. -/

set_option autoImplicit false

namespace WorkflowLint

open Terminal (Part)

def Level.pair : Level → String × String
  | .warning => ("\x1b[33m", "\x1b[39m")
  | .error => ("\x1b[31m", "\x1b[39m")

def Level.pairLength : Nat := 10

theorem Level.length_pair (level : Level) :
    level.pair.1.length + level.pair.2.length = Level.pairLength := by
  cases level <;> rfl

theorem Level.length_pairs (findings : List Finding) :
    ((findings.flatMap fun f => [f.level.pair.1, f.level.pair.2]).map String.length).sum =
      findings.length * Level.pairLength := by
  induction findings with
  | nil => rfl
  | cons f rest ih =>
    have pair := Level.length_pair f.level
    simp only [List.flatMap_cons, List.map_append, List.sum_append, ih, List.length_cons]
    simp only [List.map_cons, List.map_nil, List.sum_cons, List.sum_nil]
    rw [Nat.succ_mul]
    omega

theorem Level.text_coloured (level : Level) :
    level.text true = level.pair.1 ++ level.name ++ level.pair.2 := by
  cases level <;> rfl

/-- A line on a finding, with a pair of control sequences around its level. -/
def Finding.parts (f : Finding) : List Part :=
  [.shown "  - ", .control f.level.pair.1, .shown f.level.name, .control f.level.pair.2,
    .shown (" " ++ f.description ++ "\n")]

def FileReport.parts (r : FileReport) : List Part :=
  if r.findings.isEmpty then []
  else .shown ("# " ++ r.file ++ "\n") :: r.findings.flatMap Finding.parts ++ [.shown "\n"]

def Report.parts (r : Report) : List Part := r.files.flatMap FileReport.parts

section Parts

open Terminal (written visible)

theorem Finding.written_parts (f : Finding) : written f.parts = f.text true := by
  simp [written, parts, Finding.text, Level.text_coloured, Part.text, String.append_assoc]

theorem Finding.visible_parts (f : Finding) : visible f.parts = f.text false := by
  simp [visible, parts, Finding.text, Level.text, Part.visibleText, String.append_assoc]

theorem FileReport.written_parts (r : FileReport) : written r.parts = r.text true := by
  unfold parts FileReport.text
  split
  · rfl
  · rw [Terminal.written_append, ← List.singleton_append, Terminal.written_append,
      Terminal.written_flatMap, funext Finding.written_parts]
    simp [written, Part.text]

theorem FileReport.visible_parts (r : FileReport) : visible r.parts = r.text false := by
  unfold parts FileReport.text
  split
  · rfl
  · rw [Terminal.visible_append, ← List.singleton_append, Terminal.visible_append,
      Terminal.visible_flatMap, funext Finding.visible_parts]
    simp [visible, Part.visibleText]

theorem Report.written_parts (r : Report) : written r.parts = r.text true := by
  rw [parts, Terminal.written_flatMap, funext FileReport.written_parts]
  rfl

theorem Report.visible_parts (r : Report) : visible r.parts = r.text false := by
  rw [parts, Terminal.visible_flatMap, funext FileReport.visible_parts]
  rfl

theorem FileReport.parts_sequences (r : FileReport) :
    r.parts.filterMap Part.sequence? = r.findings.flatMap fun f => [f.level.pair.1, f.level.pair.2] := by
  unfold parts
  split
  · next none => simp [List.isEmpty_iff.mp none]
  · simp [List.filterMap_cons, List.filterMap_flatMap, Part.sequence?, Finding.parts]

theorem Report.parts_sequences (r : Report) :
    r.parts.filterMap Part.sequence? =
      (Report.findings r.files).flatMap fun f => [f.level.pair.1, f.level.pair.2] := by
  simp only [parts, findings, List.filterMap_flatMap, List.flatMap_assoc, FileReport.parts_sequences]

end Parts

namespace Report

section OfDocument

variable (document : Json)

def findingLine? : Option String := do
  let level ← document.textIn? "level"
  let description ← document.textIn? "description"
  return "  - " ++ level ++ " " ++ description ++ "\n"

/-- The lines on a file, from its document: a heading, a line for each finding, and an empty line. -/
def fileLines? : Option (List String) := do
  let file ← document.textIn? "file"
  let lines ← (← document.itemsIn? "findings").mapM findingLine?
  return ("# " ++ file ++ "\n") :: lines ++ ["\n"]

def hasFindings : Bool := (document.itemsIn? "findings").any fun findings => !findings.isEmpty

def plainText? : Option String := do
  let files ← document.itemsIn? "files"
  let lines ← (files.filter hasFindings).mapM fileLines?
  return String.join lines.flatten

end OfDocument

theorem findingLine?_document (f : Finding) : findingLine? f.document = some (f.text false) := by
  simp [findingLine?, Finding.document, Finding.text, Level.text, List.lookup_cons]

theorem hasFindings_document (r : FileReport) : hasFindings r.document = !r.findings.isEmpty := by
  simp [hasFindings, FileReport.document, List.lookup_cons]

def linesOn (r : FileReport) : List String :=
  ("# " ++ r.file ++ "\n") :: r.findings.map (Finding.text false) ++ ["\n"]

theorem fileLines?_document (r : FileReport) : fileLines? r.document = some (linesOn r) := by
  have lines := mapM_map_eq findingLine?_document r.findings
  simp [fileLines?, linesOn, FileReport.document, List.lookup_cons, lines]

def flagged (r : Report) : List FileReport := r.files.filter fun file => !file.findings.isEmpty

theorem text_flagged (coloured : Bool) (r : Report) :
    r.text coloured = String.join (r.flagged.map (FileReport.text coloured)) := by
  unfold text flagged
  induction r.files with
  | nil => rfl
  | cons file rest ih =>
    rw [List.map_cons, String.join_cons, ih, List.filter_cons]
    split
    · rw [List.map_cons, String.join_cons]
    · next empty =>
      have silent : file.findings = [] := by simpa using empty
      simp [FileReport.text, silent]

theorem text_plain (r : Report) : r.text false = String.join (r.flagged.flatMap linesOn) := by
  have each : ∀ file ∈ r.flagged, FileReport.text false file = String.join (linesOn file) := by
    intro file member
    have found : file.findings.isEmpty = false := by simpa using (List.mem_filter.mp member).2
    simp [FileReport.text, linesOn, found, String.append_assoc]
  rw [text_flagged, List.map_congr_left each]
  induction r.flagged with
  | nil => rfl
  | cons file rest ih => simp [ih]

theorem plainText?_document (r : Report) : plainText? r.document = some (r.text false) := by
  have files : Json.itemsIn? "files" r.document = some (r.files.map FileReport.document) := rfl
  have found : (r.files.map FileReport.document).filter hasFindings =
      r.flagged.map FileReport.document := by
    rw [List.filter_map, flagged]
    exact congrArg _ (List.filter_congr fun file _ => hasFindings_document file)
  have lines := mapM_map_eq fileLines?_document r.flagged
  rw [text_plain, List.flatMap_def]
  simp [plainText?, files, found, lines]

/-- The plain text of a report is told by its document alone. The coloured text is written in parts: what
is shown of them is the plain text, and the rest is the pair of control sequences of each finding, in
order. These stand at known places, and deleting what stands there gives back the plain text. -/
theorem renderings_agree (r : Report) :
    plainText? r.document = some (r.text false) ∧
    r.text false = Terminal.visible r.parts ∧ r.text true = Terminal.written r.parts ∧
    (let spans := Terminal.controls 0 r.parts
     spans.map Terminal.Span.text =
        (findings r.files).flatMap (fun f => [f.level.pair.1, f.level.pair.2]) ∧
      (∀ span ∈ spans, span.StandsIn (r.text true)) ∧
      Terminal.delete spans (r.text true) = r.text false) ∧
    (r.text true).length = (r.text false).length + (findings r.files).length * Level.pairLength := by
  rw [← r.written_parts, ← r.visible_parts]
  refine ⟨r.visible_parts ▸ r.plainText?_document, rfl, rfl, ⟨?_, ?_, ?_⟩, ?_⟩
  · rw [Terminal.controls_text, r.parts_sequences]
  · intro span member
    have stands := @Terminal.standsIn_of_mem_controls span "" r.parts member
    rwa [String.empty_append] at stands
  · exact Terminal.delete_controls r.parts
  · rw [Terminal.length_written, r.parts_sequences, Level.length_pairs]

end Report

end WorkflowLint

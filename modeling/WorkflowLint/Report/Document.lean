import WorkflowLint.Json.Basic
import WorkflowLint.Report

/-! A report as a JSON document, with the counts of the run beside its files. -/

set_option autoImplicit false

namespace WorkflowLint

def Finding.document (f : Finding) : Json :=
  .object [("description", .string f.description), ("level", .string f.level.name)]

def FileReport.document (r : FileReport) : Json :=
  .object
    [("file", .string r.file), ("severity", .string r.severity.name),
      ("findings", .array (r.findings.map Finding.document))]

def Report.document (r : Report) : Json :=
  .object
    [("files", .array (r.files.map FileReport.document)),
      ("summary", .object
        [("errors", .integer r.summary.errors), ("warnings", .integer r.summary.warnings),
          ("files", .integer r.summary.files), ("severity", .string r.severity.name)])]

end WorkflowLint

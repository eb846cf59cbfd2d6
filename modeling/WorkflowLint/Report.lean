import WorkflowLint.Finding

/-! The outcome of a run: one report per file, in the order of the files, and the counts over all. -/

set_option autoImplicit false

namespace WorkflowLint

structure FileReport where
  file : String
  findings : List Finding
  severity : Severity
  deriving DecidableEq, Repr

def FileReport.ofFindings (file : String) (findings : List Finding) : FileReport :=
  ⟨file, findings, Finding.severity findings⟩

structure Summary where
  errors : Nat
  warnings : Nat
  files : Nat
  deriving DecidableEq, Repr

structure Report where
  files : List FileReport
  summary : Summary
  severity : Severity
  deriving DecidableEq, Repr

namespace Report

def findings (files : List FileReport) : List Finding :=
  files.flatMap FileReport.findings

def countOf (level : Level) (findings : List Finding) : Nat :=
  (findings.filter (·.level = level)).length

def severityOf (files : List FileReport) : Severity :=
  files.foldr (fun r rest => max r.severity rest) .none

def ofFiles (files : List FileReport) : Report where
  files := files
  summary :=
    { errors := countOf .error (findings files)
      warnings := countOf .warning (findings files)
      files := files.length }
  severity := severityOf files

end Report

end WorkflowLint

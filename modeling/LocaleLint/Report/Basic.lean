import LocaleLint.Evaluation
import LocaleLint.Report.View
import LocaleLint.Timestamp

/-!
# Reports

The record of a run: which tool ran and when, the verdict, the findings and the counts. A
run that could not be completed leaves a report with one finding, which says why.
-/

set_option autoImplicit false

namespace LocaleLint

/-- The tool that made a report. -/
structure Tool where
  name : String
  version : String
deriving DecidableEq, Repr

/-- The record of a run. -/
structure Report where
  schema : String
  tool : Tool
  startedAt : Timestamp
  finishedAt : Timestamp
  verdict : Verdict
  findings : List Finding
  summary : Summary
deriving BEq, Repr

/-- This tool. -/
def Tool.this : Tool := ⟨"intlxml", "0.1.0"⟩

namespace Report

/-- The schema of reports. -/
def schemaName : String := "intlxml.report.v1"

/-- The report of an evaluated batch. -/
def ofEvaluation (startedAt finishedAt : Timestamp) (evaluation : Evaluation) : Report where
  schema := schemaName
  tool := Tool.this
  startedAt := startedAt
  finishedAt := finishedAt
  verdict := evaluation.verdict
  findings := evaluation.findings
  summary := evaluation.summary

/-- The finding about a run that could not be completed. -/
def runtimeFinding (message : String) : Finding where
  severity := .error
  checkId := CheckId.toolRuntime
  code := Code.runtimeError
  message := message
  help := some "Fix the tool error and re-run intlxml."

/-- The report of a run that could not be completed. -/
def ofFailure (now : Timestamp) (message : String) : Report where
  schema := schemaName
  tool := Tool.this
  startedAt := now
  finishedAt := now
  verdict := .fail
  findings := [runtimeFinding message]
  summary := { findingsTotal := 1, findingsEmitted := 1 }

/-- What is shown of a report. -/
def view (report : Report) : ReportView where
  verdict := report.verdict
  notices := report.findings.map Finding.notice
  documentsScanned := report.summary.documentsScanned
  documentsFailed := report.summary.documentsFailed
  parseErrors := report.summary.parseErrors
  findingsEmitted := report.summary.findingsEmitted
  findingsTotal := report.summary.findingsTotal
  truncatedReason := report.summary.truncatedReason

end Report

end LocaleLint

import LocaleLint.Failure
import LocaleLint.Json.Reader
import LocaleLint.Json.Shape
import LocaleLint.Report.Writing

/-!
# Reading reports

A report file is JSON of a schema that has to be named, and of the shape in which reports
are written. Unknown members are passed over, and fields that are left out when a report
is written may be missing or null.
-/

set_option autoImplicit false

namespace LocaleLint

open Json (Shape Structure)

/-- Reads a verdict. -/
def Verdict.shape : Shape Verdict :=
  Shape.oneOf ([Verdict.pass, .warn, .fail].map fun verdict => (verdict.name, verdict))

/-- Reads a severity. -/
def Severity.shape : Shape Severity :=
  Shape.oneOf ([Severity.info, .warning, .error].map fun severity => (severity.name, severity))

/-- Reads a timestamp. -/
def Timestamp.shape : Shape Timestamp
  | .string text => (Timestamp.parse text).mapError fun fault => .other fault.message
  | value => Json.mistyped value "an RFC3339-formatted `OffsetDateTime`"

/-- Reads a path as it stands. -/
def RepoPath.shape : Shape RepoPath :=
  fun value => (Shape.string value).map RepoPath.mk

/-- How a tool is read. -/
def Tool.layout : Structure Tool where
  name := "ToolMeta"
  fields := [("name", Shape.string.check), ("version", Shape.string.check)]
  build := fun fields => do
    let name ← fields.required 0 "name" Shape.string
    let version ← fields.required 1 "version" Shape.string
    pure ⟨name, version⟩

/-- How a place is read. -/
def Location.layout : Structure Location where
  name := "Location"
  fields := [("path", RepoPath.shape.check), ("line", Shape.count.nullable.check),
    ("col", Shape.count.nullable.check)]
  build := fun fields => do
    let path ← fields.required 0 "path" RepoPath.shape
    let line ← fields.optional 1 "line" Shape.count
    let column ← fields.optional 2 "col" Shape.count
    pure ⟨path, line, column⟩

/-- How a finding is read. Its data may be missing in any case. -/
def Finding.layout : Structure Finding where
  name := "Finding"
  fields := [("severity", Severity.shape.check), ("check_id", Shape.string.check),
    ("code", Shape.string.check), ("message", Shape.string.check),
    ("location", Location.layout.shape.nullable.check), ("help", Shape.string.nullable.check),
    ("url", Shape.string.nullable.check), ("fingerprint", Shape.string.nullable.check),
    ("data", Shape.any.check)]
  build := fun fields => do
    let severity ← fields.required 0 "severity" Severity.shape
    let checkId ← fields.required 1 "check_id" Shape.string
    let code ← fields.required 2 "code" Shape.string
    let message ← fields.required 3 "message" Shape.string
    let location ← fields.optional 4 "location" Location.layout.shape
    let help ← fields.optional 5 "help" Shape.string
    let url ← fields.optional 6 "url" Shape.string
    let fingerprint ← fields.optional 7 "fingerprint" Shape.string
    let data := (fields.find? 8 "data").getD .null
    pure ⟨severity, checkId, code, message, location, help, url, fingerprint, data⟩

/-- How the counts of a run are read. -/
def Summary.layout : Structure Summary where
  name := "IntlxmlData"
  fields := [("targets", (Shape.list Shape.string).check),
    ("documents_scanned", Shape.count.check), ("documents_failed", Shape.count.check),
    ("strings_checked", Shape.count.check), ("parse_errors", Shape.count.check),
    ("findings_total", Shape.count.check), ("findings_emitted", Shape.count.check),
    ("truncated_reason", Shape.string.nullable.check)]
  build := fun fields => do
    let targets ← fields.required 0 "targets" (Shape.list Shape.string)
    let documentsScanned ← fields.required 1 "documents_scanned" Shape.count
    let documentsFailed ← fields.required 2 "documents_failed" Shape.count
    let stringsChecked ← fields.required 3 "strings_checked" Shape.count
    let parseErrors ← fields.required 4 "parse_errors" Shape.count
    let findingsTotal ← fields.required 5 "findings_total" Shape.count
    let findingsEmitted ← fields.required 6 "findings_emitted" Shape.count
    let truncatedReason ← fields.optional 7 "truncated_reason" Shape.string
    pure ⟨targets, documentsScanned, documentsFailed, stringsChecked, parseErrors,
      findingsTotal, findingsEmitted, truncatedReason⟩

namespace Report

/-- How a report is read. -/
def layout : Structure Report where
  name := "Report"
  fields := [("schema", Shape.string.check), ("tool", Tool.layout.shape.check),
    ("started_at", Timestamp.shape.check), ("finished_at", Timestamp.shape.check),
    ("verdict", Verdict.shape.check), ("findings", (Shape.list Finding.layout.shape).check),
    ("data", Summary.layout.shape.check)]
  build := fun fields => do
    let schema ← fields.required 0 "schema" Shape.string
    let tool ← fields.required 1 "tool" Tool.layout.shape
    let startedAt ← fields.required 2 "started_at" Timestamp.shape
    let finishedAt ← fields.required 3 "finished_at" Timestamp.shape
    let verdict ← fields.required 4 "verdict" Verdict.shape
    let findings ← fields.required 5 "findings" (Shape.list Finding.layout.shape)
    let summary ← fields.required 6 "data" Summary.layout.shape
    pure ⟨schema, tool, startedAt, finishedAt, verdict, findings, summary⟩

/-- The schema that a value names; none counts as the empty one. -/
def schemaOf (value : Json) : String :=
  ((value.member? "schema").bind Json.text?).getD ""

/-- The report that a value spells. -/
def ofJson (value : Json) : Except Failure Report :=
  if schemaOf value ≠ schemaName then .error (Cause.failure (.reportSchema (schemaOf value)))
  else
    withStep "parse intlxml report"
      ((layout.shape value).mapError fun fault => Cause.failure (.reportShape fault))

/-- The report that a text spells. -/
def parse (text : String) : Except Failure Report :=
  match Json.parse? text with
  | none => withStep "parse report json" (.error (Cause.failure (@Cause.reportSyntax text)))
  | some value => ofJson value

end Report

end LocaleLint

import LocaleLint.Json.Printer
import LocaleLint.Report.Basic

/-!
# Writing reports

A report as JSON. Members stand in a fixed order, and one without a value is left out.
-/

set_option autoImplicit false

namespace LocaleLint

/-- The name of a verdict. -/
def Verdict.name : Verdict → String
  | .pass => "pass"
  | .warn => "warn"
  | .fail => "fail"

/-- The name of a severity. -/
def Severity.name : Severity → String
  | .info => "info"
  | .warning => "warning"
  | .error => "error"

namespace Json

/-- A counter as a number. -/
def ofCount (count : Count) : Json :=
  .int count.val

/-- A list of strings. -/
def ofStrings (texts : List String) : Json :=
  .array (texts.map Json.string)

/-- A member, if it has a value. -/
def optionalMember {α : Type} (key : String) (write : α → Json) (value : Option α) :
    List (String × Json) :=
  (value.map fun x => (key, write x)).toList

end Json

/-- A tool as JSON. -/
def Tool.toJson (tool : Tool) : Json :=
  .object [("name", .string tool.name), ("version", .string tool.version)]

/-- A place as JSON. -/
def Location.toJson (location : Location) : Json :=
  .object
    (("path", .string location.path.text) ::
      (Json.optionalMember "line" Json.ofCount location.line ++
        Json.optionalMember "col" Json.ofCount location.column))

/-- A finding as JSON. -/
def Finding.toJson (finding : Finding) : Json :=
  .object
    ([("severity", .string finding.severity.name), ("check_id", .string finding.checkId),
        ("code", .string finding.code), ("message", .string finding.message)] ++
      Json.optionalMember "location" Location.toJson finding.location ++
      Json.optionalMember "help" Json.string finding.help ++
      Json.optionalMember "url" Json.string finding.url ++
      Json.optionalMember "fingerprint" Json.string finding.fingerprint ++
      if finding.data.isNull then [] else [("data", finding.data)])

/-- The counts of a run as JSON. -/
def Summary.toJson (summary : Summary) : Json :=
  .object
    ([("targets", Json.ofStrings summary.targets),
        ("documents_scanned", Json.ofCount summary.documentsScanned),
        ("documents_failed", Json.ofCount summary.documentsFailed),
        ("strings_checked", Json.ofCount summary.stringsChecked),
        ("parse_errors", Json.ofCount summary.parseErrors),
        ("findings_total", Json.ofCount summary.findingsTotal),
        ("findings_emitted", Json.ofCount summary.findingsEmitted)] ++
      Json.optionalMember "truncated_reason" Json.string summary.truncatedReason)

namespace Report

/-- A report as JSON. -/
def toJson (report : Report) : Json :=
  .object
    [("schema", .string report.schema), ("tool", report.tool.toJson),
      ("started_at", .string report.startedAt.text),
      ("finished_at", .string report.finishedAt.text),
      ("verdict", .string report.verdict.name),
      ("findings", .array (report.findings.map Finding.toJson)),
      ("data", report.summary.toJson)]

/-- The text of a report file. -/
def text (report : Report) : String :=
  report.toJson.pretty

end Report

end LocaleLint

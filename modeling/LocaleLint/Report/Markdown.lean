import LocaleLint.Report.View

/-!
# Reports in Markdown

A report is written as a title, three lines of counts, a note when findings were cut off,
and a list with one entry for each finding. An entry is one line, with one further line
each for its help and its link.
-/

set_option autoImplicit false

namespace LocaleLint

/-- How a verdict is written in Markdown. -/
def Verdict.label : Verdict → String
  | .pass => "PASS"
  | .warn => "WARN"
  | .fail => "FAIL"

/-- How a severity is written in Markdown. -/
def Severity.label : Severity → String
  | .info => "INFO"
  | .warning => "WARN"
  | .error => "ERROR"

/-- A place in Markdown: the path, and the line where one is known. -/
def Location.markdown (location : Location) : String :=
  "`" ++ location.path.text ++ "`" ++
    match location.line with
    | some line => ":" ++ toString line.val
    | none => ""

namespace Notice

/-- The first line of an entry. -/
def markdownTitle (notice : Notice) : String :=
  "- [" ++ notice.severity.label ++ "] `" ++ notice.checkId.getD "" ++ "` / `" ++ notice.code ++
    "`: " ++ notice.message ++
    match notice.location with
    | some location => " (" ++ location.markdown ++ ")"
    | none => ""

/-- The lines of an entry. -/
def markdownLines (notice : Notice) : List String :=
  notice.markdownTitle ::
    ((notice.help.map fun help => "  - help: " ++ help).toList ++
      (notice.url.map fun url => "  - url: " ++ url).toList)

end Notice

namespace ReportView

/-- The lines above the findings. -/
def markdownHeader (view : ReportView) : List String :=
  ["# intlxml report", "",
    "- Verdict: **" ++ view.verdict.label ++ "**",
    "- Documents: " ++ toString view.documentsScanned.val ++ " scanned, " ++
      toString view.documentsFailed.val ++ " failed, " ++ toString view.parseErrors.val ++
      " not parsed",
    "- Findings: " ++ toString view.findingsEmitted.val ++ " (emitted) / " ++
      toString view.findingsTotal.val ++ " (total)",
    ""]

/-- The lines of the note about a cut. -/
def markdownNote (view : ReportView) : List String :=
  match view.truncatedReason with
  | some reason => ["> Note: " ++ reason, ""]
  | none => []

/-- The lines of the findings. -/
def markdownFindings (view : ReportView) : List String :=
  if view.notices.isEmpty then ["No findings."]
  else ["## Findings", ""] ++ view.notices.flatMap Notice.markdownLines

/-- The report in Markdown. -/
def markdown (view : ReportView) : String :=
  String.join
    ((view.markdownHeader ++ view.markdownNote ++ view.markdownFindings).map (· ++ "\n"))

end ReportView

end LocaleLint

import LocaleLint.Finding

/-!
# What renderers show of a report

Markdown and annotations show the verdict, the counts and the findings of a report, and
nothing else of it. A view holds just that.
-/

set_option autoImplicit false

namespace LocaleLint

/-- A finding as it is shown. The check may be unknown. -/
structure Notice where
  severity : Severity
  checkId : Option String := none
  code : String
  message : String
  location : Option Location := none
  help : Option String := none
  url : Option String := none
deriving DecidableEq, Repr

/-- A report as it is shown. -/
structure ReportView where
  verdict : Verdict
  notices : List Notice := []
  documentsScanned : Count := 0
  documentsFailed : Count := 0
  parseErrors : Count := 0
  findingsEmitted : Count := 0
  findingsTotal : Count := 0
  truncatedReason : Option String := none
deriving DecidableEq, Repr

/-- What is shown of a finding. -/
def Finding.notice (finding : Finding) : Notice where
  severity := finding.severity
  checkId := some finding.checkId
  code := finding.code
  message := finding.message
  location := finding.location
  help := finding.help
  url := finding.url

end LocaleLint

import LocaleLint.Count
import LocaleLint.RepoPath
import LocaleLint.Json.Value

/-!
# Findings

What a check has to say about one place: how severe it is, which check and code
it belongs to, where it is and what to do about it. The identifiers of the checks
and codes are stable, and reports are keyed by them.
-/

set_option autoImplicit false

namespace LocaleLint

/-- How severe a finding is. -/
inductive Severity
  | info
  | warning
  | error
deriving DecidableEq, Repr

/-- How a whole run is judged. -/
inductive Verdict
  | pass
  | warn
  | fail
deriving DecidableEq, Repr

/-- A place in a document. -/
structure Location where
  path : RepoPath
  line : Option Count := none
  column : Option Count := none
deriving DecidableEq, Repr

/-- One finding. The fingerprint identifies it from run to run, and the data depend
on its check. -/
structure Finding where
  severity : Severity
  checkId : String
  code : String
  message : String
  location : Option Location := none
  help : Option String := none
  url : Option String := none
  fingerprint : Option String := none
  data : Json := .null
deriving BEq, Repr

namespace CheckId

/-- The check for literal text. -/
def untranslatedText : String := "intl.untranslated_text"

/-- The check that a document can be read. -/
def documentParse : String := "intl.xml_parse"

/-- Failures of the tool itself. -/
def toolRuntime : String := "tool.runtime"

end CheckId

namespace Code

/-- A text that is not translated. -/
def literalText : String := "literal_text"

/-- A document that is not well formed. -/
def parseError : String := "parse_error"

/-- A document that could not be read. -/
def readError : String := "read_error"

/-- A run that could not be completed. -/
def runtimeError : String := "runtime_error"

end Code

namespace Finding

/-- The offending text of a finding about literal text, if its data name one. -/
def text? (finding : Finding) : Option String :=
  (finding.data.member? "text").bind Json.text?

end Finding

end LocaleLint

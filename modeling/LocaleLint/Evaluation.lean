import LocaleLint.Collect
import LocaleLint.Document
import LocaleLint.Finding
import LocaleLint.Fingerprint
import LocaleLint.Text.Blank
import LocaleLint.Wording

/-!
# Evaluation of a batch

Judges every text of every document. A document has an outcome, outcomes are
counted in a tally, and findings are gathered document by document. The evaluation
of a batch is the list of all findings cut off at a limit, with counts that are
taken before the cut. The verdict depends on the tally alone, so no limit changes
it.
-/

set_option autoImplicit false

namespace LocaleLint

/-- How texts are collected, and how many findings are kept. -/
structure Policy where
  collect : CollectOptions := {}
  maxFindings : Nat := 1000
deriving DecidableEq, Repr

/-- The result for one document; the failures are its literal texts, trimmed. -/
structure Outcome where
  path : RepoPath
  target : String
  stringsChecked : Count
  failures : List String
  loadError : Option String
deriving DecidableEq, Repr

/-- The counters of a run. -/
structure Tally where
  documentsScanned : Count := 0
  documentsFailed : Count := 0
  stringsChecked : Count := 0
  parseErrors : Count := 0
deriving DecidableEq, Repr

/-- The counts of a run as a report shows them. -/
structure Summary where
  targets : List String := []
  documentsScanned : Count := 0
  documentsFailed : Count := 0
  stringsChecked : Count := 0
  parseErrors : Count := 0
  findingsTotal : Count := 0
  findingsEmitted : Count := 0
  truncatedReason : Option String := none
deriving DecidableEq, Repr

/-- The evaluation of a batch. -/
structure Evaluation where
  verdict : Verdict
  findings : List Finding
  summary : Summary
  tally : Tally
  outcomes : List Outcome
deriving BEq, Repr

namespace Outcome

/-- Whether the document has a literal text. -/
def failed (outcome : Outcome) : Bool :=
  !outcome.failures.isEmpty

/-- The finding about one literal text of the document. -/
def textFinding (outcome : Outcome) (identity : TextIdentity) : Finding where
  severity := .error
  checkId := CheckId.untranslatedText
  code := Code.literalText
  message := "untranslated text: " ++ identity.text
  location := some { path := outcome.path }
  help := some ("Wrap this string in a $\x7bgs.getMessage()\x7d jelly script or equivalent " ++
    "to make it international-friendly.")
  fingerprint := some identity.fingerprint
  data := .object [("document", .string outcome.path.text), ("target", .string outcome.target),
    ("text", .string identity.text)]

/-- One finding for each literal text of the document, in order. -/
def textFindings (outcome : Outcome) : List Finding :=
  (TextIdentity.ofTexts outcome.path outcome.failures).map outcome.textFinding

end Outcome

namespace Tally

/-- The counts of one document: it failed once, however many of its texts did. -/
def ofOutcome (outcome : Outcome) : Tally where
  documentsScanned := 1
  documentsFailed := if outcome.failed then 1 else 0
  stringsChecked := outcome.stringsChecked
  parseErrors := if outcome.loadError.isSome then 1 else 0

/-- The counts of two runs together. -/
def merge (a b : Tally) : Tally where
  documentsScanned := a.documentsScanned + b.documentsScanned
  documentsFailed := a.documentsFailed + b.documentsFailed
  stringsChecked := a.stringsChecked + b.stringsChecked
  parseErrors := a.parseErrors + b.parseErrors

/-- The counts of a list of outcomes. -/
def ofOutcomes (outcomes : List Outcome) : Tally :=
  (outcomes.map ofOutcome).foldl merge {}

/-- What the process reports: 1 when a document failed, else 0. -/
def outcomeCode (tally : Tally) : Nat :=
  if 0 < tally.documentsFailed.val then 1 else 0

/-- A failed document fails the run; a document that was not loaded only warns. -/
def verdict (tally : Tally) : Verdict :=
  if 0 < tally.documentsFailed.val then .fail
  else if 0 < tally.parseErrors.val then .warn
  else .pass

end Tally

/-- The texts that are literal copy, trimmed, in their order. -/
def literalTexts (texts : List String) : List String :=
  (texts.map (Text.trim Text.isMargin)).filter fun text => !Wording.isLegal text

namespace Document

/-- The outcome of one document. -/
def outcome (options : CollectOptions) (document : Document) : Outcome :=
  let texts := document.tree.collectLeaves options
  { path := document.path
    target := document.target
    stringsChecked := Count.ofNat texts.length
    failures := literalTexts texts
    loadError := document.failure.map (·.message) }

/-- The finding about a document that was not loaded. -/
def failureFinding (path : RepoPath) (failure : LoadFailure) : Finding where
  severity := .warning
  checkId := CheckId.documentParse
  code := match failure.kind with
    | .read => Code.readError
    | .parse => Code.parseError
  message := failure.message
  location := some { path := path, line := failure.line, column := failure.column }
  help := some "Fix the markup so the document parses; its text was not checked."
  data := .object [("document", .string path.text)]

end Document

/-- What a run has gathered of the documents behind it: their findings and their outcomes, the
latest first. -/
structure Gathering where
  findings : List Finding := []
  outcomes : List Outcome := []
deriving BEq, Repr

namespace Gathering

/-- Adds a finding. -/
def push (gathering : Gathering) (finding : Finding) : Gathering :=
  { gathering with findings := finding :: gathering.findings }

/-- Adds a document: that it was not loaded, then its literal texts, and its outcome. -/
def add (options : CollectOptions) (gathering : Gathering) (document : Document) : Gathering :=
  let warned := match document.failure with
    | some failure => gathering.push (Document.failureFinding document.path failure)
    | none => gathering
  let outcome := document.outcome options
  let noted := outcome.textFindings.foldl push warned
  { noted with outcomes := outcome :: noted.outcomes }

end Gathering

namespace Batch

/-- What is gathered of the documents of a batch. -/
def gather (options : CollectOptions) (batch : Batch) : Gathering :=
  batch.documents.foldl (Gathering.add options) {}

/-- The note about a cut to `limit` findings. -/
def truncationNote (limit : Nat) : String :=
  "findings truncated to max_findings=" ++ toString limit

/-- Evaluates a batch under a policy. -/
def evaluate (policy : Policy) (batch : Batch) : Evaluation :=
  let gathering := batch.gather policy.collect
  let outcomes := gathering.outcomes.reverse
  let tally := Tally.ofOutcomes outcomes
  let all := gathering.findings.reverse
  let emitted := all.take policy.maxFindings
  { verdict := tally.verdict
    findings := emitted
    summary :=
      { targets := batch.targets
        documentsScanned := tally.documentsScanned
        documentsFailed := tally.documentsFailed
        stringsChecked := tally.stringsChecked
        parseErrors := tally.parseErrors
        findingsTotal := Count.ofNat all.length
        findingsEmitted := Count.ofNat emitted.length
        truncatedReason :=
          if policy.maxFindings < all.length then some (truncationNote policy.maxFindings)
          else none }
    tally := tally
    outcomes := outcomes }

end Batch

end LocaleLint

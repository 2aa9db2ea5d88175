import LocaleLint.Check
import LocaleLint.CommandLine.Invocation
import LocaleLint.Explanation
import LocaleLint.Report.Command
import LocaleLint.Report.Markdown
import LocaleLint.Report.Reading

/-!
# Running the program

Carries out an invocation on a host. A run ends with an exit code and with what it prints:
zero for success, one for documents that fail or for a saved report that cannot be shown,
two for a check that cannot be completed and for arguments that are not understood. A check
that cannot be completed says so in its report file, too.
-/

set_option autoImplicit false

namespace LocaleLint.CommandLine

/-- How a run ends. -/
structure Exit where
  code : Nat
  stdout : String := ""
  stderr : String := ""
deriving DecidableEq, Repr

variable {m : Type → Type} [Monad m] [Host m] [Complaints]

/-! ## Files -/

/-- A result of the host as an action that may fail. -/
def fromHost {α : Type} (action : m (Except FileFault α)) : ExceptT Failure m α :=
  ExceptT.mk do
    match ← action with
    | .ok value => pure (.ok value)
    | .error fault => pure (.error (Cause.failure (.file fault)))

/-- The text of a file. -/
def readText (path : String) : ExceptT Failure m String := do
  let bytes ← fromHost (Host.read path)
  match Text.Utf8.decode bytes with
  | .ok text => pure (String.ofList text)
  | .error _ => throw (Cause.failure (.file .notText))

/-- Writes a text to a file, in a directory that is made where it is missing. -/
def writeText (what path text : String) : ExceptT Failure m Unit := do
  match PathText.parent? path with
  | some parent =>
    duringStep ("create directory: " ++ parent) (fromHost (Host.makeDirectories parent))
  | none => pure ()
  duringStep ("write " ++ what ++ ": " ++ path)
    (fromHost (Host.write path text.toUTF8.toList))

/-! ## Checking -/

/-- The text of the configuration file; one that is missing sets nothing. -/
def readConfig (path : String) : ExceptT Failure m String :=
  ExceptT.mk do
    match ← (readText path).run with
    | .error ⟨[], .file .notFound⟩ => pure (.ok "")
    | result => pure (withStep ("read config: " ++ path) result)

/-- What the caller of a check overrides. -/
def CheckRequest.overrides (request : CheckRequest) : Overrides where
  paths := request.paths
  targets := request.targets
  checkAttributes := if request.checkAttributes then some true else none
  maxFindings := request.maxFindings

/-- Runs the check that is asked for, before anything is printed or written. -/
def CheckRequest.perform (request : CheckRequest) (root config : String) :
    ExceptT Failure m CheckResult := do
  let canonical ← ExceptT.lift (Host.canonical? root)
  let root := canonical.getD root
  if !(← ExceptT.lift (Host.isPresent root)) then
    throw (Cause.failure (.rootMissing root))
  let text ← readConfig (PathText.join root config)
  CheckInput.run { root := root, configText := text, overrides := request.overrides }

/-- Writes the files that are asked for. -/
def CheckRequest.deliver (request : CheckRequest) (result : CheckResult) :
    ExceptT Failure m Unit := do
  match request.reportFile with
  | some path =>
    duringStep "write report json" (writeText "report" path result.report.text)
  | none => pure ()
  if request.writeMarkdown then
    duringStep "write markdown" (writeText "text" request.markdownFile result.report.view.markdown)

/-- Ends a check that cannot be completed. The report file says why, if it can be written. -/
def CheckRequest.abandon (request : CheckRequest) (printed : String) (failure : Failure) :
    m Exit := do
  match request.reportFile with
  | some path =>
    let report := Report.ofFailure (← Host.now) failure.message
    let _ ← (writeText "report" path report.text).run
  | none => pure ()
  pure ⟨2, printed, "intlxml error: " ++ failure.message ++ "\n"⟩

/-- Carries out a check. -/
def CheckRequest.run (request : CheckRequest) (root config : String) (color : Bool) : m Exit := do
  match ← (request.perform root config).run with
  | .error failure => request.abandon "" failure
  | .ok result =>
    let listing := result.summary.render (color && !request.plain)
    match ← (request.deliver result).run with
    | .error failure => request.abandon listing failure
    | .ok () => pure ⟨result.evaluation.tally.outcomeCode, listing, ""⟩

/-! ## Showing -/

/-- The report that a file holds. -/
def readReport (path : String) : ExceptT Failure m Report := do
  let text ← duringStep ("read report: " ++ path) (readText path)
  ExceptT.mk (pure (Report.parse text))

/-- Ends an action with what it prints, or with why it failed. -/
def exitWith (action : ExceptT Failure m String) : m Exit := do
  match ← action.run with
  | .ok text => pure ⟨0, text, ""⟩
  | .error failure => pure ⟨1, "", "Error: " ++ failure.account ++ "\n"⟩

/-- Shows a saved report in Markdown, or writes that to a file. -/
def showMarkdown (path : String) (output : Option String) : ExceptT Failure m String := do
  let report ← readReport path
  match output with
  | none => pure report.view.markdown
  | some file =>
    duringStep "write markdown output" (writeText "text" file report.view.markdown)
    pure ""

/-- Shows a saved report as workflow commands, at most `limit` of them. -/
def showWorkflow (path : String) (limit : Nat) : ExceptT Failure m String := do
  let report ← readReport path
  pure (String.join ((report.view.commands.take limit).map (· ++ "\n")))

/-- Explains a check or code. -/
def explain (identifier : String) : Exit :=
  match Explanation.find? identifier with
  | some explanation => ⟨0, explanation.text, ""⟩
  | none => ⟨1, "", Explanation.unknownText identifier⟩

/-! ## Running -/

/-- How the program is used. -/
def usage : String :=
  "Usage: intlxml [--root DIR] [--config FILE] [-v] COMMAND\n\n" ++
    "Commands:\n" ++
    "  check [PATHS]... [--target NAME]... [--check-attributes] [--max-findings N]\n" ++
    "        [--report-out FILE] [--write-markdown] [--markdown-out FILE] [--no-color]\n" ++
    "  md [--report FILE] [-o FILE]\n" ++
    "  annotations [--report FILE] [--max N]\n" ++
    "  explain IDENTIFIER\n"

/-- How a run ends that does nothing else. -/
def Stop.exit : Stop → Exit
  | .version => ⟨0, Tool.this.name ++ " " ++ Tool.this.version ++ "\n", ""⟩
  | .help => ⟨0, usage, ""⟩
  | .nothing => ⟨2, "", usage⟩
  | .misuse => ⟨2, "", "error: the arguments are not understood\n\n" ++ usage⟩

/-- Carries out an invocation. -/
def Invocation.run (invocation : Invocation) (color : Bool) : m Exit :=
  match invocation.command with
  | .check request => request.run invocation.root invocation.config color
  | .markdown report output => exitWith (showMarkdown report output)
  | .workflow report limit => exitWith (showWorkflow report limit)
  | .explain identifier => pure (explain identifier)

/-- Runs the program on its arguments. -/
def run (arguments : List String) (color : Bool) : m Exit :=
  match Invocation.ofArguments arguments with
  | .ok invocation => invocation.run color
  | .error stop => pure stop.exit

end LocaleLint.CommandLine

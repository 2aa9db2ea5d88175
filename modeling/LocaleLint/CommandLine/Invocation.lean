import LocaleLint.CommandLine.Arguments
import LocaleLint.Count
import LocaleLint.Text.Digit

/-!
# Invocations

What the program is asked to do: to check documents, to show a saved report in Markdown or
as workflow commands, or to explain a check. Two options stand before the command, the root
and the configuration file.
-/

set_option autoImplicit false

namespace LocaleLint.CommandLine

/-- The file in which a report is written in Markdown. -/
def markdownComment : String := "artifacts/intlxml/comment.md"

/-- What a check is asked to do. -/
structure CheckRequest where
  paths : List String := []
  targets : List String := []
  checkAttributes : Bool := false
  maxFindings : Option Count := none
  reportFile : Option String := none
  writeMarkdown : Bool := false
  markdownFile : String := markdownComment
  plain : Bool := false
deriving DecidableEq, Repr

/-- The file in which a saved report is looked for. -/
def savedReport : String := "artifacts/intlxml/report.json"

/-- A command with what it is given. -/
inductive Command where
  | check (request : CheckRequest)
  | markdown (report : String) (output : Option String)
  | workflow (report : String) (limit : Nat)
  | explain (identifier : String)
deriving DecidableEq, Repr

/-- What the program is asked to do. -/
structure Invocation where
  root : String := "."
  config : String := "intlxml.toml"
  command : Command
deriving DecidableEq, Repr

/-- The options that every command understands. -/
def commonOptions : List OptionSpec :=
  [{ name := "verbose", letter := some 'v', takesValue := false },
    { name := "help", letter := some 'h', takesValue := false, stop := some .help }]

/-- What stands before the command. -/
def programSpec : Spec where
  options := commonOptions ++
    [{ name := "root" }, { name := "config" },
      { name := "version", letter := some 'V', takesValue := false, stop := some .version }]
  commands := ["check", "md", "annotations", "explain", "help"]

/-- What stands after `check`. -/
def checkSpec : Spec where
  options := commonOptions ++
    [{ name := "target", repeatable := true },
      { name := "check-attributes", takesValue := false }, { name := "max-findings" },
      { name := "report-out" }, { name := "write-markdown", takesValue := false },
      { name := "markdown-out" }, { name := "no-color", takesValue := false }]
  words := .many

/-- What stands after `md`. -/
def markdownSpec : Spec where
  options := commonOptions ++ [{ name := "report" }, { name := "output", letter := some 'o' }]

/-- What stands after `annotations`. -/
def workflowSpec : Spec where
  options := commonOptions ++ [{ name := "report" }, { name := "max" }]

/-- What stands after `explain`. -/
def explainSpec : Spec where
  options := commonOptions
  words := .one

/-- The number that digits spell, a plus sign in front allowed. -/
def number? (text : String) : Option Nat :=
  let digits := match text.toList with
    | '+' :: rest => rest
    | s => s
  if digits.isEmpty || !digits.all Text.isDigit then none else some (Text.decimalValue digits)

/-- The counter that a text spells. Zero may have a minus sign. -/
def count? (text : String) : Option Count :=
  match text.toList with
  | '-' :: rest =>
    if rest.isEmpty || !rest.all (· = '0') then none else some 0
  | _ => (number? text).bind Count.ofNat?

/-- The greatest limit on the number of workflow commands. -/
def greatestLimit : Nat := 18446744073709551615

/-- The limit that a text spells. -/
def limit? (text : String) : Option Nat :=
  (number? text).filter (· ≤ greatestLimit)

/-- Reads the value of an option, if it is given. -/
def valueBy {α : Type} (read : String → Option α) (given : Given) (name : String) :
    Except Stop (Option α) :=
  match given.value? name with
  | none => .ok none
  | some text =>
    match read text with
    | some value => .ok (some value)
    | none => .error .misuse

/-- All arguments of a command. -/
def readCommand (spec : Spec) (arguments : List String) : Except Stop Given :=
  (readAll spec {} none arguments).map (·.1)

/-- The command of a name. -/
def Command.ofArguments (name : String) (arguments : List String) : Except Stop Command :=
  match name with
  | "check" => do
    let given ← readCommand checkSpec arguments
    let maxFindings ← valueBy count? given "max-findings"
    pure (.check
      { paths := given.words
        targets := given.values "target"
        checkAttributes := given.has "check-attributes"
        maxFindings := maxFindings
        reportFile := given.value? "report-out"
        writeMarkdown := given.has "write-markdown"
        markdownFile := (given.value? "markdown-out").getD markdownComment
        plain := given.has "no-color" })
  | "md" => do
    let given ← readCommand markdownSpec arguments
    pure (.markdown ((given.value? "report").getD savedReport) (given.value? "output"))
  | "annotations" => do
    let given ← readCommand workflowSpec arguments
    let limit ← valueBy limit? given "max"
    pure (.workflow ((given.value? "report").getD savedReport) (limit.getD 10))
  | "explain" => do
    let given ← readCommand explainSpec arguments
    match given.words with
    | identifier :: _ => pure (.explain identifier)
    | [] => throw .misuse
  | _ => .error .help

/-- What the arguments of the program ask for. -/
def Invocation.ofArguments (arguments : List String) : Except Stop Invocation := do
  let (given, rest) ← readAll programSpec {} none arguments
  match rest with
  | [] => throw (if given.isEmpty then .nothing else .misuse)
  | name :: rest =>
    let command ← Command.ofArguments name rest
    pure
      { root := (given.value? "root").getD "."
        config := (given.value? "config").getD "intlxml.toml"
        command := command }

end LocaleLint.CommandLine

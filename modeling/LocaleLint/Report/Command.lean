import LocaleLint.Report.View

/-!
# Workflow commands

A finding as the command by which a workflow runner annotates a place: the level, the
place as properties, and the message. Characters that would end the command or a
property are written as percent escapes.
-/

set_option autoImplicit false

namespace LocaleLint

/-- The level of a command. -/
def Severity.commandLevel : Severity → String
  | .error => "error"
  | .warning => "warning"
  | .info => "notice"

namespace Command

/-- How a character is written in a message. -/
def dataChar (c : Char) : List Char :=
  if c = '%' then ['%', '2', '5']
  else if c = '\r' then ['%', '0', 'D']
  else if c = '\n' then ['%', '0', 'A']
  else [c]

/-- How a character is written in a property, where colons and commas have a meaning. -/
def propertyChar (c : Char) : List Char :=
  if c = ':' then ['%', '3', 'A']
  else if c = ',' then ['%', '2', 'C']
  else dataChar c

/-- A message with its escapes. -/
def escapeData (text : String) : String :=
  String.ofList (text.toList.flatMap dataChar)

/-- The value of a property with its escapes. -/
def escapeProperty (text : String) : String :=
  String.ofList (text.toList.flatMap propertyChar)

/-- The properties that name a place. -/
def properties (location : Location) : List String :=
  ("file=" ++ escapeProperty location.path.text) ::
    ((location.line.map fun line => "line=" ++ toString line.val).toList ++
      (location.column.map fun column => "col=" ++ toString column.val).toList)

/-- The check that is named when a notice has none. -/
def defaultCheck : String := "intlxml"

end Command

/-- The text of a notice: its check, its code and its message. -/
def Notice.commandText (notice : Notice) : String :=
  "[" ++ notice.checkId.getD Command.defaultCheck ++ ":" ++ notice.code ++ "] " ++
    notice.message

/-- The command for a notice. -/
def Notice.command (notice : Notice) : String :=
  "::" ++ notice.severity.commandLevel ++
    (match notice.location with
      | some location => " " ++ ",".intercalate (Command.properties location)
      | none => "") ++
    "::" ++ Command.escapeData notice.commandText

/-- The commands for all notices of a report, in order. -/
def ReportView.commands (view : ReportView) : List String :=
  view.notices.map Notice.command

end LocaleLint

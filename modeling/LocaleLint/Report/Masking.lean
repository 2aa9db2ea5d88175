import LocaleLint.Json.Value

/-!
# Masking what differs between runs

Two runs over the same documents write the same report but for the times, and for the
version of the tool. Masking puts placeholders in place of these, so that reports can be
compared. Times are masked at any depth, the version only at the root of a report.
-/

set_option autoImplicit false

namespace LocaleLint.Json

/-- What stands in place of a time. -/
def timestampMask : String := "__TIMESTAMP__"

/-- What stands in place of a version. -/
def versionMask : String := "__VERSION__"

/-- The keys of times. -/
def timeKeys : List String := ["started_at", "finished_at"]

/-- The keys that all reports have. -/
def reportKeys : List String := ["schema", "tool", "verdict", "findings", "data"]

mutual

/-- Masks the times in a value. -/
def maskTimes : Json → Json
  | .array items => .array (maskTimesInItems items)
  | .object members => .object (maskTimesInMembers members)
  | value => value

/-- Masks the times in a list of values. -/
def maskTimesInItems : List Json → List Json
  | [] => []
  | item :: rest => maskTimes item :: maskTimesInItems rest

/-- Masks the times in the members of an object. -/
def maskTimesInMembers : List (String × Json) → List (String × Json)
  | [] => []
  | (key, value) :: rest =>
    (key, if timeKeys.contains key then .string timestampMask else maskTimes value) ::
      maskTimesInMembers rest

end

/-- Replaces the members under a key. -/
def replaceMember (key : String) (f : Json → Json) (members : List (String × Json)) :
    List (String × Json) :=
  members.map fun member => if member.1 = key then (member.1, f member.2) else member

/-- Masks the version of a tool. -/
def maskVersion : Json → Json
  | .object members => .object (replaceMember "version" (fun _ => .string versionMask) members)
  | value => value

/-- Whether the members are those of a report. -/
def isReport (members : List (String × Json)) : Bool :=
  reportKeys.all fun key => members.any (·.1 = key)

/-- Masks the version of the tool if the value is a report. -/
def maskTool : Json → Json
  | .object members =>
    .object (if isReport members then replaceMember "tool" maskVersion members else members)
  | value => value

/-- Masks what differs between runs. -/
def masked (value : Json) : Json :=
  value.maskTool.maskTimes

end LocaleLint.Json

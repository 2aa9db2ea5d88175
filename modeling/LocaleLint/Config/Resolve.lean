import LocaleLint.Config.Basic
import LocaleLint.Evaluation
import LocaleLint.FilePattern
import LocaleLint.Text.Blank

/-!
# Resolving a configuration

Settles what a run does from the configuration and from what the caller overrides. Paths
given by the caller replace the configured targets; names given by the caller select
among them. Every pattern that is left has to be a glob.
-/

set_option autoImplicit false

namespace LocaleLint

/-- What the caller of a run overrides. -/
structure Overrides where
  paths : List String := []
  targets : List String := []
  checkAttributes : Option Bool := none
  maxFindings : Option Count := none
deriving DecidableEq, Repr

/-- A target with its patterns. -/
structure Target where
  name : String
  patterns : List String
deriving DecidableEq, Repr

/-- What a run does. -/
structure Plan where
  policy : Policy
  targets : List Target
deriving DecidableEq, Repr

namespace Config

/-- The configuration that a text spells. A text of spaces alone sets nothing. -/
def parse (text : String) : Except Failure Config :=
  match Toml.parse? text with
  | none => .error (Cause.failure (@Cause.configSyntax text))
  | some entries =>
    (ofEntries entries).mapError fun fault => Cause.failure (@Cause.configShape text fault)

/-- The name of the target for paths given by the caller. -/
def callerTarget : String := "cli"

/-- The targets of a run, before their patterns are checked. -/
def selectTargets (config : Config) (overrides : Overrides) : Except Failure (List Target) :=
  if !overrides.paths.isEmpty then .ok [⟨callerTarget, overrides.paths⟩]
  else
    let names := config.targets.map (·.1)
    match overrides.targets.find? fun name => !names.contains name with
    | some name => .error (Cause.failure (.unknownTarget name names))
    | none =>
      let selected := config.targets.filter fun entry =>
        overrides.targets.isEmpty || overrides.targets.contains entry.1
      .ok (selected.map fun entry => ⟨entry.1, entry.2⟩)

/-- Checks that a pattern of a target is a glob. -/
def checkPattern (target pattern : String) : Except Failure Unit :=
  let text := FilePattern.glob pattern
  match Glob.parse text with
  | .ok _ => .ok ()
  | .error fault =>
    .error ((Cause.failure (.glob text fault)).within
      ("invalid pattern for target " ++ target ++ ": " ++ pattern))

/-- Checks the patterns of the targets in turn. -/
def checkPatterns (targets : List Target) : Except Failure Unit :=
  targets.forM fun target => target.patterns.forM (checkPattern target.name)

/-- The policy of a run. What the caller gives counts before the configuration. -/
def policy (config : Config) (overrides : Overrides) : Policy where
  collect :=
    { ignore := IgnoreSet.standard.insertMany config.ignoreTags
      attributes := (overrides.checkAttributes.or config.checkAttributes).getD false }
  maxFindings := ((overrides.maxFindings.or config.maxFindings).map (·.val)).getD 1000

/-- Settles what a run does. -/
def resolve (config : Config) (overrides : Overrides) : Except Failure Plan := do
  match config.schema.filter (· ≠ Cause.configSchemaName) with
  | some schema => throw (Cause.failure (.configSchema schema))
  | none => pure ()
  if config.ignoreTags.any (Text.isAll Text.isSpace) then
    throw (Cause.failure .emptyIgnoreTag)
  let targets ← config.selectTargets overrides
  checkPatterns targets
  pure ⟨config.policy overrides, targets⟩

end Config

end LocaleLint

import LocaleLint.Glob.Pattern
import LocaleLint.Shape
import LocaleLint.FileTree.Fault

/-!
# Failures

Why a run cannot go on. A failure has a cause, and the steps in which it was met, the
outermost first; it is told as one line in which colons join them. What the libraries that
read TOML and JSON say about a text that they refuse is a parameter of what is told.
-/

set_option autoImplicit false

namespace LocaleLint

/-- The words of the libraries that read TOML and JSON, about a text that they refuse. -/
class Complaints where
  /-- What is said about a text that is not TOML. -/
  toml : String → String
  /-- What is said about TOML that is not of the shape that is asked for. -/
  tomlShape : String → ShapeFault → String
  /-- What is said about a text that is not JSON. -/
  json : String → String

/-- The words of readers that tell that a text is refused, and no more of the place than the
fault of its shape does. -/
instance Complaints.terse : Complaints where
  toml _ := "TOML parse error"
  tomlShape _ fault := "TOML parse error: " ++ fault.message
  json _ := "invalid JSON"

/-- The cause of a failure. A text that was refused is part of it. -/
inductive Cause where
  | configSyntax {text : String}
  | configShape {text : String} (fault : ShapeFault)
  | configSchema (schema : String)
  | emptyIgnoreTag
  | unknownTarget (name : String) (configured : List String)
  | glob (text : String) (fault : Glob.Fault)
  | rootMissing (root : String)
  | rootNotDirectory (root : String)
  | reportSyntax {text : String}
  | reportShape (fault : ShapeFault)
  | reportSchema (schema : String)
  | file (fault : FileFault)
deriving DecidableEq, Repr

/-- A cause with the steps in which it was met. -/
structure Failure where
  steps : List String := []
  cause : Cause
deriving DecidableEq, Repr

namespace Cause

/-- The schema that a configuration file may name. -/
def configSchemaName : String := "intlxml.config.v1"

/-- What is said about a cause. -/
def message [Complaints] : Cause → String
  | @configSyntax text => Complaints.toml text
  | @configShape text fault => Complaints.tomlShape text fault
  | .configSchema schema =>
    "unsupported config schema: " ++ schema ++ " (expected " ++ configSchemaName ++ ")"
  | .emptyIgnoreTag => "ignore_tags entries must not be empty"
  | .unknownTarget name configured =>
    "unknown target: " ++ name ++ " (configured: " ++ ", ".intercalate configured ++ ")"
  | .glob text fault => "error parsing glob '" ++ text ++ "': " ++ fault.message
  | .rootMissing root => "root does not exist: " ++ root
  | .rootNotDirectory root => "root is not a directory: " ++ root
  | @reportSyntax text => Complaints.json text
  | .reportShape fault => fault.message
  | .reportSchema schema => "unknown report schema: " ++ schema
  | .file fault => fault.message

end Cause

namespace Failure

/-- The failure met in a further step around it. -/
def within (step : String) (failure : Failure) : Failure :=
  { failure with steps := step :: failure.steps }

variable [Complaints]

/-- The steps and the cause, the outermost first. -/
def chain (failure : Failure) : List String :=
  failure.steps ++ [failure.cause.message]

/-- What is said about a failure. -/
def message (failure : Failure) : String :=
  ": ".intercalate failure.chain

/-- The outermost step, or the cause when it was met in none. -/
def headline (failure : Failure) : String :=
  failure.chain.headD ""

/-- The headline, and below it what it was caused by, numbered if that is more than one
thing. -/
def account (failure : Failure) : String :=
  match failure.chain.tail with
  | [] => failure.headline
  | [cause] => failure.headline ++ "\n\nCaused by:\n    " ++ cause
  | causes =>
    failure.headline ++ "\n\nCaused by:" ++
      String.join (causes.mapIdx fun i cause => "\n    " ++ toString i ++ ": " ++ cause)

end Failure

/-- A cause met in no step. -/
def Cause.failure (cause : Cause) : Failure := { cause := cause }

/-- Names the step in which a failure may arise. -/
def withStep {α : Type} (step : String) (result : Except Failure α) : Except Failure α :=
  result.mapError (Failure.within step)

/-- Names the step in which a failure of an action may arise. -/
def duringStep {m : Type → Type} [Monad m] {α : Type} (step : String)
    (action : ExceptT Failure m α) : ExceptT Failure m α :=
  action.adapt (Failure.within step)

end LocaleLint

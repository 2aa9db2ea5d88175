import LocaleLint.Console
import LocaleLint.FileGroup
import LocaleLint.Report.Basic

/-!
# Checks

A check settles what to do from a configuration, loads the documents below a root, and
evaluates them. Its report and its listing are views of the evaluation.
-/

set_option autoImplicit false

namespace LocaleLint

/-- What a check is given. -/
structure CheckInput where
  root : String
  configText : String := ""
  overrides : Overrides := {}
deriving DecidableEq, Repr

/-- What a check finds. -/
structure CheckResult where
  plan : Plan
  evaluation : Evaluation
  startedAt : Timestamp
  finishedAt : Timestamp
deriving BEq, Repr

namespace CheckResult

/-- The report of a check. -/
def report (result : CheckResult) : Report :=
  Report.ofEvaluation result.startedAt result.finishedAt result.evaluation

/-- The listing of a check. -/
def summary (result : CheckResult) : ConsoleSummary :=
  ConsoleSummary.ofEvaluation result.evaluation

end CheckResult

namespace CheckInput

/-- The configuration of a check. A text without any mark sets nothing. -/
def config (input : CheckInput) : Except Failure Config :=
  if Text.isAll Text.isSpace input.configText then .ok {}
  else withStep "parse config" (Config.parse input.configText)

/-- What a check does. -/
def plan (input : CheckInput) : Except Failure Plan := do
  let config ← input.config
  withStep "resolve config" (config.resolve input.overrides)

variable {m : Type → Type} [Monad m] [Host m]

/-- Runs a check. -/
def run (input : CheckInput) : ExceptT Failure m CheckResult := do
  let startedAt ← ExceptT.lift Host.now
  let plan ← ExceptT.mk (pure input.plan)
  if !(← ExceptT.lift (Host.isDirectory input.root)) then
    throw (Cause.failure (.rootNotDirectory input.root))
  let groups ← duringStep "discover documents" (plan.targets.mapM (FileGroup.discover input.root))
  let batch ← ExceptT.lift (Batch.load input.root groups)
  let evaluation := batch.evaluate plan.policy
  let finishedAt ← ExceptT.lift Host.now
  pure ⟨plan, evaluation, startedAt, finishedAt⟩

end CheckInput

end LocaleLint

import LocaleLint.Check
import LocaleLint.Proofs.Except

/-!
# Stages of a check

A check that is completed has settled a plan, found the files of its targets, loaded their documents
and evaluated them (`CheckInput.stages_of_run_ok`); on a file tree it is completed when all of
this succeeds (`CheckInput.run_of_stages`).
-/

set_option autoImplicit false

namespace LocaleLint.CheckInput

/-- Without a configuration, the paths of the caller are what is checked. -/
theorem plan_of_paths (root : String) {overrides : Overrides} (hpaths : overrides.paths ≠ [])
    (h : Config.checkPatterns [⟨Config.callerTarget, overrides.paths⟩] = .ok ()) :
    plan ⟨root, "", overrides⟩ =
      .ok ⟨Config.policy {} overrides, [⟨Config.callerTarget, overrides.paths⟩]⟩ := by
  have hselected : Config.selectTargets {} overrides =
      .ok [⟨Config.callerTarget, overrides.paths⟩] := by
    simp [Config.selectTargets, hpaths]
  have hresolve : Config.resolve {} overrides =
      .ok ⟨Config.policy {} overrides, [⟨Config.callerTarget, overrides.paths⟩]⟩ := by
    simp only [Config.resolve, hselected]
    show Except.bind (Config.checkPatterns _) _ = _
    rw [h]
    rfl
  show withStep "resolve config" (Config.resolve {} overrides) = _
  rw [hresolve]
  rfl

/-- The stages of a completed check, each in the state that the host was in by then. -/
structure Stages {σ : Type} [Host (StateM σ)] (input : CheckInput) (result : CheckResult)
    (groups : List FileGroup) (batch : Batch) : Prop where
  plan : input.plan = .ok result.plan
  started : ∃ state state' : σ,
    (Host.now : StateM σ Timestamp).run state = (result.startedAt, state')
  discovered : ∃ state state' : σ,
    (duringStep "discover documents" (result.plan.targets.mapM (FileGroup.discover input.root)) :
      ExceptT Failure (StateM σ) (List FileGroup)).run state = (.ok groups, state')
  loaded : ∃ state state' : σ,
    (Batch.load input.root groups : StateM σ Batch).run state = (batch, state')
  evaluated : result.evaluation = batch.evaluate result.plan.policy
  finished : ∃ state state' : σ,
    (Host.now : StateM σ Timestamp).run state = (result.finishedAt, state')

/-- A completed check has gone through all stages. -/
theorem stages_of_run_ok {σ : Type} [Host (StateM σ)] {input : CheckInput} {result : CheckResult}
    {state state' : σ}
    (h : (input.run : ExceptT Failure (StateM σ) CheckResult).run state = (.ok result, state')) :
    ∃ groups batch, input.Stages (σ := σ) result groups batch := by
  rw [CheckInput.run] at h
  obtain ⟨startedAt, started, hstarted, h⟩ := exists_of_run_bind_ok h
  obtain ⟨plan, planned, hplan, h⟩ := exists_of_run_bind_ok h
  obtain ⟨isRoot, asked, hasked, h⟩ := exists_of_run_bind_ok h
  split at h
  · obtain ⟨value, other, hthrow, -⟩ := exists_of_run_bind_ok h
    cases hthrow
  obtain ⟨groups, found, hgroups, h⟩ := exists_of_run_bind_ok h
  obtain ⟨batch, loaded, hbatch, h⟩ := exists_of_run_bind_ok h
  obtain ⟨finishedAt, finished, hfinished, h⟩ := exists_of_run_bind_ok h
  cases h
  rw [run_lift] at hstarted hbatch hfinished
  cases hstarted
  cases hbatch
  cases hfinished
  have hsettled : input.plan = .ok plan := congrArg Prod.fst hplan
  exact ⟨groups, _, hsettled, ⟨_, _, rfl⟩, ⟨_, _, hgroups⟩, ⟨_, _, rfl⟩, rfl, ⟨_, _, rfl⟩⟩

/-- A check of a file tree is completed when its plan is settled, its root is a directory, and its
files are found. -/
theorem run_of_stages {tree : FileTree} {input : CheckInput} {plan : Plan}
    {groups : List FileGroup} {batch : Batch} (hplan : input.plan = .ok plan)
    (hroot : tree.isDirectory input.root = true)
    (hgroups : (plan.targets.mapM (FileGroup.discover input.root) :
      ExceptT Failure (StateM FileTree) (List FileGroup)).run tree = (.ok groups, tree))
    (hbatch : (Batch.load input.root groups : StateM FileTree Batch).run tree = (batch, tree)) :
    (input.run : ExceptT Failure (StateM FileTree) CheckResult).run tree =
      (.ok ⟨plan, batch.evaluate plan.policy, Timestamp.epoch, Timestamp.epoch⟩, tree) := by
  have hnow : (Host.now : StateM FileTree Timestamp).run tree = (Timestamp.epoch, tree) := rfl
  have hplanned : (ExceptT.mk (pure input.plan) : ExceptT Failure (StateM FileTree) Plan).run
      tree = (.ok plan, tree) := by
    rw [hplan]
    rfl
  have hdirectory : (Host.isDirectory input.root : StateM FileTree Bool).run tree =
      (true, tree) := congrArg (·, tree) hroot
  have hfound : (duringStep "discover documents"
      (plan.targets.mapM (FileGroup.discover input.root)) :
        ExceptT Failure (StateM FileTree) (List FileGroup)).run tree = (.ok groups, tree) := by
    rw [run_duringStep, hgroups]
    rfl
  rw [CheckInput.run, run_bind_of_ok (run_lift_of_eq hnow), run_bind_of_ok hplanned,
    run_bind_of_ok (run_lift_of_eq hdirectory)]
  simp only [Bool.not_true, Bool.false_eq_true, if_false]
  rw [run_bind_of_ok hfound, run_bind_of_ok (run_lift_of_eq hbatch),
    run_bind_of_ok (run_lift_of_eq hnow)]
  rfl

end LocaleLint.CheckInput

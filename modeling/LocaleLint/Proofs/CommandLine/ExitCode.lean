import LocaleLint.Proofs.Check
import LocaleLint.Proofs.Evaluation.Verdict
import LocaleLint.Proofs.FileTree.Change
import LocaleLint.Proofs.FileTree.Listing
import LocaleLint.Proofs.Host
import LocaleLint.Proofs.Report.RoundTrip

/-!
# Exit codes and reports

A check may end in many steps, and it may write its report file twice. Whatever happens, the exit
code agrees with the report that is read back from the file in the end
(`CommandLine.exit_code_agrees_with_report`).

A run is either completed, so that all files are written in order, or abandoned for a failure, which
is noted in the report file last of all (`CheckRequest.run_cases`). In the first case the report was
written before the Markdown, and it is still there, since making directories and writing another
file leave it as it is (`read_of_writeText_elsewhere`). A report of what was found is told from the
note of a failure by its findings, none of which is about the tool (`outcomeCode_of_evaluate`).

The host is any one whose files are those of a tree (`Host.OnTree`). It may refuse to write or to
make a directory at any time, so a step may fail that succeeds when it is tried again. The words of
the libraries are any as well (`Complaints`), so the report holds what they said.
-/

set_option autoImplicit false

namespace LocaleLint

/-! ## Writing files -/

namespace CommandLine

variable {σ : Type} [Host (StateM σ)]

/-- What succeeds has succeeded on the host. -/
theorem run_of_fromHost {α : Type} {action : StateM σ (Except FileFault α)} {state state' : σ}
    {value : α} (h : (fromHost action).run state = (.ok value, state')) :
    action.run state = (.ok value, state') := by
  rw [run_fromHost, Prod.mk.injEq] at h
  exact Prod.ext (eq_ok_of_mapError h.1) h.2

variable {tree : σ → FileTree} (hhost : Host.OnTree tree) {state state' : σ}

include hhost

/-- A text that is written is written to the file once directories are made. -/
theorem exists_of_writeText_ok {what path text : String}
    (h : (writeText what path text : ExceptT Failure (StateM σ) Unit).run state =
      (.ok (), state')) :
    ∃ made, FileTree.Grows (tree state) made ∧
      made.write path text.toUTF8.toList = .ok (tree state') := by
  have hwrite {between : σ} (hwritten : (duringStep ("write " ++ what ++ ": " ++ path)
      (fromHost (Host.write path text.toUTF8.toList)) : ExceptT Failure (StateM σ) Unit).run
        between = (.ok (), state')) :
      (tree between).write path text.toUTF8.toList = .ok (tree state') :=
    hhost.write_ok (run_of_fromHost (run_of_duringStep hwritten))
  rw [writeText] at h
  split at h
  · next parent hparent =>
    obtain ⟨⟨⟩, between, hmade, hwritten⟩ := exists_of_run_bind_ok h
    have hmake := run_of_fromHost (run_of_duringStep hmade)
    have hgrows := hhost.grows_makeFirst (PathText.ancestors parent) state
    rw [Host.makeDirectories] at hmake
    rw [hmake] at hgrows
    exact ⟨tree between, hgrows, hwrite hwritten⟩
  · exact ⟨tree state, .refl, hwrite h⟩

/-- A written report is read back from the file. -/
theorem run_readReport_of_writeText {what path : String} {report : Report}
    (hsaveable : report.Saveable)
    (h : (writeText what path report.text : ExceptT Failure (StateM σ) Unit).run state =
      (.ok (), state')) :
    (readReport path : ExceptT Failure (StateM FileTree) Report).run (tree state') =
      (.ok report, tree state') := by
  obtain ⟨made, -, hwrite⟩ := exists_of_writeText_ok hhost h
  obtain ⟨place, -, -, hlocate⟩ := FileTree.exists_of_write_ok hwrite
  have hread : (tree state').read path = .ok report.text.toUTF8.toList := by
    rw [FileTree.read, hlocate]
    rfl
  exact run_readReport hsaveable hread

/-- A written file is left as it is when a file is written elsewhere. -/
theorem read_of_writeText_elsewhere {what path other text : String} {place : Place}
    {bytes : List UInt8} (hpath : (tree state).locate true path = .ok (.found place (.file bytes)))
    (h : (writeText what other text : ExceptT Failure (StateM σ) Unit).run state =
      (.ok (), state'))
    (happart : ¬ (tree state').SameEntry path other) :
    (tree state').read path = .ok bytes := by
  obtain ⟨made, hgrows, hwrite⟩ := exists_of_writeText_ok hhost h
  obtain ⟨there, hthere, htree, hother⟩ := FileTree.exists_of_write_ok hwrite
  have hfile : ∀ target, FileEntry.file text.toUTF8.toList ≠ .link target := by simp
  have hlocate := FileTree.locate_put hthere hfile (hgrows.locate hpath)
  rw [← htree] at hlocate
  have hne : place ≠ there := by
    rintro rfl
    rw [if_pos rfl] at hlocate
    exact happart ⟨_, _, hlocate, hother⟩
  rw [if_neg hne] at hlocate
  rw [FileTree.read, hlocate]
  rfl

end CommandLine

/-! ## Results of checks -/

section

variable {σ : Type} [Host (StateM σ)] {tree : σ → FileTree} (hhost : Host.OnTree tree)
  {state state' : σ} {result : CheckResult}

include hhost

/-- A completed check has evaluated some batch, and its report can be saved. -/
theorem CheckInput.exists_of_run_ok {input : CheckInput}
    (h : (input.run : ExceptT Failure (StateM σ) CheckResult).run state = (.ok result, state')) :
    result.report.Saveable ∧ ∃ policy batch, result.evaluation = Batch.evaluate policy batch := by
  obtain ⟨groups, batch, hstages⟩ := CheckInput.stages_of_run_ok h
  obtain ⟨before, after, hstarted⟩ := hstages.started
  obtain ⟨before', after', hfinished⟩ := hstages.finished
  refine ⟨?_, result.plan.policy, batch, hstages.evaluated⟩
  rw [CheckResult.report, hstages.evaluated]
  exact Report.saveable_ofEvaluation (hhost.now hstarted) (hhost.now hfinished) _ batch

/-- A request that is carried out has evaluated some batch, and its report can be saved. -/
theorem CommandLine.CheckRequest.exists_of_perform_ok {request : CommandLine.CheckRequest}
    {root config : String}
    (h : (request.perform root config : ExceptT Failure (StateM σ) CheckResult).run state =
      (.ok result, state')) :
    result.report.Saveable ∧ ∃ policy batch, result.evaluation = Batch.evaluate policy batch := by
  rw [CommandLine.CheckRequest.perform] at h
  obtain ⟨canonical, between, -, h⟩ := exists_of_run_bind_ok h
  obtain ⟨isPresent, asked, -, h⟩ := exists_of_run_bind_ok h
  split at h
  · obtain ⟨value, other, hthrow, -⟩ := exists_of_run_bind_ok h
    cases hthrow
  obtain ⟨text, configured, -, h⟩ := exists_of_run_bind_ok h
  exact CheckInput.exists_of_run_ok hhost h

end

/-! ## The report that a check leaves -/

namespace CommandLine

namespace CheckRequest

variable {σ : Type} [Host (StateM σ)]

/-- Why a check cannot be completed, and the state in which that is known: nothing was found, or
what was found could not be written. -/
inductive Fails (request : CheckRequest) (root config : String) (state : σ) : Failure → σ → Prop
  | perform {failure : Failure} {state' : σ} :
      (request.perform root config : ExceptT Failure (StateM σ) CheckResult).run state =
        (.error failure, state') → Fails request root config state failure state'
  | deliver {result : CheckResult} {failure : Failure} {between state' : σ} :
      (request.perform root config : ExceptT Failure (StateM σ) CheckResult).run state =
        (.ok result, between) →
      (request.deliver result : ExceptT Failure (StateM σ) Unit).run between =
        (.error failure, state') → Fails request root config state failure state'

/-- A check fails in one way only. -/
theorem Fails.unique {request : CheckRequest} {root config : String} {state after after' : σ}
    {failure failure' : Failure} (h : request.Fails root config state failure after)
    (h' : request.Fails root config state failure' after') :
    failure = failure' ∧ after = after' := by
  cases h with
  | perform hperform =>
    cases h' with
    | perform hperform' =>
      rw [hperform] at hperform'
      cases hperform'
      exact ⟨rfl, rfl⟩
    | deliver hperform' =>
      rw [hperform] at hperform'
      cases hperform'
  | deliver hperform hdeliver =>
    cases h' with
    | perform hperform' =>
      rw [hperform] at hperform'
      cases hperform'
    | deliver hperform' hdeliver' =>
      rw [hperform] at hperform'
      cases hperform'
      rw [hdeliver] at hdeliver'
      cases hdeliver'
      exact ⟨rfl, rfl⟩

/-- A check that is completed does not fail. -/
theorem not_fails_of_completed {request : CheckRequest} {root config : String}
    {state between after : σ} {result : CheckResult}
    (hperform : (request.perform root config : ExceptT Failure (StateM σ) CheckResult).run state =
      (.ok result, between))
    (hdeliver : (request.deliver result : ExceptT Failure (StateM σ) Unit).run between =
      (.ok (), after)) (failure : Failure) (state' : σ) :
    ¬ request.Fails root config state failure state' := by
  intro hfails
  cases hfails with
  | perform hfailed =>
    rw [hperform] at hfailed
    cases hfailed
  | deliver hfound hfailed =>
    rw [hperform] at hfound
    cases hfound
    rw [hdeliver] at hfailed
    cases hfailed

/-- A check that is completed ends with the judgement of what was found. -/
theorem run_of_completed [Complaints] {request : CheckRequest} {root config : String}
    {state between after : σ} {result : CheckResult} (color : Bool)
    (hperform : (request.perform root config : ExceptT Failure (StateM σ) CheckResult).run state =
      (.ok result, between))
    (hdeliver : (request.deliver result : ExceptT Failure (StateM σ) Unit).run between =
      (.ok (), after)) :
    ∃ printed, (request.run root config color : StateM σ Exit).run state =
      (⟨result.evaluation.tally.outcomeCode, printed, ""⟩, after) := by
  have hfound : (request.perform root config :
    ExceptT Failure (StateM σ) CheckResult).run.run state = _ := hperform
  have hwritten : (request.deliver result : ExceptT Failure (StateM σ) Unit).run.run between = _ :=
    hdeliver
  rw [CheckRequest.run, run_bind, hfound, run_bind, hwritten]
  exact ⟨_, rfl⟩

/-- The last attempt to write the report file of a check that cannot be completed. -/
def noteFailure [Complaints] (path : String) (failure : Failure) :
    ExceptT Failure (StateM σ) Unit := do
  let now ← ExceptT.lift Host.now
  writeText "report" path (Report.ofFailure now failure.message).text

variable {request : CheckRequest} {root config path : String} {state state' : σ}
  (hpath : request.reportFile = some path)

include hpath

/-- A check that is abandoned ends with two, says why, and tries to write that to its report file.
-/
theorem run_abandon [Complaints] (printed : String) (failure : Failure) (state : σ) :
    (request.abandon printed failure : StateM σ Exit).run state =
      (⟨2, printed, "intlxml error: " ++ failure.message ++ "\n"⟩,
        ((noteFailure path failure).run state).2) := by
  rw [abandon, hpath]
  rfl

/-- A check that fails in some way is abandoned for that failure. -/
theorem run_of_fails [Complaints] {failure : Failure} {between : σ} (color : Bool)
    (h : request.Fails root config state failure between) :
    ∃ printed, (request.run root config color : StateM σ Exit).run state =
      (⟨2, printed, "intlxml error: " ++ failure.message ++ "\n"⟩,
        ((noteFailure path failure).run between).2) := by
  rw [CheckRequest.run, run_bind]
  cases h with
  | perform hperform =>
    have hfailed : (request.perform root config :
      ExceptT Failure (StateM σ) CheckResult).run.run state = _ := hperform
    rw [hfailed]
    exact ⟨_, run_abandon hpath _ _ _⟩
  | @deliver result _ _ _ hperform hdeliver =>
    have hfound : (request.perform root config :
      ExceptT Failure (StateM σ) CheckResult).run.run state = _ := hperform
    have hfailed : (request.deliver result : ExceptT Failure (StateM σ) Unit).run.run _ = _ :=
      hdeliver
    rw [hfound, run_bind, hfailed]
    exact ⟨_, run_abandon hpath _ _ _⟩

/-- A check is completed or abandoned. -/
theorem run_cases [Complaints] {color : Bool} {exit : Exit}
    (h : (request.run root config color : StateM σ Exit).run state = (exit, state')) :
    (∃ result between, (request.perform root config : ExceptT Failure (StateM σ) CheckResult).run
          state = (.ok result, between) ∧
        (request.deliver result : ExceptT Failure (StateM σ) Unit).run between =
          (.ok (), state') ∧ exit.code = result.evaluation.tally.outcomeCode) ∨
      ∃ failure between, request.Fails root config state failure between ∧
        ((noteFailure path failure).run between).2 = state' ∧ exit.code = 2 ∧
        exit.stderr = "intlxml error: " ++ failure.message ++ "\n" := by
  by_cases hfails : ∃ failure between, request.Fails root config state failure between
  · obtain ⟨failure, between, hfails⟩ := hfails
    obtain ⟨printed, hrun⟩ := run_of_fails hpath color hfails
    rw [hrun] at h
    cases h
    exact .inr ⟨failure, between, hfails, rfl, rfl, rfl⟩
  · left
    rcases hperform : (request.perform root config :
      ExceptT Failure (StateM σ) CheckResult).run.run state with ⟨failure | result, between⟩
    · exact absurd ⟨failure, between, .perform hperform⟩ hfails
    rcases hdeliver : (request.deliver result : ExceptT Failure (StateM σ) Unit).run.run between
      with ⟨failure | ⟨⟨⟩⟩, after⟩
    · exact absurd ⟨failure, after, .deliver hperform hdeliver⟩ hfails
    obtain ⟨printed, hrun⟩ := run_of_completed color hperform hdeliver
    rw [hrun] at h
    cases h
    exact ⟨result, between, hperform, hdeliver, rfl⟩

/-- Without Markdown, the report is all that is written. -/
theorem run_deliver_of_written {result : CheckResult} (hmark : request.writeMarkdown = false)
    (hreport : (writeText "report" path result.report.text : ExceptT Failure (StateM σ) Unit).run
      state = (.ok (), state')) :
    (request.deliver result : ExceptT Failure (StateM σ) Unit).run state = (.ok (), state') := by
  have hwritten : (duringStep "write report json" (writeText "report" path result.report.text) :
      ExceptT Failure (StateM σ) Unit).run state = (.ok (), state') := by
    rw [run_duringStep, hreport]
    rfl
  simp only [deliver, hpath, hmark]
  rw [run_bind_of_ok hwritten]
  rfl

/-- The report is written before the Markdown is refused. -/
theorem run_deliver_of_refused {result : CheckResult} {failure : Failure} {between : σ}
    (hmark : request.writeMarkdown = true)
    (hreport : (writeText "report" path result.report.text : ExceptT Failure (StateM σ) Unit).run
      state = (.ok (), between))
    (hmarkdown : (writeText "text" request.markdownFile result.report.view.markdown :
      ExceptT Failure (StateM σ) Unit).run between = (.error failure, state')) :
    (request.deliver result : ExceptT Failure (StateM σ) Unit).run state =
      (.error (failure.within "write markdown"), state') := by
  have hwritten : (duringStep "write report json" (writeText "report" path result.report.text) :
      ExceptT Failure (StateM σ) Unit).run state = (.ok (), between) := by
    rw [run_duringStep, hreport]
    rfl
  simp only [deliver, hpath, if_pos hmark]
  rw [run_bind_of_ok hwritten, run_duringStep, hmarkdown]
  rfl

variable {tree : σ → FileTree} (hhost : Host.OnTree tree)

include hhost

/-- What was found is read back once all files are written. -/
theorem run_readReport_of_deliver {result : CheckResult} (hsaveable : result.report.Saveable)
    (h : (request.deliver result : ExceptT Failure (StateM σ) Unit).run state = (.ok (), state'))
    (happart : request.writeMarkdown = true →
      ¬ (tree state').SameEntry path request.markdownFile) :
    (readReport path : ExceptT Failure (StateM FileTree) Report).run (tree state') =
      (.ok result.report, tree state') := by
  simp only [deliver, hpath] at h
  obtain ⟨⟨⟩, between, hreport, hmarkdown⟩ := exists_of_run_bind_ok h
  have hwritten := run_of_duringStep hreport
  split at hmarkdown
  · next hmark =>
    obtain ⟨made, -, hwrite⟩ := exists_of_writeText_ok hhost hwritten
    obtain ⟨place, -, -, hlocate⟩ := FileTree.exists_of_write_ok hwrite
    apply run_readReport hsaveable
    exact read_of_writeText_elsewhere hhost hlocate (run_of_duringStep hmarkdown) (happart hmark)
  · cases hmarkdown
    exact run_readReport_of_writeText hhost hsaveable hwritten

omit hpath in
/-- Why a check was not completed is read back if it can be written. -/
theorem run_readReport_of_noteFailure [Complaints] {failure : Failure}
    (h : ((noteFailure path failure : ExceptT Failure (StateM σ) Unit).run state) =
      (.ok (), state')) :
    ∃ now, (readReport path : ExceptT Failure (StateM FileTree) Report).run (tree state') =
      (.ok (Report.ofFailure now failure.message), tree state') := by
  obtain ⟨now, between, hnow, hwritten⟩ := exists_of_run_bind_ok h
  rw [run_lift] at hnow
  cases hnow
  refine ⟨_, run_readReport_of_writeText hhost ?_ hwritten⟩
  exact Report.saveable_ofFailure (hhost.now rfl) failure.message

end CheckRequest

/-! ## Checks on a file tree -/

/-- A configuration that is missing is read as one that sets nothing. -/
theorem run_readConfig_of_missing {tree : FileTree} {path : String}
    (h : tree.read path = .error .notFound) :
    (readConfig path : ExceptT Failure (StateM FileTree) String).run tree = (.ok "", tree) := by
  have htext : (readText path : ExceptT Failure (StateM FileTree) String).run.run tree =
      (.error (Cause.failure (.file .notFound)), tree) := by
    apply run_bind_of_error
    rw [run_fromHost]
    show ((tree.read path).mapError _, tree) = _
    rw [h]
    rfl
  show StateT.run (_ >>= _) tree = _
  rw [run_bind, htext]
  rfl

/-- Below a root without a configuration, a check does what its caller asks for. -/
theorem CheckRequest.run_perform_root {tree : FileTree} {request : CheckRequest} {config : String}
    (hconfig : IsEntryName config) (hmissing : tree.entry? [config] = none) :
    (request.perform "/" config : ExceptT Failure (StateM FileTree) CheckResult).run tree =
      (CheckInput.run ⟨"/", "", request.overrides⟩ :
        ExceptT Failure (StateM FileTree) CheckResult).run tree := by
  have hroot : tree.locate true "/" = _ := tree.locate_root
  have hcanonical : (Host.canonical? "/" : StateM FileTree (Option String)).run tree =
      (some "/", tree) := by
    have hpath : FileTree.pathOf [] = "/" := by decide +kernel
    show (tree.canonical? "/", tree) = _
    rw [FileTree.canonical?, hroot]
    exact congrArg (fun path => (some path, tree)) hpath
  have hpresent : (Host.isPresent "/" : StateM FileTree Bool).run tree = (true, tree) := by
    show (tree.isPresent "/", tree) = _
    rw [FileTree.isPresent, hroot]
  have hread : tree.read (PathText.join "/" config) = .error .notFound := by
    have hshort : ¬ FileTree.nameLimit < config.utf8ByteSize := Nat.not_lt.2 hconfig.short
    have htop : tree.entry? [] = some .directory := rfl
    rw [FileTree.read, FileTree.locate_join_root hconfig, FileTree.walk, htop]
    simp only [if_neg hconfig.ne_dot, if_neg hconfig.ne_dots, if_neg hshort, List.nil_append,
      hmissing]
    rfl
  rw [CheckRequest.perform, run_bind_of_ok (run_lift_of_eq hcanonical)]
  show (ExceptT.lift (Host.isPresent "/") >>= _ :
    ExceptT Failure (StateM FileTree) CheckResult).run tree = _
  rw [run_bind_of_ok (run_lift_of_eq hpresent)]
  show (readConfig (PathText.join "/" config) >>= _ :
    ExceptT Failure (StateM FileTree) CheckResult).run tree = _
  rw [run_bind_of_ok (run_readConfig_of_missing hread)]
  rfl

/-- A check without paths and without targets looks for nothing, and is completed. -/
theorem CheckRequest.exists_perform_nothing {tree : FileTree} {request : CheckRequest}
    {config : String} (hconfig : IsEntryName config) (hmissing : tree.entry? [config] = none)
    (hpaths : request.paths = []) (htargets : request.targets = []) :
    ∃ result, (request.perform "/" config : ExceptT Failure (StateM FileTree) CheckResult).run
      tree = (.ok result, tree) := by
  let input : CheckInput := ⟨"/", "", request.overrides⟩
  have hdirectory : tree.isDirectory "/" = true := by rw [FileTree.isDirectory, tree.locate_root]
  have hplan : input.plan = .ok ⟨Config.policy {} request.overrides, []⟩ := by
    obtain ⟨paths, targets⟩ := request
    subst hpaths htargets
    rfl
  rw [CheckRequest.run_perform_root hconfig hmissing]
  exact ⟨_, CheckInput.run_of_stages hplan hdirectory rfl rfl⟩

/-- A text is written once the directory around it is made. -/
theorem run_writeText_of_made {tree made : FileTree} {what path parent text : String}
    (hparent : PathText.parent? path = some parent)
    (hmake : (Host.makeDirectories parent : StateM FileTree (Except FileFault Unit)).run tree =
      (.ok (), made)) :
    (writeText what path text : ExceptT Failure (StateM FileTree) Unit).run tree =
      match made.write path text.toUTF8.toList with
      | .ok written => (.ok (), written)
      | .error fault =>
        (.error ((Cause.failure (.file fault)).within ("write " ++ what ++ ": " ++ path)),
          made) := by
  have hmade : (duringStep ("create directory: " ++ parent)
      (fromHost (Host.makeDirectories parent)) :
        ExceptT Failure (StateM FileTree) Unit).run tree = (.ok (), made) := by
    rw [run_duringStep, run_fromHost, hmake]
    rfl
  have hwrite : (Host.write path text.toUTF8.toList :
      StateM FileTree (Except FileFault Unit)).run made =
      FileTree.attempt (fun tree => tree.write path text.toUTF8.toList) made := rfl
  rw [writeText, hparent]
  show (_ >>= _ : ExceptT Failure (StateM FileTree) Unit).run tree = _
  rw [run_bind_of_ok hmade, run_duringStep, run_fromHost, hwrite, FileTree.attempt]
  cases made.write path text.toUTF8.toList <;> rfl

/-- A name by itself needs no directory to be made. -/
theorem run_makeDirectories_nil (tree : FileTree) :
    (Host.makeDirectories "" : StateM FileTree (Except FileFault Unit)).run tree = (.ok (), tree) :=
  rfl

/-! ## Exit codes -/

/-- A check that is completed is judged by its own report: the exit code says whether it failed, and
nothing in the report is about the tool. -/
theorem outcomeCode_of_evaluate {result : CheckResult} {policy : Policy} {batch : Batch}
    (h : result.evaluation = batch.evaluate policy) :
    (result.evaluation.tally.outcomeCode = 0 ↔
        result.report.verdict = .pass ∨ result.report.verdict = .warn) ∧
      (result.evaluation.tally.outcomeCode = 1 ↔ result.report.verdict = .fail) ∧
      result.evaluation.tally.outcomeCode ≤ 1 ∧
      ∀ finding ∈ result.report.findings, finding.checkId ≠ CheckId.toolRuntime := by
  have hverdict : result.report.verdict = result.evaluation.tally.verdict := by
    rw [CheckResult.report, h]
    rfl
  have hfindings : ∀ finding ∈ result.report.findings, finding.checkId ≠ CheckId.toolRuntime := by
    intro finding hfinding
    rw [CheckResult.report, h] at hfinding
    rcases Batch.finding_cases hfinding with ⟨path, failure, rfl⟩ | ⟨outcome, identity, rfl⟩
    · have hcheck : CheckId.documentParse ≠ CheckId.toolRuntime := by decide
      exact hcheck
    · have hcheck : CheckId.untranslatedText ≠ CheckId.toolRuntime := by decide
      exact hcheck
  rw [hverdict]
  refine ⟨?_, ?_, ?_, hfindings⟩
  · unfold Tally.outcomeCode Tally.verdict
    grind
  · rw [Tally.outcomeCode_eq_one_iff, Tally.verdict_eq_fail_iff]
  · unfold Tally.outcomeCode
    grind

/-- The exit code of a check and the report that it leaves never contradict each other, in whatever
step the check fails, if the last write of the report file succeeds and the Markdown is written
elsewhere: zero stands for a verdict of pass or warn, one for the failure of what was found, and two
for the report of a check that could not be completed, which says why. A check that is completed has
written its report; the last write of one that is not is the note of its failure. -/
theorem exit_code_agrees_with_report [Complaints] {σ : Type} [Host (StateM σ)]
    {tree : σ → FileTree}
    (hhost : Host.OnTree tree) {arguments : List String} {invocation : Invocation}
    {request : CheckRequest} {path : String} {color : Bool} {state state' : σ} {exit : Exit}
    (hinvocation : Invocation.ofArguments arguments = .ok invocation)
    (hcheck : invocation.command = .check request) (hpath : request.reportFile = some path)
    (hrun : (run arguments color : StateM σ Exit).run state = (exit, state'))
    (hwritten : ∀ failure between,
      request.Fails invocation.root invocation.config state failure between →
        ((CheckRequest.noteFailure path failure : ExceptT Failure (StateM σ) Unit).run between).1 =
          .ok ())
    (happart : request.writeMarkdown = true →
      ¬ (tree state').SameEntry path request.markdownFile) :
    ∃ report, (readReport path : ExceptT Failure (StateM FileTree) Report).run (tree state') =
        (.ok report, tree state') ∧
      exit.code ∈ [0, 1, 2] ∧
      (exit.code = 0 ↔ report.verdict = .pass ∨ report.verdict = .warn) ∧
      (exit.code = 1 ↔ report.verdict = .fail ∧ ∃ result between,
        (request.perform invocation.root invocation.config :
          ExceptT Failure (StateM σ) CheckResult).run state = (.ok result, between) ∧
          report = result.report) ∧
      (exit.code = 2 ↔ report.verdict = .fail ∧ ∃ finding, report.findings = [finding] ∧
        finding.checkId = CheckId.toolRuntime) ∧
      (exit.code = 2 → ∃ failure between,
        request.Fails invocation.root invocation.config state failure between ∧
          report.findings.map Finding.message = [failure.message] ∧
          exit.stderr = "intlxml error: " ++ failure.message ++ "\n") := by
  have hcase : (request.run invocation.root invocation.config color : StateM σ Exit).run state =
      (exit, state') := by
    simpa only [run, hinvocation, Invocation.run, hcheck] using hrun
  rcases CheckRequest.run_cases hpath hcase with
    ⟨result, between, hperform, hdeliver, hcode⟩ |
      ⟨failure, between, hfails, hstate, hcode, hstderr⟩
  · obtain ⟨hsaveable, policy, batch, hevaluation⟩ :=
      CheckRequest.exists_of_perform_ok hhost hperform
    have hread := CheckRequest.run_readReport_of_deliver hpath hhost hsaveable hdeliver happart
    obtain ⟨hzero, hone, hle, hown⟩ := outcomeCode_of_evaluate hevaluation
    rw [← hcode] at hzero hone hle
    refine ⟨result.report, hread, ?_, hzero, ?_, ?_, ?_⟩
    · grind
    · rw [hone]
      exact ⟨fun hfail => ⟨hfail, result, between, hperform, rfl⟩, fun hfail => hfail.1⟩
    · refine ⟨fun htwo => by omega, ?_⟩
      rintro ⟨-, finding, hfindings, htool⟩
      exact absurd htool (hown finding (by rw [hfindings]; exact List.mem_singleton_self finding))
    · intro htwo
      omega
  · have hnote : (CheckRequest.noteFailure path failure : ExceptT Failure (StateM σ) Unit).run
        between = (.ok (), state') := Prod.ext (hwritten failure between hfails) hstate
    obtain ⟨now, hread⟩ := CheckRequest.run_readReport_of_noteFailure hhost hnote
    refine ⟨_, hread, ?_, ?_, ?_, ?_, ?_⟩
    · simp [hcode]
    · simp [hcode, Report.ofFailure]
    · refine ⟨fun hone => by omega, ?_⟩
      rintro ⟨-, result, after, hperform, hreport⟩
      obtain ⟨-, policy, batch, hevaluation⟩ := CheckRequest.exists_of_perform_ok hhost hperform
      obtain ⟨-, -, -, hown⟩ := outcomeCode_of_evaluate hevaluation
      have hfinding : Report.runtimeFinding failure.message ∈ result.report.findings := by
        rw [← hreport]
        exact List.mem_singleton_self _
      exact absurd rfl (hown _ hfinding)
    · exact ⟨fun _ => ⟨rfl, _, rfl, rfl⟩, fun _ => hcode⟩
    · exact fun _ => ⟨failure, between, hfails, rfl, hstderr⟩

/-! ## A run for each code -/

/-- A root in which there is one page. -/
def pageRoot (bytes : List UInt8) : FileTree :=
  ⟨[(["a.xml"], .file bytes)], []⟩

/-- A root in which there is a directory. -/
def notesRoot : FileTree :=
  ⟨[(["notes"], .directory)], []⟩

/-- A check of the page is completed, and its exit code says whether the page has literal copy. -/
theorem CheckRequest.exists_perform_page {request : CheckRequest}
    (hpaths : request.paths = ["a.xml"]) (bytes : List UInt8) :
    ∃ result, (request.perform "/" "intlxml.toml" :
        ExceptT Failure (StateM FileTree) CheckResult).run (pageRoot bytes) =
          (.ok result, pageRoot bytes) ∧
      (result.evaluation.tally.outcomeCode = 1 ↔
        ((pageRoot bytes).document "/" "cli" ⟨"a.xml"⟩).HasLiteral
          (Config.policy {} request.overrides).collect) := by
  have hconfig : IsEntryName "intlxml.toml" := by decide +kernel
  let plan : Plan := ⟨Config.policy {} request.overrides, [⟨"cli", ["a.xml"]⟩]⟩
  let batch : Batch := ⟨⟨"/"⟩, ["cli"], [(pageRoot bytes).document "/" "cli" ⟨"a.xml"⟩]⟩
  have hplan : (⟨"/", "", request.overrides⟩ : CheckInput).plan = .ok plan := by
    have hoverrides : request.overrides.paths = ["a.xml"] := hpaths
    have hchecked :
        Config.checkPatterns [⟨Config.callerTarget, request.overrides.paths⟩] = .ok () := by
      rw [hoverrides]
      decide +kernel
    rw [CheckInput.plan_of_paths "/" (by simp [hoverrides]) hchecked, hoverrides]
    rfl
  have hgroups : (plan.targets.mapM (FileGroup.discover "/") :
      ExceptT Failure (StateM FileTree) (List FileGroup)).run (pageRoot bytes) =
        (.ok [⟨"cli", [⟨"a.xml"⟩]⟩], pageRoot bytes) := by
    apply run_discover_of_select
    have hlisted : ((pageRoot bytes).filesBelow "/").map RepoPath.ofString = [⟨"a.xml"⟩] := by
      have hpath : RepoPath.ofString "a.xml" = ⟨"a.xml"⟩ := by decide +kernel
      rw [(pageRoot bytes).filesBelow_root]
      exact congrArg (fun path => [path]) hpath
    rw [hlisted, FilePattern.select, List.mergeSort_singleton]
    decide +kernel
  have hbatch : (Batch.load "/" [⟨"cli", [⟨"a.xml"⟩]⟩] : StateM FileTree Batch).run
      (pageRoot bytes) = (batch, pageRoot bytes) := by
    have hroot : RepoPath.ofString "/" = ⟨"/"⟩ := by decide +kernel
    rw [run_loadBatch, hroot]
    rfl
  have hroot : (pageRoot bytes).isDirectory "/" = true := by
    rw [FileTree.isDirectory, (pageRoot bytes).locate_root]
  refine ⟨⟨plan, batch.evaluate plan.policy, Timestamp.epoch, Timestamp.epoch⟩, ?_, ?_⟩
  · rw [CheckRequest.run_perform_root hconfig rfl]
    exact CheckInput.run_of_stages hplan hroot hgroups hbatch
  · rw [Tally.outcomeCode_eq_one_iff, Batch.failed_pos_iff]
    simp only [batch, plan, List.mem_singleton, exists_eq_left]

/-- The literal copy of the page is that of the tree that it spells. -/
theorem hasLiteral_page {bytes : List UInt8} {page : Node} (h : Document.decode bytes = .ok page)
    (options : CollectOptions) :
    ((pageRoot bytes).document "/" "cli" ⟨"a.xml"⟩).HasLiteral options ↔
      literalTexts (page.leaves options) ≠ [] := by
  rw [FileTree.document_of_name (by decide +kernel) rfl, h, ← Document.failures_ne_nil_iff,
    Document.failures_eq]
  rfl

/-- A check of the page is completed if its report can be written. -/
theorem exists_run_page {arguments : List String} {request : CheckRequest} {path : String}
    {bytes : List UInt8}
    (hinvocation : Invocation.ofArguments arguments = .ok ⟨"/", "intlxml.toml", .check request⟩)
    (hpaths : request.paths = ["a.xml"]) (hpath : request.reportFile = some path)
    (hmark : request.writeMarkdown = false)
    (hwritten : ∀ text, ∃ written, (writeText "report" path text :
      ExceptT Failure (StateM FileTree) Unit).run (pageRoot bytes) = (.ok (), written)) :
    ∃ exit after, (run arguments false : StateM FileTree Exit).run (pageRoot bytes) =
        (exit, after) ∧
      (∀ failure between,
        ¬ request.Fails "/" "intlxml.toml" (pageRoot bytes) failure between) ∧
      (exit.code = 1 ↔ ((pageRoot bytes).document "/" "cli" ⟨"a.xml"⟩).HasLiteral
        (Config.policy {} request.overrides).collect) ∧ exit.code ≤ 1 := by
  obtain ⟨result, hperform, hcode⟩ := CheckRequest.exists_perform_page hpaths bytes
  obtain ⟨after, hreport⟩ := hwritten result.report.text
  have hdeliver : (request.deliver result : ExceptT Failure (StateM FileTree) Unit).run
      (pageRoot bytes) = (.ok (), after) :=
    CheckRequest.run_deliver_of_written hpath hmark hreport
  obtain ⟨printed, hcase⟩ := CheckRequest.run_of_completed false hperform hdeliver
  refine ⟨⟨result.evaluation.tally.outcomeCode, printed, ""⟩, after, ?_,
    CheckRequest.not_fails_of_completed hperform hdeliver, hcode, ?_⟩
  · simpa only [run, hinvocation, Invocation.run] using hcase
  · show result.evaluation.tally.outcomeCode ≤ 1
    unfold Tally.outcomeCode
    grind

/-- The report is written beside the page, by a name alone. -/
theorem exists_writeText_name (bytes : List UInt8) (text : String) :
    ∃ written, (writeText "report" "report.json" text :
      ExceptT Failure (StateM FileTree) Unit).run (pageRoot bytes) = (.ok (), written) := by
  have hreport : IsEntryName "report.json" := by decide +kernel
  have hparent : PathText.parent? "report.json" = some "" := by decide +kernel
  have hfree : (pageRoot bytes).locate true "report.json" = .ok (.free ["report.json"]) :=
    FileTree.locate_name_of_free hreport rfl rfl
  rw [run_writeText_of_made hparent (run_makeDirectories_nil _),
    FileTree.write_of_not_endsInSlash (PathText.endsInSlash_name hreport), hfree]
  exact ⟨_, rfl⟩

/-- The root of the page, in which a directory was made on the way. -/
def detourRoot (bytes : List UInt8) : FileTree :=
  ⟨[(["a.xml"], .file bytes), (["x"], .directory)], []⟩

/-- To make the directories of a path that leads back only the one on the way is made. -/
theorem run_makeDirectories_detour (bytes : List UInt8) :
    (Host.makeDirectories "x/.." : StateM FileTree (Except FileFault Unit)).run (pageRoot bytes) =
      (.ok (), detourRoot bytes) := by
  have hancestors : PathText.ancestors "x/.." = ["x/..", "x"] := by decide +kernel
  have hcheck : FileTree.checkPath "x/.." = .ok () := by decide +kernel
  have hsteps : PathText.steps "x/.." = ["x", ".."] := by decide +kernel
  have hshort : ¬ FileTree.nameLimit < "x".utf8ByteSize := by decide +kernel
  have hroot : FileTree.entry? (pageRoot bytes) [] = some .directory := rfl
  have hnone : FileTree.entry? (pageRoot bytes) ["x"] = none := rfl
  have hmissing : (pageRoot bytes).makeDirectory "x/.." = .error .notFound := by
    have hnames : FileTree.stepsToName "x/.." = ["x", ".."] := by decide +kernel
    rw [FileTree.makeDirectory, FileTree.locateSteps_of_root hcheck rfl, hnames]
    simp [FileTree.walk, hroot, hnone, hshort, bind, Except.bind]
  have haround : (pageRoot bytes).makeDirectory "x" = .ok (detourRoot bytes) := by
    have hnames : FileTree.stepsToName "x" = ["x"] := by decide +kernel
    rw [FileTree.makeDirectory, FileTree.locateSteps_of_root (by decide +kernel) rfl, hnames]
    simp [FileTree.walk, hroot, hnone, hshort, bind, Except.bind]
    rfl
  -- the path leads back to the root once the directory on the way is there
  have hback : (detourRoot bytes).isDirectory "x/.." = true := by
    have hroot' : FileTree.entry? (detourRoot bytes) [] = some .directory := rfl
    have hdirectory : FileTree.entry? (detourRoot bytes) ["x"] = some .directory := rfl
    rw [FileTree.isDirectory, FileTree.locate, FileTree.locateSteps_of_root hcheck rfl, hsteps]
    simp [FileTree.walk, hroot', hdirectory, hshort]
  rw [Host.makeDirectories, hancestors]
  exact FileTree.run_makeFirst_of_around hmissing (FileTree.run_makeFirst_of_ok haround []) hback

/-- The report is written beside the page, by a path through a directory that is missing. -/
theorem exists_writeText_detour (bytes : List UInt8) (text : String) :
    ∃ written, (writeText "report" "x/../report.json" text :
      ExceptT Failure (StateM FileTree) Unit).run (pageRoot bytes) = (.ok (), written) := by
  have hparent : PathText.parent? "x/../report.json" = some "x/.." := by decide +kernel
  have hslash : PathText.endsInSlash "x/../report.json" = false := by decide +kernel
  have hfree : (detourRoot bytes).locate true "x/../report.json" = .ok (.free ["report.json"]) := by
    have hsteps : PathText.steps "x/../report.json" = ["x", "..", "report.json"] := by
      decide +kernel
    have hshort : ¬ FileTree.nameLimit < "x".utf8ByteSize := by decide +kernel
    have hshort' : ¬ FileTree.nameLimit < "report.json".utf8ByteSize := by decide +kernel
    have hroot : FileTree.entry? (detourRoot bytes) [] = some .directory := rfl
    have hdirectory : FileTree.entry? (detourRoot bytes) ["x"] = some .directory := rfl
    have hnone : FileTree.entry? (detourRoot bytes) ["report.json"] = none := rfl
    rw [FileTree.locate, FileTree.locateSteps_of_root (by decide +kernel) rfl, hsteps]
    simp [FileTree.walk, hroot, hdirectory, hnone, hshort, hshort']
  rw [run_writeText_of_made hparent (run_makeDirectories_detour bytes),
    FileTree.write_of_not_endsInSlash hslash, hfree]
  exact ⟨_, rfl⟩

/-- A check whose Markdown cannot be written, since its path leads to a directory, is abandoned. Its
report can be written all the same. -/
theorem exists_run_of_directory {arguments : List String} {request : CheckRequest}
    (hinvocation : Invocation.ofArguments arguments = .ok ⟨"/", "intlxml.toml", .check request⟩)
    (hpaths : request.paths = []) (htargets : request.targets = [])
    (hpath : request.reportFile = some "report.json") (hmark : request.writeMarkdown = true)
    (hnotes : request.markdownFile = "notes") :
    ∃ exit after, (run arguments false : StateM FileTree Exit).run notesRoot = (exit, after) ∧
      (∀ failure between, request.Fails "/" "intlxml.toml" notesRoot failure between →
        ((CheckRequest.noteFailure "report.json" failure :
          ExceptT Failure (StateM FileTree) Unit).run between).1 = .ok ()) ∧
      ¬ after.SameEntry "report.json" request.markdownFile ∧ exit.code = 2 := by
  let written (bytes : List UInt8) : FileTree :=
    ⟨[(["notes"], .directory), (["report.json"], .file bytes)], []⟩
  have hreport : IsEntryName "report.json" := by decide +kernel
  have hname : IsEntryName "notes" := by decide +kernel
  have hparent : PathText.parent? "report.json" = some "" := by decide +kernel
  have hparent' : PathText.parent? "notes" = some "" := by decide +kernel
  have hslash : PathText.endsInSlash "report.json" = false := PathText.endsInSlash_name hreport
  have hslash' : PathText.endsInSlash "notes" = false := PathText.endsInSlash_name hname
  -- where the names lead before and after the report is written
  have hfree : notesRoot.locate true "report.json" = .ok (.free ["report.json"]) :=
    FileTree.locate_name_of_free hreport rfl rfl
  have hfile (bytes : List UInt8) :
      (written bytes).locate true "report.json" = .ok (.found ["report.json"] (.file bytes)) :=
    FileTree.locate_name_of_found hreport rfl rfl (by simp)
  have hdirectory (bytes : List UInt8) :
      (written bytes).locate true "notes" = .ok (.found ["notes"] .directory) :=
    FileTree.locate_name_of_found hname rfl rfl (by simp)
  obtain ⟨result, hperform⟩ : ∃ result, (request.perform "/" "intlxml.toml" :
      ExceptT Failure (StateM FileTree) CheckResult).run notesRoot = (.ok result, notesRoot) :=
    CheckRequest.exists_perform_nothing (by decide +kernel) rfl hpaths htargets
  let bytes := result.report.text.toUTF8.toList
  have hwritten : (writeText "report" "report.json" result.report.text :
      ExceptT Failure (StateM FileTree) Unit).run notesRoot = (.ok (), written bytes) := by
    rw [run_writeText_of_made hparent (run_makeDirectories_nil _),
      FileTree.write_of_not_endsInSlash hslash, hfree]
    rfl
  have hrefused : (writeText "text" request.markdownFile result.report.view.markdown :
      ExceptT Failure (StateM FileTree) Unit).run (written bytes) =
        (.error ((Cause.failure (.file .isDirectory)).within "write text: notes"),
          written bytes) := by
    rw [hnotes, run_writeText_of_made hparent' (run_makeDirectories_nil _),
      FileTree.write_of_not_endsInSlash hslash', hdirectory]
    rfl
  let failure : Failure :=
    ((Cause.failure (.file .isDirectory)).within "write text: notes").within "write markdown"
  have hfails : request.Fails "/" "intlxml.toml" notesRoot failure (written bytes) :=
    .deliver hperform (CheckRequest.run_deliver_of_refused hpath hmark hwritten hrefused)
  let bytes' := (Report.ofFailure Timestamp.epoch failure.message).text.toUTF8.toList
  have hnote : (CheckRequest.noteFailure "report.json" failure :
      ExceptT Failure (StateM FileTree) Unit).run (written bytes) = (.ok (), written bytes') := by
    have hnow : (Host.now : StateM FileTree Timestamp).run (written bytes) =
        (Timestamp.epoch, written bytes) := rfl
    rw [CheckRequest.noteFailure, run_bind_of_ok (run_lift_of_eq hnow),
      run_writeText_of_made hparent (run_makeDirectories_nil _),
      FileTree.write_of_not_endsInSlash hslash, hfile]
    rfl
  obtain ⟨printed, hcase⟩ := CheckRequest.run_of_fails hpath false hfails
  rw [hnote] at hcase
  let exit : Exit := ⟨2, printed, "intlxml error: " ++ failure.message ++ "\n"⟩
  refine ⟨exit, written bytes', ?_, ?_, ?_, rfl⟩
  · simpa only [run, hinvocation, Invocation.run] using hcase
  · intro failure' between hother
    obtain ⟨rfl, rfl⟩ := hfails.unique hother
    rw [hnote]
  · rintro ⟨place, entry, hplace, hplace'⟩
    rw [hfile, Except.ok.injEq, FileTree.Destination.found.injEq] at hplace
    rw [hnotes, hdirectory, Except.ok.injEq, FileTree.Destination.found.injEq] at hplace'
    cases hplace.2.trans hplace'.2.symm

/-- Whether a run ends so that a report is read back from its file. -/
def EndsWith (arguments : List String) (tree : FileTree) (path : String) (exit : Exit)
    (report : Report) : Prop :=
  ∃ tree', (run arguments false : StateM FileTree Exit).run tree = (exit, tree') ∧
    (readReport path : ExceptT Failure (StateM FileTree) Report).run tree' = (.ok report, tree')

/-- A page without texts, whose report is written along a directory that is made on the way; a page
with a literal text; and a check that is abandoned since its Markdown cannot be written. -/
theorem exit_code_agrees_with_report_of_each_code :
    (∃ exit report, EndsWith ["--root", "/", "check", "--report-out", "x/../report.json", "a.xml"]
        (pageRoot "<a/>".toUTF8.toList) "x/../report.json" exit report ∧
      exit.code = 0 ∧ (report.verdict = .pass ∨ report.verdict = .warn)) ∧
    (∃ exit report, EndsWith ["--root", "/", "check", "--report-out", "report.json", "a.xml"]
        (pageRoot "<a>Hello</a>".toUTF8.toList) "report.json" exit report ∧
      exit.code = 1 ∧ report.verdict = .fail) ∧
    ∃ exit report, EndsWith ["--root", "/", "check", "--report-out", "report.json",
        "--write-markdown", "--markdown-out", "notes"] notesRoot "report.json" exit report ∧
      exit.code = 2 ∧ report.verdict = .fail ∧
        ∃ finding, report.findings = [finding] ∧ finding.checkId = CheckId.toolRuntime := by
  refine ⟨?_, ?_, ?_⟩
  · let request : CheckRequest := { paths := ["a.xml"], reportFile := some "x/../report.json" }
    have hinvocation : Invocation.ofArguments
        ["--root", "/", "check", "--report-out", "x/../report.json", "a.xml"] =
          .ok ⟨"/", "intlxml.toml", .check request⟩ := by
      decide +kernel
    obtain ⟨exit, after, hrun, hnone, hcode, hle⟩ := exists_run_page hinvocation rfl rfl rfl
      (exists_writeText_detour "<a/>".toUTF8.toList)
    obtain ⟨report, hread, -, hzero, -⟩ := exit_code_agrees_with_report FileTree.onTree
      hinvocation rfl rfl hrun (fun failure between h => absurd h (hnone failure between))
      (fun h => by cases h)
    have hlegal : exit.code = 0 := by
      have hdecode : Document.decode "<a/>".toUTF8.toList = .ok (.mapping [("a", .leaf "")]) := by
        decide +kernel
      have hnothing : literalTexts ((Node.mapping [("a", .leaf "")]).leaves
          (Config.policy {} request.overrides).collect) = [] := by decide +kernel
      have hone : ¬ exit.code = 1 := by
        rw [hcode, hasLiteral_page hdecode]
        exact not_not.2 hnothing
      omega
    exact ⟨exit, report, ⟨after, hrun, hread⟩, hlegal, hzero.1 hlegal⟩
  · let request : CheckRequest := { paths := ["a.xml"], reportFile := some "report.json" }
    have hinvocation : Invocation.ofArguments
        ["--root", "/", "check", "--report-out", "report.json", "a.xml"] =
          .ok ⟨"/", "intlxml.toml", .check request⟩ := by
      decide +kernel
    obtain ⟨exit, after, hrun, hnone, hcode, -⟩ := exists_run_page hinvocation rfl rfl rfl
      (exists_writeText_name "<a>Hello</a>".toUTF8.toList)
    obtain ⟨report, hread, -, -, hone, -⟩ := exit_code_agrees_with_report FileTree.onTree
      hinvocation rfl rfl hrun (fun failure between h => absurd h (hnone failure between))
      (fun h => by cases h)
    have hliteral : exit.code = 1 := by
      have hdecode : Document.decode "<a>Hello</a>".toUTF8.toList =
          .ok (.mapping [("a", .leaf "Hello")]) := by decide +kernel
      rw [hcode, hasLiteral_page hdecode]
      decide +kernel
    exact ⟨exit, report, ⟨after, hrun, hread⟩, hliteral, (hone.1 hliteral).1⟩
  · let request : CheckRequest :=
      { reportFile := some "report.json", writeMarkdown := true, markdownFile := "notes" }
    have hinvocation : Invocation.ofArguments
        ["--root", "/", "check", "--report-out", "report.json", "--write-markdown",
          "--markdown-out", "notes"] = .ok ⟨"/", "intlxml.toml", .check request⟩ := by
      decide +kernel
    obtain ⟨exit, after, hrun, hnoted, hapart, hcode⟩ :=
      exists_run_of_directory hinvocation rfl rfl rfl rfl rfl
    obtain ⟨report, hread, -, -, -, htwo, -⟩ := exit_code_agrees_with_report FileTree.onTree
      hinvocation rfl rfl hrun hnoted (fun _ => hapart)
    exact ⟨exit, report, ⟨after, hrun, hread⟩, hcode, htwo.1 hcode⟩

end CommandLine

end LocaleLint

import Hella.Executor.Xjobs

/-!
# Jobs that come to a reportable end

A built-in job sets its state and its progress apart from each other, and a shell job
forgets the state on some of its ways out. What the collector does not see as finished it
never reports.
-/
namespace Hella

/-- The job is in a final state, with the progress that belongs to it. -/
def Xjob.Reportable (x : Xjob) : Prop :=
  ∃ state, x.jobPlanNodeState = some state ∧ state.isResultState = true ∧
    x.progress = if state = .resultSuccess then progressSuccess else progressError

/-- The collector reports such a job, with its state and progress. -/
theorem Xjob.Reportable.reportOf {x : Executor} {eventID : String} {runner : XjobRunner} {entry : JobProgress}
    (reportable : runner.xjob.Reportable) (runs : x.xjobRunners.lookup eventID = some runner)
    (collects : x.jobProgressMap.lookup eventID = some entry) :
    ∃ state report, runner.xjob.jobPlanNodeState = some state ∧ x.reportOf eventID = some report ∧
      report.jobPlanNodeState = state.name ∧ report.progress = runner.xjob.progress := by
  obtain ⟨state, is, final, -⟩ := reportable
  have ended := JobPlanNodeState.not_running_of_result final
  simp [Executor.reportOf, runs, is, ended, collects]

namespace ShellXjob

/-- The process starts, the wait for it is not interrupted, and if it fails its error
stream can be read to the end. -/
def Ends (o : Outside) (command : String) : Prop :=
  ∃ process iretCode, o.exec command = .ok process ∧ process.waitFor = .ok iretCode ∧
    (iretCode ≠ 0 → process.errorsEnd = .ended)

section

variable {o : Outside} {x : XjobFields} {process : ShellProcess} {name : String} {infoDesc : Chars}

theorem readOutput_state : (readOutput x process).1.jobPlanNodeState = x.jobPlanNodeState := by
  unfold readOutput
  split <;> rfl

/-- Whatever came of the output, the exit value decides. -/
theorem readExit_reportable (running : x.jobPlanNodeState = some .dispatchSuccess) :
    (readExit x name process infoDesc).1.xjob.Reportable ↔
      ∃ iretCode, process.waitFor = .ok iretCode ∧ (iretCode ≠ 0 → process.errorsEnd = .ended) := by
  have unfinished : ∀ progress, ¬ ({ x with progress := progress } : XjobFields).xjob.Reportable := by
    rintro progress ⟨state, is, final, -⟩
    obtain rfl : JobPlanNodeState.dispatchSuccess = state := Option.some.inj (running.symm.trans is)
    revert final
    decide
  unfold readExit
  cases waited : process.waitFor with
  | error text => simpa using unfinished progressError
  | ok iretCode =>
    by_cases failed : iretCode ≠ 0
    · dsimp only
      rw [if_pos failed]
      cases errors : process.errorsEnd with
      | ended => exact iff_of_true ⟨.resultError, rfl, rfl, rfl⟩ ⟨iretCode, rfl, fun _ => rfl⟩
      | ioException text => simpa [failed] using unfinished progressError
      | exception text => simpa [failed] using unfinished progressError
    · dsimp only
      rw [if_neg failed]
      exact iff_of_true ⟨.resultSuccess, rfl, rfl, rfl⟩ ⟨iretCode, rfl, fun nonzero => absurd nonzero failed⟩

theorem executeshell_reportable (name : String) {executeUser args : Option String} {shellFile : String} :
    (executeshell o new name executeUser shellFile args).xjob.Reportable ↔
      Ends o (command executeUser shellFile args) := by
  unfold executeshell Ends
  cases started : o.exec (command executeUser shellFile args) with
  | error text =>
    -- the process did not start, and the state is still the initial one
    apply iff_of_false
    · rintro ⟨state, is, final, -⟩
      obtain rfl : JobPlanNodeState.init = state := Option.some.inj is
      revert final
      decide
    · rintro ⟨process, iretCode, same, -⟩
      cases same
  | ok process =>
    have running : (readOutput { new with jobPlanNodeState := some .dispatchSuccess, jobRunDate := some o.date }
      process).1.jobPlanNodeState =
        some .dispatchSuccess := readOutput_state
    refine (readExit_reportable running).trans ?_
    constructor
    · rintro ⟨iretCode, waited, read⟩
      exact ⟨process, iretCode, rfl, waited, read⟩
    · rintro ⟨other, iretCode, same, waited, read⟩
      cases same
      exact ⟨iretCode, waited, read⟩

end

end ShellXjob

theorem HttpXjob.execute_reportable (o : Outside) (send : JobEvent → Except Unit (Option Chars)) (cut : Chars → Chars)
    (event : JobEvent) : (HttpXjob.execute o send cut HttpXjob.new event).xjob.Reportable := by
  unfold HttpXjob.execute
  split
  next => exact ⟨.dispatchFail, rfl, rfl, rfl⟩
  next =>
    cases send event with
    | error _ => exact ⟨.resultError, rfl, rfl, rfl⟩
    | ok rs => exact ⟨.resultSuccess, rfl, rfl, rfl⟩

namespace BuiltIn

theorem located_keeps (o : Outside) (event : JobEvent) :
    (located o event).executeUser = event.executeUser ∧ (located o event).argsValue = event.argsValue := by
  unfold located
  split <;> exact ⟨rfl, rfl⟩

/-- The mode of the event is one of the enumeration, and a shell job that has a script to
run comes to its end. -/
def Completes (o : Outside) (kind : BuiltIn) (event : JobEvent) : Prop :=
  XjobMode.valueOf event.mode ≠ none ∧
    (kind = .shellXjob → (located o event).executionContent ≠ "" →
      ShellXjob.Ends o (ShellXjob.command event.executeUser (located o event).executionContent event.argsValue))

/-- A built-in job ends in a reportable state exactly if it completes. -/
theorem reportable_iff (o : Outside) (kind : BuiltIn) (event : JobEvent) :
    (kind.run o event).xjob.Reportable ↔ Completes o kind event := by
  unfold run Completes
  cases mode : XjobMode.valueOf event.mode with
  | none =>
    -- the job was never executed
    apply iff_of_false
    · rintro ⟨state, is, final, -⟩
      cases kind with
      | shellXjob =>
        obtain rfl : JobPlanNodeState.init = state := Option.some.inj is
        revert final
        decide
      | httpGetXjob => cases is
      | httpPostXjob => cases is
    · exact fun completes => completes.1 rfl
  | some mode =>
    cases kind with
    | httpGetXjob => exact iff_of_true (HttpXjob.execute_reportable ..) ⟨by simp, by simp⟩
    | httpPostXjob => exact iff_of_true (HttpXjob.execute_reportable ..) ⟨by simp, by simp⟩
    | shellXjob =>
      obtain ⟨user, args⟩ := located_keeps o event
      by_cases empty : (located o event).executionContent = ""
      · have failed : (ShellXjob.execute o ShellXjob.new (located o event)).xjob.Reportable := by
          unfold ShellXjob.execute
          rw [if_pos empty]
          exact ⟨.dispatchFail, rfl, rfl, rfl⟩
        exact iff_of_true failed ⟨by simp, fun _ some_ => absurd empty some_⟩
      · have executed : (ShellXjob.execute o ShellXjob.new (located o event)).xjob.Reportable ↔
            ShellXjob.Ends o (ShellXjob.command event.executeUser
              (located o event).executionContent event.argsValue) := by
          rw [← user, ← args, ← ShellXjob.executeshell_reportable (located o event).jobPlanNodeName]
          unfold ShellXjob.execute
          rw [if_neg empty]
          exact Iff.rfl
        refine executed.trans ⟨fun ends => ⟨by simp, fun _ _ => ends⟩, fun completes => completes.2 rfl empty⟩

/-- Nothing can be started or reached. -/
def refusing : Outside where
  userDir := "/opt/hella"
  date := "20140109"
  exec _ := .error none
  sendGet _ := .error ()
  sendPost _ _ := .error ()
  html2Text _ := []

def loadEvent : JobEvent :=
  { eventID := "1", eventType := .executeJob, executorClusterID := "etl", xjobExecutorType := "Auto", mode := "script"
    executionContent := "load.sh", jobClassName := "com.zhangyue.hella.common.job.impl.ShellXjob"
    jobPlanNodeName := "load" }

/-- The process cannot be started: the job stays in its initial state. -/
theorem not_reportable_refused :
    (shellXjob.run refusing loadEvent).jobPlanNodeState = some .init ∧
      ¬ (shellXjob.run refusing loadEvent).xjob.Reportable := by
  have initial : (shellXjob.run refusing loadEvent).jobPlanNodeState = some .init := by decide +kernel
  refine ⟨initial, ?_⟩
  rintro ⟨state, is, final, -⟩
  obtain rfl : JobPlanNodeState.init = state := Option.some.inj (initial.symm.trans is)
  revert final
  decide

end BuiltIn

end Hella

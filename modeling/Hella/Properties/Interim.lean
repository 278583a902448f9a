import Hella.Control.Inert
import Hella.Properties.Retry

/-!
# Reports before the result

The executor may report a job several times before its result. Such a report is
inert unless it says DISPATCH_SUCCESS, which takes the runtime entry away that the
result needs.
-/
namespace Hella

open Exec

namespace Engine

variable {env : Env} {cluster eventID : String} {report final : JobProgress} {reports : List JobProgress}
  {state : JobPlanNodeState} {e t : Engine} {info : JobNodeRuningInfo} {n : Nat} {i : Instance}

/-- Reports about one job of a workflow that are no results. -/
def Interim (eventID : String) (reports : List JobProgress) : Prop :=
  ∀ report ∈ reports, report.eventID = eventID ∧ ∃ state, report.Reads .auto state ∧ state.isResultState = false

/-- A result for one job of a workflow. -/
def Result (eventID : String) (final : JobProgress) : Prop :=
  final.eventID = eventID ∧ ∃ state, final.Reads .auto state ∧ state.isResultState = true

/-- Two engines agree on statuses, variables, the jobs handed to the dispatcher and
how often the row has been executed. -/
structure Agree (row : Nat) (x y : Engine) : Prop where
  statuses : x.instances.map (·.status) = y.instances.map (·.status)
  vars : x.instances.map (·.vars) = y.instances.map (·.vars)
  executes : ∀ c, (x.queued c).filter (·.eventType = .executeJob) = (y.queued c).filter (·.eventType = .executeJob)
  executeTimes : (x.store.xjobState? row).map (·.executeTimes) = (y.store.xjobState? row).map (·.executeTimes)

/-- What the result does after the other reports is what it does alone. -/
def Unaffected (env : Env) (cluster : String) (reports : List JobProgress) (final : JobProgress) (e : Engine) : Prop :=
  ∀ info, e.runingInfo? final.eventID = some info →
    Agree info.xjobStateID
      (after (handlejobProgress env cluster final (after (processJobProgress env cluster reports e))))
      (after (handlejobProgress env cluster final e))

theorem Agree.refl (row : Nat) (e : Engine) : Agree row e e := ⟨rfl, rfl, fun _ => rfl, rfl⟩

theorem Killed.agree {x y : Engine} (one : Killed e x) (other : Killed e y) (row : Nat) : Agree row x y where
  statuses := by rw [one.instances, other.instances]
  vars := by rw [one.instances, other.instances]
  executes c := by rw [one.executes, other.executes]
  executeTimes := by simp only [Store.xjobState?, one.xjobStates, other.xjobStates]

/-! ### Without DISPATCH_SUCCESS -/

theorem not_aside (reads : report.Reads .auto state) (quiet : ¬ report.Reads .auto .dispatchSuccess) :
    ¬ Aside .auto state := by
  rintro (dispatched | once)
  · exact quiet (dispatched ▸ reads)
  · cases once

theorem processJobProgress_early (interim : Interim eventID reports)
    (quiet : ∀ report ∈ reports, ¬ report.Reads .auto .dispatchSuccess) (found : e.runingInfo? eventID = some info)
    (there : e.getWorkflow? info.workflowRunKey = some (n, i)) :
    processJobProgress env cluster reports e = .ok () e := by
  induction reports with
  | nil => rfl
  | cons report rest ih =>
    obtain ⟨rfl, state, reads, early⟩ := interim report (by simp)
    have flow := not_aside reads (quiet report (by simp))
    have first : handleGuarded env cluster report e = .ok () e :=
      handleGuarded_ok (handlejobProgress_early reads found flow there early)
    rw [processJobProgress_cons, bind_ok first]
    exact ih (fun r member => interim r (by simp [member])) (fun r member => quiet r (by simp [member]))

theorem unaffected_of_quiet (interim : Interim eventID reports)
    (quiet : ∀ report ∈ reports, ¬ report.Reads .auto .dispatchSuccess) (result : Result eventID final) :
    Unaffected env cluster reports final e := by
  obtain ⟨rfl, state, reads, closed⟩ := result
  intro info found
  -- a result is handled in the flow
  have flow : ¬ Aside .auto state := by
    rintro (rfl | once)
    · cases closed
    · cases once
  -- while the run is there, a report before the result only passes through
  cases there : e.getWorkflow? info.workflowRunKey with
  | some place =>
    rw [processJobProgress_early interim quiet found there]
    exact .refl _ _
  | none =>
    -- once it is gone each report kills the job again, and one more kill makes no difference
    have inert : ∀ report ∈ reports, e.Inert report := by
      intro report member type state info' reads' found'
      obtain ⟨same, state', auto, early⟩ := interim report member
      obtain rfl : XjobExecutorType.auto = type := Option.some.inj (auto.type.symm.trans reads'.type)
      obtain rfl : info = info' := Option.some.inj (found.symm.trans (same ▸ found'))
      exact ⟨not_aside reads' (quiet report member), .inl there⟩
    obtain ⟨t, handled, killed⟩ := processJobProgress_inert env cluster inert
    rw [handled, after_ok, handlejobProgress_gone reads (killed.runingInfo? ▸ found) flow (killed.getWorkflow? ▸ there),
      handlejobProgress_gone reads found flow there]
    obtain ⟨x, kills, later⟩ := killed_of_kill cluster t final.eventID
    obtain ⟨y, kills', alone⟩ := killed_of_kill cluster e final.eventID
    rw [kills, kills', after_ok, after_ok]
    exact (killed.trans later).agree alone _

/-! ### With DISPATCH_SUCCESS -/

theorem processJobProgress_missing (reports : List JobProgress)
    (missing : ∀ report ∈ reports, e.runingInfo? report.eventID = none) :
    processJobProgress env cluster reports e = .ok () e := by
  induction reports with
  | nil => rfl
  | cons report rest ih =>
    rw [processJobProgress_cons, bind_ok (handleGuarded_missing (missing report (by simp)))]
    exact ih fun r member => missing r (by simp [member])

/-- The entry goes, whether or not the row could be written. -/
theorem handleGuarded_dispatched (env : Env) (cluster : String) (reads : report.Reads .auto .dispatchSuccess)
    (found : e.runingInfo? report.eventID = some info) :
    ∃ t, handleGuarded env cluster report e = .ok () t ∧ t.instances = e.instances ∧ t.queued = e.queued ∧
      t.runingInfo? report.eventID = none := by
  have aside : Aside .auto .dispatchSuccess := .inl rfl
  have erased : AList.lookup report.eventID (e.store.jobNodeRuningInfosMap.erase report.eventID) = none :=
    AList.lookup_erase _ _
  have branch := @handlejobProgress_aside env cluster _ _ _ _ _ reads found aside
  by_cases succeeds : env.daoSucceeds e.store.tick
  · rw [if_pos succeeds] at branch
    exact ⟨_, handleGuarded_ok branch, rfl, rfl, erased⟩
  · rw [if_neg succeeds] at branch
    exact ⟨_, handleGuarded_error branch rfl, rfl, rfl, erased⟩

/-- After DISPATCH_SUCCESS the result is refused and the workflow never hears of it. -/
theorem silent_of_dispatched (env : Env) (cluster : String) (interim : Interim eventID reports)
    (loud : ∃ report ∈ reports, report.Reads .auto .dispatchSuccess) (found : e.runingInfo? eventID = some info)
    (there : e.getWorkflow? info.workflowRunKey = some (n, i)) :
    ∃ t, processJobProgress env cluster reports e = .ok () t ∧ t.instances = e.instances ∧ t.queued = e.queued ∧
      t.runingInfo? eventID = none := by
  induction reports with
  | nil => simp at loud
  | cons report rest ih =>
    obtain ⟨rfl, state, reads, early⟩ := interim report (by simp)
    have others : Interim report.eventID rest := fun r member => interim r (by simp [member])
    rw [processJobProgress_cons]
    by_cases now : report.Reads .auto .dispatchSuccess
    · obtain ⟨t, first, instances, queues, missing⟩ := handleGuarded_dispatched env cluster now found
      have idle : processJobProgress env cluster rest t = .ok () t :=
        processJobProgress_missing rest fun r member => (others r member).1 ▸ missing
      exact ⟨t, (bind_ok first).trans idle, instances, queues, missing⟩
    · have first : handleGuarded env cluster report e = .ok () e :=
        handleGuarded_ok (handlejobProgress_early reads found (not_aside reads now) there early)
      rw [bind_ok first]
      refine ih others ?_
      simpa [now] using loud

end Engine

/-! ### The condition is exact -/

namespace OneRetry

/-- The engine while `load` runs under the given event. -/
def waitingFor (eventID : String) : Engine :=
  { store :=
      { xjobStates := [row]
        lastXjobStateID := 2
        jobPlans := [plan]
        workflowsMap := AList.insert "10001" 0 ∅
        jobNodeRuningInfosMap := AList.insert eventID ⟨"load", 2, "10001"⟩ ∅
        executorRegisterDateMap := ["c"] }
    instances := [{ workflow := workflow, status := .running }] }

def failed (eventID : String) : JobProgress :=
  { executorType := "Auto", jobPlanNodeState := "RESULT_ERROR", progress := -1, eventID := eventID }

theorem failed_reads (eventID : String) : (failed eventID).Reads .auto .resultError :=
  ⟨XjobExecutorType.valueOf_name .auto, JobPlanNodeState.valueOf_name .resultError⟩

theorem waitingFor_found (eventID : String) : (waitingFor eventID).runingInfo? eventID = some ⟨"load", 2, "10001"⟩ :=
  AList.lookup_insert _

theorem waitingFor_there (eventID : String) :
    (waitingFor eventID).getWorkflow? "10001" = some (0, { workflow := workflow, status := .running }) := by
  rfl

/-- Alone, the result fails the workflow. -/
theorem waitingFor_fails (eventID : String) :
    (after (Engine.handlejobProgress Env.calm "c" (failed eventID) (waitingFor eventID))).instances.map (·.status) =
      [.failed] := by
  have flow : ¬ Aside .auto .resultError := by decide
  let report : JobProgress := { failed eventID with xjobStateID := 2 }
  obtain ⟨s, told, status, -⟩ := @completeJobPlanNode_retry Env.calm workflow "load" load
    { jobProgress := some report } report row (by decide) rfl rfl rfl (by decide) (by decide)
    (Instance.run { workflow := workflow, status := .running } (waitingFor eventID).store) rfl
  obtain ⟨_, _, completed, store, -, rfl⟩ := @Engine.completeJobProgress_returns Env.calm "c" report .resultError
    (waitingFor eventID) 0 _ s rfl "load" told
  rw [Engine.handlejobProgress_result (failed_reads eventID) (waitingFor_found eventID) flow (waitingFor_there eventID)
    rfl, bind_ok completed]
  simp [Store.removeJobNodeRuningInfo, Engine.onShared_modify, Engine.save, waitingFor, Instance.save, status]

end OneRetry

namespace Engine

/-- The other reports leave the result alone in every engine exactly when none of
them says DISPATCH_SUCCESS. -/
theorem interim_harmless_iff (eventID : String) (reports : List JobProgress) (interim : Interim eventID reports) :
    (∀ env cluster e final, Result eventID final → Unaffected env cluster reports final e) ↔
      ∀ report ∈ reports, report.jobPlanNodeState ≠ JobPlanNodeState.dispatchSuccess.name := by
  constructor
  · intro unaffected report member spelled
    obtain ⟨-, state, reads, -⟩ := interim report member
    have loud : report.Reads .auto .dispatchSuccess := ⟨reads.type, by simp [spelled]⟩
    have found := OneRetry.waitingFor_found eventID
    obtain ⟨t, handled, instances, -, missing⟩ := silent_of_dispatched Env.calm "c" interim ⟨report, member, loud⟩ found
      (OneRetry.waitingFor_there eventID)
    have agree := unaffected Env.calm "c" (OneRetry.waitingFor eventID) (OneRetry.failed eventID)
      ⟨rfl, _, OneRetry.failed_reads eventID, rfl⟩ _ found
    have statuses := agree.statuses
    rw [OneRetry.waitingFor_fails, handled, after_ok, handlejobProgress_missing (OneRetry.failed_reads eventID) missing,
      after_error, instances] at statuses
    cases statuses
  · intro quiet env cluster e final result
    refine unaffected_of_quiet interim (fun report member loud => quiet report member ?_) result
    have valid : JobPlanNodeState.values.find? (·.name = report.jobPlanNodeState) = some .dispatchSuccess := loud.state
    have named : JobPlanNodeState.dispatchSuccess.name = report.jobPlanNodeState := by
      simpa using List.find?_some valid
    exact named.symm

end Engine

namespace OneRetry

def interimReport (state : JobPlanNodeState) : JobProgress :=
  { executorType := "Auto", jobPlanNodeState := state.name, eventID := "1270011002" }

theorem interimReport_interim (states : List JobPlanNodeState) (early : ∀ state ∈ states, state.isResultState = false) :
    Engine.Interim "1270011002" (states.map interimReport) := by
  intro report member
  obtain ⟨state, among, rfl⟩ := List.mem_map.mp member
  exact ⟨rfl, state, ⟨XjobExecutorType.valueOf_name .auto, JobPlanNodeState.valueOf_name state⟩, early state among⟩

theorem failed_result : Engine.Result "1270011002" (failed "1270011002") := ⟨rfl, _, failed_reads _, rfl⟩

end OneRetry

theorem interim_harmless_iff_notified :
    Engine.Unaffected Env.calm "c" ([.init, .notifySuccess].map OneRetry.interimReport) (OneRetry.failed "1270011002")
      (OneRetry.waitingFor "1270011002") :=
  (Engine.interim_harmless_iff "1270011002" _ (OneRetry.interimReport_interim _ (by decide))).mpr (by decide) _ _ _ _
    OneRetry.failed_result

/-- DISPATCH_SUCCESS makes the engine forget the job: the workflow stays RUNNING when
the result comes, which alone would have ended it. -/
theorem dispatched_not_unaffected :
    Engine.Interim "1270011002" ([.dispatchSuccess].map OneRetry.interimReport) ∧
      Engine.Result "1270011002" (OneRetry.failed "1270011002") ∧
      ¬ Engine.Unaffected Env.calm "c" ([.dispatchSuccess].map OneRetry.interimReport) (OneRetry.failed "1270011002")
        (OneRetry.waitingFor "1270011002") := by
  refine ⟨OneRetry.interimReport_interim _ (by decide), OneRetry.failed_result, fun unaffected => ?_⟩
  have statuses := (unaffected _ (OneRetry.waitingFor_found _)).statuses
  rw [OneRetry.waitingFor_fails] at statuses
  revert statuses
  decide +kernel

end Hella

import Hella.Control.Reports
import Hella.Engine.Server

/-!
# Reports that change nothing

An inert report finds no entry, no registered run or no result in itself. Handling
it at most queues a KILL_JOB event.
-/
namespace Hella

open Exec

namespace Engine

variable {env : Env} {cluster : String} {report : JobProgress} {reports : List JobProgress}
  {type : XjobExecutorType} {state : JobPlanNodeState} {e t u : Engine}

/-- Handling the report does not get past the checks at its start. -/
def Inert (e : Engine) (report : JobProgress) : Prop :=
  ∀ type state info, report.Reads type state → e.runingInfo? report.eventID = some info →
    ¬ Aside type state ∧ (e.getWorkflow? info.workflowRunKey = none ∨ state.isResultState = false)

/-- Only KILL_JOB events have been queued. -/
structure Killed (e t : Engine) : Prop where
  rest : t = { e with store := { e.store with jobEventsMap := t.store.jobEventsMap } }
  queues : ∀ c, ∃ ids : List String, t.queued c = e.queued c ++ ids.map (killJobEvent c)

namespace Killed

theorem refl (e : Engine) : Killed e e := ⟨rfl, fun _ => ⟨[], by simp⟩⟩

theorem trans (first : Killed e t) (second : Killed t u) : Killed e u := by
  refine ⟨?_, fun c => ?_⟩
  · have same := second.rest
    rw [first.rest] at same
    exact same
  · obtain ⟨ids, grown⟩ := first.queues c
    obtain ⟨more, later⟩ := second.queues c
    exact ⟨ids ++ more, by rw [later, grown, List.map_append, List.append_assoc]⟩

theorem instances (killed : Killed e t) : t.instances = e.instances := by rw [killed.rest]

theorem runingInfo? (killed : Killed e t) : t.runingInfo? = e.runingInfo? := by rw [killed.rest]; rfl

theorem getWorkflow? (killed : Killed e t) : t.getWorkflow? = e.getWorkflow? := by rw [killed.rest]; rfl

theorem xjobStates (killed : Killed e t) : t.store.xjobStates = e.store.xjobStates := by rw [killed.rest]

theorem inert (killed : Killed e t) (inert : e.Inert report) : t.Inert report := by
  unfold Inert
  rw [killed.runingInfo?, killed.getWorkflow?]
  exact inert

/-- KILL_JOB events are not among the events that start jobs. -/
theorem executes (killed : Killed e t) (c : String) :
    (t.queued c).filter (·.eventType = .executeJob) = (e.queued c).filter (·.eventType = .executeJob) := by
  obtain ⟨ids, grown⟩ := killed.queues c
  have none_of_kills : (ids.map (killJobEvent c)).filter (·.eventType = .executeJob) = [] := by
    simp [List.filter_eq_nil_iff, killJobEvent]
  rw [grown, List.filter_append, none_of_kills, List.append_nil]

end Killed

theorem killed_of_kill (cluster : String) (e : Engine) (eventID : String) :
    ∃ t, onShared (killJobHandle cluster eventID) e = .ok () t ∧ Killed e t := by
  by_cases registered : cluster ∈ e.store.executorRegisterDateMap
  · refine ⟨_, killJobHandle_registered registered eventID, rfl, fun c => ?_⟩
    by_cases same : c = cluster
    · subst same
      exact ⟨[eventID], by simp [queued]⟩
    · exact ⟨[], by simp [queued, AList.lookup_insert_ne same]⟩
  · exact ⟨e, killJobHandle_unregistered registered eventID, .refl e⟩

/-- One turn of `processJobProgress`. -/
def handleGuarded (env : Env) (cluster : String) (report : JobProgress) : EngineM Unit :=
  catching Throwable.isException (handlejobProgress env cluster report) fun _ => pure ()

theorem processJobProgress_cons : processJobProgress env cluster (report :: reports) =
    handleGuarded env cluster report >>= fun _ => processJobProgress env cluster reports := rfl

theorem handleGuarded_ok (returned : handlejobProgress env cluster report e = .ok () t) :
    handleGuarded env cluster report e = .ok () t := by
  simp [handleGuarded, catching, returned]

theorem handleGuarded_error {thrown : Throwable} (error : handlejobProgress env cluster report e = .error thrown t)
    (caught : thrown.isException = true) : handleGuarded env cluster report e = .ok () t := by
  simp [handleGuarded, catching, error, caught]

theorem handleGuarded_missing (missing : e.runingInfo? report.eventID = none) :
    handleGuarded env cluster report e = .ok () e := by
  by_cases valid : ∃ type state, report.Reads type state
  · obtain ⟨type, state, reads⟩ := valid
    exact handleGuarded_error (handlejobProgress_missing reads missing) rfl
  · push Not at valid
    exact handleGuarded_error (handlejobProgress_malformed valid) rfl

theorem handleGuarded_inert (env : Env) (cluster : String) (inert : e.Inert report) :
    ∃ t, handleGuarded env cluster report e = .ok () t ∧ Killed e t := by
  cases found : e.runingInfo? report.eventID with
  | none => exact ⟨e, handleGuarded_missing found, .refl e⟩
  | some info =>
    by_cases valid : ∃ type state, report.Reads type state
    · obtain ⟨type, state, reads⟩ := valid
      obtain ⟨flow, stopped⟩ := inert type state info reads found
      cases there : e.getWorkflow? info.workflowRunKey with
      | none =>
        obtain ⟨t, kills, killed⟩ := killed_of_kill cluster e report.eventID
        exact ⟨t, handleGuarded_ok ((handlejobProgress_gone reads found flow there).trans kills), killed⟩
      | some place =>
        have early : state.isResultState = false := by simpa [there] using stopped
        exact ⟨e, handleGuarded_ok (handlejobProgress_early reads found flow there early), .refl e⟩
    · push Not at valid
      exact ⟨e, handleGuarded_error (handlejobProgress_malformed valid) rfl, .refl e⟩

/-- A list of inert reports at most queues KILL_JOB events. -/
theorem processJobProgress_inert (env : Env) (cluster : String) (inert : ∀ report ∈ reports, e.Inert report) :
    ∃ t, processJobProgress env cluster reports e = .ok () t ∧ Killed e t := by
  induction reports generalizing e with
  | nil => exact ⟨e, rfl, .refl e⟩
  | cons report rest ih =>
    obtain ⟨t, first, killed⟩ := handleGuarded_inert env cluster (inert report (by simp))
    obtain ⟨u, others, later⟩ := ih fun r member => killed.inert (inert r (by simp [member]))
    exact ⟨u, by rw [processJobProgress_cons, bind_ok first, others], killed.trans later⟩

end Engine

end Hella

import Hella.Control.Reports

/-!
# Reports for events the engine does not know

A report is unknown when its event ID has no runtime entry or its run has left
`workflowsMap`. The branch of `handlejobProgress` that answers it with a KILL_JOB
event is behind a lookup that expects the entry.
-/
namespace Hella

open Exec

namespace Engine

variable {env : Env} {cluster : String} {report : JobProgress} {state : JobPlanNodeState} {e : Engine}

/-- No entry for the event, or no registered run. -/
def Unknown (e : Engine) (eventID : String) : Prop :=
  ∀ info, e.runingInfo? eventID = some info → e.getWorkflow? info.workflowRunKey = none

/-- `handlejobProgress` returns, no row changes and one KILL_JOB event for the
report's event is queued for the cluster. -/
def Answered (env : Env) (cluster : String) (report : JobProgress) (e : Engine) : Prop :=
  ∃ after, handlejobProgress env cluster report e = .ok () after ∧
    after.store.xjobStates = e.store.xjobStates ∧
    after.queued cluster = e.queued cluster ++ [killJobEvent cluster report.eventID] ∧
    ∀ other ≠ cluster, after.queued other = e.queued other

/-- The branch for a dispatched job leaves every queue as it was. -/
theorem queued_aside {type : XjobExecutorType} {info : JobNodeRuningInfo} {after : Engine}
    (reads : report.Reads type state) (found : e.runingInfo? report.eventID = some info) (aside : Aside type state)
    (returned : handlejobProgress env cluster report e = .ok () after) : after.queued = e.queued := by
  rw [handlejobProgress_aside reads found aside] at returned
  split at returned <;> cases returned
  rfl

/-- Exactly the unknown reports that have an entry, do not note a dispatch and come
from a registered cluster are answered. -/
theorem answered_iff (reads : report.Reads .auto state) (unknown : e.Unknown report.eventID) :
    Answered env cluster report e ↔ (e.runingInfo? report.eventID).isSome ∧ state ≠ .dispatchSuccess ∧
      cluster ∈ e.store.executorRegisterDateMap := by
  constructor
  -- the queue has grown by a kill, which only the branch without a run sends
  · rintro ⟨after, returned, -, kill, -⟩
    cases found : e.runingInfo? report.eventID with
    | none => cases (handlejobProgress_missing reads found).symm.trans returned
    | some info =>
      have grown : after.queued ≠ e.queued := by
        intro same
        rw [same] at kill
        simp at kill
      have flow : ¬ Aside .auto state := fun aside => grown (queued_aside reads found aside returned)
      refine ⟨rfl, fun dispatched => flow (.inl dispatched), ?_⟩
      by_contra dropped
      rw [handlejobProgress_gone reads found flow (unknown info found), killJobHandle_unregistered dropped] at returned
      exact grown (by cases returned; rfl)
  -- and there a registered executor gets one
  · rintro ⟨entry, final, registered⟩
    obtain ⟨info, found⟩ := Option.isSome_iff_exists.mp entry
    have flow : ¬ Aside .auto state := by simp [Aside, final]
    refine ⟨_, (handlejobProgress_gone reads found flow (unknown info found)).trans
      (killJobHandle_registered registered _), rfl, ?_, ?_⟩
    · simp [queued]
    · intro other ne
      simp [queued, AList.lookup_insert_ne ne]

end Engine

/-! ### Concrete reports -/

namespace Diamond

/-- A result of an earlier master's job. -/
def orphan : JobProgress :=
  { executorType := "Auto", jobPlanNodeState := "RESULT_SUCCESS", progress := 100, eventID := "1270011000" }

/-- The run of `orphan` has ended but its entry is still there. -/
def ended : Engine :=
  { store :=
      { jobNodeRuningInfosMap := AList.insert "1270011000" ⟨"a", 2, "10001"⟩ ∅
        executorRegisterDateMap := ["c"] } }

/-- A master without workflows whose executors have registered. -/
def fresh : Engine := { store := { executorRegisterDateMap := ["c"] } }

theorem orphan_reads : orphan.Reads .auto .resultSuccess := ⟨by decide, by decide⟩

end Diamond

theorem answered_iff_ended : Engine.Answered Env.calm "c" Diamond.orphan Diamond.ended :=
  (Engine.answered_iff Diamond.orphan_reads (fun _ _ => rfl)).mpr ⟨by decide, by decide, by decide⟩

/-- A freshly promoted master drops the report of a job its predecessor started. -/
theorem freshMaster_not_answered :
    Diamond.orphan.Reads .auto .resultSuccess ∧ Diamond.fresh.Unknown Diamond.orphan.eventID ∧
      ¬ Engine.Answered Env.calm "c" Diamond.orphan Diamond.fresh := by
  refine ⟨Diamond.orphan_reads, (fun info found => by cases found), ?_⟩
  rintro ⟨after, returned, -⟩
  cases (Engine.handlejobProgress_missing Diamond.orphan_reads rfl).symm.trans returned

end Hella

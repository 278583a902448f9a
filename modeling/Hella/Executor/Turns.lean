import Hella.Executor.Client

/-!
# What an executor does, one event at a time

The methods of the client that go through a list remove jobs, in `clear`, or start
them, in `processHeartbeat`. One rule for each says what survives the whole list.
-/
namespace Hella

namespace Executor

variable {newInstance : String → Instantiation} {x : Executor}

theorem isContainsRuningXjob_iff (eventID : String) : x.isContainsRuningXjob eventID = true ↔ eventID ∈ x.xjobRunners :=
  AList.lookup_isSome

/-- The kill of a job without a runner destroys nothing. -/
theorem killXjob_absent {event : JobEvent} (absent : event.eventID ∉ x.xjobRunners) :
    x.killXjob event = x.clearEvent event.eventID := by
  rw [killXjob, killJob, AList.lookup_eq_none.mpr absent]

/-- What the removal of any cleared report's job keeps holds after the whole list. -/
theorem clear_rule {P : Executor → Prop} {jobProgresses : List JobProgress}
    (removes : ∀ y, ∀ jobProgress ∈ jobProgresses,
      jobProgress.jobPlanNodeState ≠ JobPlanNodeState.dispatchSuccess.name → P y → P (y.clearEvent jobProgress.eventID))
    (holds : P x) : P (x.clear jobProgresses) := by
  unfold clear
  induction jobProgresses generalizing x with
  | nil => exact holds
  | cons jobProgress rest ih =>
    rw [List.foldl_cons]
    apply ih fun y other member => removes y other (List.mem_cons_of_mem _ member)
    split
    · exact holds
    · exact removes x jobProgress List.mem_cons_self ‹_› holds

/-- A property of the events to come and of the executor that every turn keeps. The loop
can end before the list does. -/
theorem processHeartbeat_rule {P : List JobEvent → Executor → Prop} {Q : Executor → Prop}
    (starts : ∀ event events y xjob, P (event :: events) y → event.eventType = .executeJob →
      newInstance event.jobClassName = .created xjob → event.eventID ∉ y.xjobRunners →
      P events ((y.addProgress event).add { xjob := xjob, event := event }))
    (removes : ∀ event events y, P (event :: events) y → event.eventID ∉ y.xjobRunners →
      P events (y.clearEvent event.eventID))
    (skips : ∀ event events y, P (event :: events) y → P events y)
    (ends : ∀ events y, P events y → Q y)
    (events : List JobEvent) (holds : P events x) : Q (processHeartbeat newInstance events x) := by
  induction events generalizing x with
  | nil => exact ends [] x holds
  | cons event events ih =>
    unfold processHeartbeat
    split
    -- a running job ends the loop
    · exact ends _ x holds
    next idle =>
      have absent : event.eventID ∉ x.xjobRunners := fun running => idle ((isContainsRuningXjob_iff _).mpr running)
      cases type : event.eventType with
      | executeJob =>
        cases made : newInstance event.jobClassName with
        | created xjob =>
          simp only [executeXJob, made]
          exact ih (starts event events x xjob holds type made absent)
        | refused =>
          simp only [executeXJob, made]
          exact ih (skips event events x holds)
        | broken =>
          simp only [executeXJob, made]
          exact ends _ x holds
      | killJob =>
        dsimp only
        rw [killXjob_absent absent]
        exact ih (removes event events x holds absent)
      | other => exact ih (skips event events x holds)

end Executor

end Hella

import Hella.Control.Course

/-!
# No silent stall

A running workflow waits for a job whose row is in a running state. A job that could not
be dispatched is reported with DISPATCH_FAIL, which is a result, but names no successor.
-/
namespace Hella

open Exec Text ForkJoin

/-- An action of the run whose job can still be reported or time out. -/
def Waits (wf : Workflow) (s : Run) : Prop :=
  ∃ name id event, .dispatched name id event ∈ s.trace ∧ wf.IsAction name ∧
    ∃ row ∈ s.store.xjobStates, row.id = id ∧ row.currentExecutorKey = wf.getWorkflowKey ∧
      row.jobPlanNodeState.isRunningState = true

theorem exists_dispatch {y : String} {trace : List Act} (some_time : 0 < dispatched y trace) :
    ∃ id event, .dispatched y id event ∈ trace := by
  by_contra! none_
  have zero : dispatched y trace = 0 := total_eq_zero _ _ fun act member => by
    cases act with
    | dispatched name id event =>
      refine tick_false ?_
      rintro rfl
      exact none_ id event member
    | _ => rfl
  omega

theorem completed_pos {y : String} {id : Nat} {trace : List Act} (member : .completing y id ∈ trace) :
    0 < completed y trace := by
  obtain ⟨before, after, rfl⟩ := List.append_of_mem member
  simp [completed]

/-- No silent stall: in a properly nested plan whose pairs have keys of their own and
whose chains of nodes fit on the stack, a running workflow waits for a job, whatever was
reported so far, as long as no dispatch failed. -/
theorem waits_of_running {env : Env} {wf : Workflow} {store : Store} {s : Run} (plan : Nested wf)
    (dao : ∀ n, env.daoSucceeds n = true)
    (jobs : ∀ name node, wf.getNode name = some node → node.type = .action → node.xjobMeta.isSome = true)
    (keys : plan.DistinctKeys) (room : Roomy env wf) (sound : store.Sound)
    (course : Course env wf (Others wf) (Reports wf fun _ state => state ≠ .dispatchFail) store s)
    (running : s.status = .running) : Waits wf s := by
  have healthy : Healthy wf (fun _ state => state ≠ .dispatchFail) [] s :=
    (Healthy.calmly env _ plan keys).course (plan.steady dao jobs room) plan.startFound course (.created sound)
  obtain ⟨a, member, fewer⟩ := plan.outstanding keys healthy.owed.lawful (by simp) (healthy.begun running)
    (healthy.balanced running)
  obtain ⟨node, found, type, _⟩ := plan.realizes.step member
  obtain ⟨id, event, told⟩ := exists_dispatch (Nat.zero_lt_of_lt fewer)
  obtain ⟨_, row, inside, own, key, alive⟩ := healthy.rowed.rows a id event told ⟨node, found, type⟩
  refine ⟨a, id, event, told, ⟨node, found, type⟩, row, inside, own, key, (alive running).resolve_left fun done => ?_⟩
  -- the node was entered once, so it was not reported at all
  have once := (plan.taken_le keys healthy.owed.lawful).1 a member
  have sent := healthy.owed.lawful.dispatched_le found type
  have reported := completed_pos done
  omega

/-- The first action of the diamond has been reported, and one of the two in parallel: it waits
for the other one. -/
theorem waits_of_running_diamond : Diamond.waiting.status = .running ∧ Waits Diamond.workflow Diamond.waiting := by
  have running : Diamond.waiting.status = .running := by decide +kernel
  have branched : Course Env.calm Diamond.workflow (Others Diamond.workflow)
      (Reports Diamond.workflow fun _ state => state ≠ .dispatchFail) Diamond.store Diamond.branched := by
    refine .completing (.starting .created) ⟨⟨⟨_, rfl, rfl⟩, by decide +kernel, ?_⟩, ⟨_, rfl, rfl⟩, ?_, _, rfl, rfl⟩
    · rintro _ ⟨⟩ ⟨⟩
    · exact exists_sent (by decide +kernel)
  have course : Course Env.calm Diamond.workflow (Others Diamond.workflow)
      (Reports Diamond.workflow fun _ state => state ≠ .dispatchFail) Diamond.store Diamond.waiting := by
    refine .completing branched ⟨⟨⟨_, rfl, rfl⟩, by decide +kernel, ?_⟩, ⟨_, rfl, rfl⟩, ?_, _, rfl, rfl⟩
    · rintro _ ⟨⟩ ⟨⟩
    · exact exists_sent (by decide +kernel)
  exact ⟨running, waits_of_running Diamond.nested (fun _ => rfl) Diamond.jobs Diamond.nested_distinctKeys Diamond.roomy
    Diamond.sound course running⟩

/-- The dispatch of the first action fails: the workflow runs on with nothing to wait for. -/
theorem dispatchFail_stalls : ∃ s, Course Env.calm Diamond.workflow (Others Diamond.workflow)
    (Reports Diamond.workflow fun _ _ => True) Diamond.store s ∧ s.status = .running ∧ ¬ Waits Diamond.workflow s := by
  let s := after (completeJobPlanNode Env.calm Diamond.workflow "a" (Diamond.report .dispatchFail 2) Diamond.started)
  refine ⟨s, .completing (.starting .created) ⟨⟨⟨_, rfl, rfl⟩, ?_, fun _ _ => trivial⟩, ⟨_, rfl, rfl⟩, ?_, _, rfl, rfl⟩,
    ?_, ?_⟩
  · decide +kernel
  · exact exists_sent (by decide +kernel)
  · decide +kernel
  · rintro ⟨name, id, event, _, _, row, member, _, _, running⟩
    have quiet : ∀ row ∈ s.store.xjobStates, row.jobPlanNodeState.isRunningState = false := by decide +kernel
    simp [quiet row member] at running

end Hella

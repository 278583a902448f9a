import Hella.Lib.Inevitable
import Hella.Properties.Stall

/-!
# A plan that was started ends

Whatever its actions report and in whatever order the reports are handled, a properly nested
plan is over after at most as many reports as it has actions. Until then there is always an
action that can still be reported.
-/
namespace Hella

open Exec Runs Text ForkJoin

/-- The actions of a plan that have not been reported. -/
def Nested.unreported {wf : Workflow} (plan : Nested wf) (trace : List Act) : Nat :=
  (plan.body.steps.filter fun a => decide (completed a trace = 0)).length

/-- The other runs go on, and then a result is reported to the instance. -/
def Turn (env : Env) (wf : Workflow) (s t : Run) : Prop :=
  ∃ store name context, Others wf s.store store ∧
    Reports wf (fun _ state => state ≠ .dispatchFail) { s with store := store } name context ∧
    t = after (completeJobPlanNode env wf name context { s with store := store })

section Progress

variable {env : Env} {wf : Workflow} {results : String → JobPlanNodeState → Prop} {s t : Run} {name : String}
  {context : NodeContext}

theorem Calms.grows {x y : List String × Run} (calms : Calms env wf x y) : x.2.trace <+: y.2.trace := by
  induction calms with
  | refl => exact List.prefix_rfl
  | tail _ calm ih => exact ih.trans calm.grows

/-- A report leaves its mark on the history. -/
theorem Rowed.noted (rowed : Rowed wf s) (steady : Steady env wf) (reports : Reports wf results s name context) :
    s.trace ++ [.completing name context.xjobStateID] <+:
      (after (completeJobPlanNode env wf name context s)).trace := by
  obtain ⟨node, found, type⟩ := reports.action
  obtain ⟨row, state, reported, report, same⟩ := rowed.reported reports
  obtain ⟨_, t, returned, x, u, v, written, ⟨n, later, rfl⟩, answered, rfl⟩ :=
    completeJobPlanNode_calm steady rowed.sound found type reported
  have marked : (s.written name x).trace = s.trace ++ [.completing name context.xjobStateID] := by
    rw [same, ← written.id]
    rfl
  have kept : (v.closed wf).trace = v.trace := by
    unfold Run.closed
    split <;> rfl
  rw [returned, after_ok, kept, ← marked]
  cases answered with
  | retries => exact List.prefix_append _ _
  | late => exact List.prefix_rfl
  | goes _ _ calms => exact (List.prefix_append _ _).trans (Calms.grows calms)

/-- An action is reported once, and then there is one less to be reported. -/
theorem Nested.unreported_lt (plan : Nested wf) (keys : plan.DistinctKeys) {trace more : List Act} {id : Nat}
    (lawful : Lawful wf results trace) (action : wf.IsAction name) (fewer : completed name trace < entered name trace)
    (noted : trace ++ [.completing name id] <+: more) : plan.unreported more < plan.unreported trace := by
  obtain ⟨node, found, type⟩ := action
  have member : name ∈ plan.body.steps := by
    cases plan.role (plan.mem_body found (.inl type)) with
    | action _ _ member => exact member
    | fork other type' | join other type' =>
      cases found.symm.trans other
      cases type.symm.trans type'
  have once := (plan.taken_le keys lawful).1 name member
  have marked : 0 < completed name more := by
    have counted : completed name (trace ++ [.completing name id]) = completed name trace + 1 := by simp
    have kept : completed name (trace ++ [.completing name id]) ≤ completed name more := total_mono _ noted
    omega
  have grows (a : String) : completed a trace ≤ completed a more := total_mono _ ((List.prefix_append _ _).trans noted)
  have narrowed : (plan.body.steps.filter fun a => decide (completed a more = 0)) =
      (plan.body.steps.filter fun a => decide (completed a trace = 0)).filter fun a =>
        decide (completed a more = 0) := by
    rw [List.filter_filter]
    apply List.filter_congr
    intro a _
    have less := grows a
    by_cases none_ : completed a more = 0
    · simp [none_, Nat.le_zero.mp (none_ ▸ less)]
    · simp [none_]
  rw [unreported, unreported, narrowed, List.length_filter_lt_length_iff_exists]
  refine ⟨name, List.mem_filter.mpr ⟨member, by simpa using (by omega : completed name trace = 0)⟩, ?_⟩
  simpa using Nat.ne_of_gt marked

/-- A running plan has an action that was dispatched and can still be reported. -/
theorem Healthy.reportable (plan : Nested wf) (keys : plan.DistinctKeys)
    (healthy : Healthy wf (fun _ state => state ≠ .dispatchFail) [] s) (running : s.status = .running) :
    ∃ name context, Reports wf (fun _ state => state ≠ .dispatchFail) s name context := by
  obtain ⟨a, member, fewer⟩ := plan.outstanding keys healthy.owed.lawful (by simp) (healthy.begun running)
    (healthy.balanced running)
  obtain ⟨node, found, type, _⟩ := plan.realizes.step member
  obtain ⟨id, event, told⟩ := exists_dispatch (Nat.zero_lt_of_lt fewer)
  have sent := healthy.owed.lawful.dispatched_le found type
  let context : NodeContext :=
    { jobProgress := some
        { executorType := "Auto", jobPlanNodeState := JobPlanNodeState.resultSuccess.name, xjobStateID := id } }
  refine ⟨a, context, ⟨⟨node, found, by rw [type]; rfl⟩, by omega, fun state reported => ?_⟩,
    ⟨node, found, type⟩, ⟨event, told⟩,
    .resultSuccess, rfl, rfl⟩
  obtain rfl : _ = state := Option.some.inj reported
  simp

/-- However the reports are ordered, and whether they are successes or errors, a properly nested
plan that was started is over after at most one report for each of its actions that was not
reported yet. -/
theorem ends_within {store : Store} (plan : Nested wf) (dao : ∀ n, env.daoSucceeds n = true)
    (jobs : ∀ name node, wf.getNode name = some node → node.type = .action → node.xjobMeta.isSome = true)
    (keys : plan.DistinctKeys) (enough : plan.names.length ≤ env.stackDepth) (sound : store.Sound)
    (course : Course env wf (Others wf) (Reports wf fun _ state => state ≠ .dispatchFail) store s)
    (started : s.status ≠ .prep) :
    Arrives (Turn env wf) (fun t => t.status.isEndState = true) (plan.unreported s.trace) s := by
  have steady := plan.steady dao jobs (plan.roomy enough)
  have healthy {t : Run} (course : Course env wf (Others wf)
    (Reports wf fun _ state => state ≠ .dispatchFail) store t) :
      Healthy wf (fun _ state => state ≠ .dispatchFail) [] t :=
    (Healthy.calmly env _ plan keys).course steady plan.startFound course (.created sound)
  apply Arrives.of_measure (I := fun t =>
    Course env wf (Others wf) (Reports wf fun _ state => state ≠ .dispatchFail) store t ∧ t.status ≠ .prep)
    (fun t => plan.unreported t.trace)
  · rintro t ⟨course, begun⟩ live
    have running : t.status = .running := by
      cases status : t.status with
      | prep => exact absurd status begun
      | running => rfl
      | suspended => exact absurd status (healthy course).status
      | succeeded | failed => simp [status, WorkflowStatus.isEndState] at live
    obtain ⟨name, context, reports⟩ := (healthy course).reportable plan keys running
    exact ⟨_, t.store, name, context, ⟨id, fun _ member _ => member⟩, reports, rfl⟩
  · rintro t _ ⟨course, begun⟩ _ ⟨other, name, context, others, reports, rfl⟩
    have elsewhere := Course.elsewhere course others
    have next := Course.completing elsewhere reports
    have noted := (healthy elsewhere).rowed.noted steady reports
    refine ⟨⟨next, fun prep => ?_⟩, ?_⟩
    · -- a run that has not begun has no history
      rw [((healthy next).fresh prep).1] at noted
      simpa using List.prefix_nil.mp noted
    · exact plan.unreported_lt keys (healthy elsewhere).owed.lawful reports.action reports.expected.2.1 noted
  · exact ⟨course, started⟩

/-- The diamond has been started: its three actions are still to be reported. -/
theorem ends_within_diamond : Diamond.nested.unreported Diamond.started.trace = 3 ∧
    Arrives (Turn Env.calm Diamond.workflow) (fun t => t.status.isEndState = true) 3 Diamond.started := by
  have three : Diamond.nested.unreported Diamond.started.trace = 3 := by decide +kernel
  have begun : Diamond.started.status ≠ .prep := by decide +kernel
  have course : Course Env.calm Diamond.workflow (Others Diamond.workflow)
      (Reports Diamond.workflow fun _ state => state ≠ .dispatchFail) Diamond.store Diamond.started :=
        .starting .created
  have within := @ends_within Env.calm Diamond.workflow Diamond.started Diamond.store Diamond.nested
    (fun _ => rfl) Diamond.jobs
    Diamond.nested_distinctKeys (by decide) Diamond.sound course begun
  rw [three] at within
  exact ⟨three, within⟩

end Progress

end Hella

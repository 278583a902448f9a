import Hella.Control.Apart
import Hella.Properties.Retry

/-!
# Which runs the timeout sweep covers

The sweep goes through the run keys and ends at the first one that is not registered any
more or has no rows. Every run before that one is treated as if it were alone; the runs
behind it are not looked at.
-/
namespace Hella

open Exec Runs Text

namespace Engine

variable {env : Env} {e t u : Engine} {n : Nat} {i : Instance} {key : String}

/-! ### What a sweep should do -/

/-- The minutes a job of the node may take. -/
def delayTime (env : Env) (node : JobPlanNode) : Int :=
  if node.delayTime > 0 then node.delayTime else env.xjobDefaultTimeout

/-- The row is running, and from now on its job has taken more than `jobKillTimes` its delay. -/
structure Overdue (env : Env) (s : Store) (row : XjobState) (node : JobPlanNode) : Prop where
  running : row.jobPlanNodeState.isRunningState = true
  named : row.jobPlanNodeID ≠ 0
  stored : s.jobPlanNode? row.jobPlanNodeID = some node
  late : ∃ runTime, row.runTime = some runTime ∧ isBlank (some runTime) = false ∧
    ∀ m ≥ s.tick, ∃ minutes, env.elapsedMinutes m runTime = some minutes ∧ minutes > jobKillTimes * delayTime env node

/-- What the instance has done. -/
def traceOf (e : Engine) (n : Nat) : List Act := (e.instances[n]?.map (·.trace)).getD []

/-- Between the two histories the row was completed with `RESULT_ERROR`. -/
def Completed (env : Env) (wf : Workflow) (before after : List Act) (row : XjobState) (node : JobPlanNode) : Prop :=
  ∃ report s t, report.xjobStateID = row.id ∧ report.jobPlanNodeState = JobPlanNodeState.resultError.name ∧
    completeJobPlanNode env wf node.name { jobProgress := some report } s = .ok () t ∧ before <+: s.trace ∧
    t.trace <+: after

/-- Every overdue row of the run has been completed. -/
def Covered (env : Env) (key : String) (e t : Engine) : Prop :=
  ∀ n i, e.getWorkflow? key = some (n, i) → ∀ row ∈ e.store.xjobStatesOf key, ∀ node, Overdue env e.store row node →
    Completed env i.workflow (e.traceOf n) (t.traceOf n) row node

/-- The sweep treats every run as if it were the only one. -/
def Covers (env : Env) (keys : List String) (e : Engine) : Prop :=
  ∀ key ∈ keys, Covered env key e (after (timeOutRuns env keys e))

/-- The run is not registered any more or has no rows. -/
def Gap (e : Engine) (key : String) : Prop := e.getWorkflow? key = none ∨ e.store.xjobStatesOf key = []

instance (e : Engine) (key : String) : Decidable (Gap e key) := inferInstanceAs (Decidable (_ ∨ _))

/-- The run is registered and has an overdue row. -/
def HasOverdue (env : Env) (e : Engine) (key : String) : Prop :=
  ∃ n i, e.getWorkflow? key = some (n, i) ∧ ∃ row ∈ e.store.xjobStatesOf key, ∃ node, Overdue env e.store row node

theorem Completed.mono {wf : Workflow} {earlier before after later : List Act} {row : XjobState} {node : JobPlanNode}
    (completed : Completed env wf before after row node) (first : earlier <+: before) (last : after <+: later) :
    Completed env wf earlier later row node := by
  obtain ⟨report, s, t, ofRow, failed, returned, from_, to_⟩ := completed
  exact ⟨report, s, t, ofRow, failed, returned, first.trans from_, to_.trans last⟩

/-- Completing a row is noted. -/
theorem Completed.grows {wf : Workflow} {before after : List Act} {row : XjobState} {node : JobPlanNode}
    (completed : Completed env wf before after row node) : before ≠ after := by
  obtain ⟨report, s, t, -, -, returned, from_, to_⟩ := completed
  have grows := ((stable_grows env wf (s.trace ++ [Act.completing node.name report.xjobStateID])).completing node.name
    { jobProgress := some report } fun u (same : u = s) => same ▸ List.prefix_rfl).ok rfl returned
  have longer := (grows.trans to_).length_le
  have shorter := from_.length_le
  rintro rfl
  simp at longer
  omega

theorem Overdue.later {s s' : Store} {row : XjobState} {node : JobPlanNode} (overdue : Overdue env s row node)
    (later : s.tick ≤ s'.tick) (nodes : s'.jobPlanNode? = s.jobPlanNode?) : Overdue env s' row node where
  running := overdue.running
  named := overdue.named
  stored := nodes ▸ overdue.stored
  late := by
    obtain ⟨runTime, given, real, elapsed⟩ := overdue.late
    exact ⟨runTime, given, real, fun m after => elapsed m (later.trans after)⟩

/-! ### One row -/

/-- The sweep has dealt with rows of the run. -/
structure Turn (n : Nat) (key : String) (e t : Engine) : Prop where
  store : e.store.Apart key t.store
  numbered : t.store.Numbered
  plans : t.instances.map (·.workflow) = e.instances.map (·.workflow)
  own : e.traceOf n <+: t.traceOf n
  others : ∀ m, m ≠ n → t.traceOf m = e.traceOf m

namespace Turn

theorem of_store {s : Store} (apart : e.store.Apart key s) (numbered : s.Numbered) :
    Turn n key e { e with store := s } :=
  ⟨apart, numbered, rfl, List.prefix_rfl, fun _ _ => rfl⟩

theorem trans (first : Turn n key e t) (second : Turn n key t u) : Turn n key e u where
  store := first.store.trans second.store
  numbered := second.numbered
  plans := second.plans.trans first.plans
  own := first.own.trans second.own
  others m ne := (second.others m ne).trans (first.others m ne)

/-- The two flags are no part of the history. -/
theorem flags (numbered : e.store.Numbered) {f : Instance → Instance}
    (same : ∀ i, (f i).workflow = i.workflow ∧ (f i).trace = i.trace) :
    Turn n key e { e with instances := e.instances.modify n f } := by
  have traces (m : Nat) : traceOf { e with instances := e.instances.modify n f } m = e.traceOf m := by
    simp only [traceOf, List.getElem?_modify]
    cases e.instances[m]? with
    | none => rfl
    | some i =>
      simp only [Option.map_eq_map, Option.map_some]
      split
      · rw [(same i).2]
      · rfl
  refine ⟨.refl _, numbered, ?_, (traces n).symm ▸ List.prefix_rfl, fun m _ => traces m⟩
  apply List.ext_getElem?
  intro m
  rw [List.getElem?_map, List.getElem?_modify, List.getElem?_map]
  cases e.instances[m]? with
  | none => rfl
  | some i =>
    simp only [Option.map_eq_map, Option.map_some]
    split
    · rw [(same i).1]
    · rfl

theorem plan (turn : Turn n key e t) {m : Nat} {j : Instance} (there : e.instances[m]? = some j) :
    ∃ k, t.instances[m]? = some k ∧ k.workflow = j.workflow := by
  have same : t.instances[m]?.map (·.workflow) = e.instances[m]?.map (·.workflow) := by
    rw [← List.getElem?_map, turn.plans, List.getElem?_map]
  rw [there] at same
  exact Option.map_eq_some_iff.mp same

end Turn

section Rows

variable (dao : ∀ m ≥ e.store.tick, env.daoSucceeds m = true) (numbered : e.store.Numbered)
  (there : e.instances[n]? = some i)

/-- The store is as it was but for the count of requests. -/
def ticked (e : Engine) : Engine := { e with store := { e.store with tick := e.store.tick + 1 } }

include dao in
theorem daoCall_now : Store.daoCall env e.store = .ok () e.ticked.store := by
  rw [Store.daoCall_apply, if_pos (dao _ le_rfl)]
  rfl

theorem turn_ticked (numbered : e.store.Numbered) : Turn n key e e.ticked :=
  .of_store (.of_same (Nat.le_succ _) rfl rfl rfl rfl) (numbered.of_same rfl rfl)

/-- The query of a node spends a tick, unless the id is that of no node. -/
theorem onShared_queryJobPlanNodeByID (env : Env) (id : Nat) (e : Engine) :
    onShared (Store.queryJobPlanNodeByID env id) e =
      if id = 0 then .ok none e
      else if env.daoSucceeds e.store.tick = true then .ok (e.store.jobPlanNode? id) e.ticked
      else .error .daoException e.ticked := by
  rw [onShared_apply, Store.queryJobPlanNodeByID]
  by_cases none_ : id = 0
  · rw [if_pos none_, if_pos none_]
    rfl
  · rw [if_neg none_, if_neg none_, bind_apply, Store.daoCall_apply]
    cases env.daoSucceeds e.store.tick <;> rfl

include dao in
theorem queryJobPlanNodeByID_returns (id : Nat) : Returns (onShared (Store.queryJobPlanNodeByID env id)) e
    fun found t => (t = e ∨ t = e.ticked) ∧ found = if id = 0 then none else e.store.jobPlanNode? id := by
  rw [Returns, onShared_queryJobPlanNodeByID, if_pos (dao _ le_rfl)]
  by_cases none_ : id = 0
  · exact ⟨none, e, if_pos none_, .inl rfl, by rw [if_pos none_]⟩
  · exact ⟨e.store.jobPlanNode? id, e.ticked, if_neg none_, .inr rfl, by rw [if_neg none_]⟩

/-- Pausing a plan leaves the rows, the runs and the nodes alone. -/
theorem pauses_turn (wf : Workflow) (plan : JobExecutionPlan) (numbered : e.store.Numbered) :
    Returns (onShared (Store.pauseJobExecutionPlan env plan)) e fun _ t => Turn n wf.getWorkflowKey e t := by
  have rule := footprint_apart env wf numbered
  have keeps : Keeps (fun t => t.Numbered ∧ e.store.Apart wf.getWorkflowKey t)
    (Store.pauseJobExecutionPlan env plan) := by
    refine rule.request.bind fun _ => ?_
    split
    · refine Keeps.catching (Keeps.bind (rule.daoCall.bind fun _ => Keeps.modifying fun t holds => ?_)
        fun _ => Keeps.pure _)
        fun _ _ => Keeps.pure _
      refine ⟨holds.1.of_same rfl rfl, holds.2.trans ⟨le_rfl, le_rfl, fun _ _ => rfl, fun _ _ => rfl, ?_⟩⟩
      apply Store.jobPlanNode?_modify _ rfl
      intro plan
      split <;> rfl
    · exact Keeps.pure _
  obtain ⟨a, s, returned, -⟩ := pauseJobExecutionPlan_noticed env plan e.store
  obtain ⟨numbered', apart⟩ := keeps.ok ⟨numbered, .refl _⟩ returned
  exact ⟨a, _, by rw [onShared_apply, returned], .of_store apart numbered'⟩

theorem sends_turn (key : String) (clusterID : String) (name runTime runInfo : Option String) (type : Nat)
    (numbered : e.store.Numbered) :
    Returns (onShared (Store.trySendSubscribe env clusterID name runTime runInfo type)) e fun _ t =>
      Turn n key e t := by
  have keeps : Keeps (fun t => t.Numbered ∧ e.store.Apart key t)
      (Store.trySendSubscribe env clusterID name runTime runInfo type) := by
    apply Keeps.bind
    · exact fun t holds => ⟨holds.1.of_same rfl rfl, holds.2.trans (.of_same (Nat.le_succ _) rfl rfl rfl rfl)⟩
    · intro tick
      dsimp only
      split
      · split
        · refine Keeps.bind (Keeps.modifying fun t holds => ?_) fun _ => Keeps.pure _
          exact ⟨holds.1.of_same rfl rfl, holds.2.trans (.of_same le_rfl rfl rfl rfl rfl)⟩
        · exact Keeps.pure _
      · exact Keeps.pure _
  obtain ⟨a, s, returned, -⟩ := trySendSubscribe_noticed env clusterID name runTime runInfo type e.store
  obtain ⟨numbered', apart⟩ := keeps.ok ⟨numbered, .refl _⟩ returned
  exact ⟨a, _, by rw [onShared_apply, returned], .of_store apart numbered'⟩

include there in
/-- The instance is told that the job of a row of its own has failed. -/
theorem completes_turn (roomy : Roomy env i.workflow) (numbered : e.store.Numbered) {report : JobProgress}
    (owned : e.store.Owned i.workflow.getWorkflowKey report.xjobStateID) (name : String) :
    Returns (onInstance n fun wf => completeJobPlanNode env wf name { jobProgress := some report }) e fun _ t =>
      Turn n i.workflow.getWorkflowKey e t ∧ ∃ s u,
        completeJobPlanNode env i.workflow name { jobProgress := some report } s =
        .ok () u ∧ e.traceOf n <+: s.trace ∧ u.trace <+: t.traceOf n := by
  let context : NodeContext := { jobProgress := some report }
  have given : ∀ other, context.jobProgress = some other → e.store.Owned i.workflow.getWorkflowKey other.xjobStateID :=
    fun other same => Option.some.inj same ▸ owned
  obtain ⟨u, returned, numbered', apart, grows⟩ :=
    completeJobPlanNode_apart (s := i.run e.store) roomy numbered given name
  have before : e.traceOf n = i.trace := by simp [traceOf, there]
  have now : (e.save n i u).traceOf n = u.trace := by simp [traceOf, save_there there, Instance.save]
  refine ⟨(), e.save n i u, by rw [onInstance_apply there, returned], ⟨apart, numbered', ?_, ?_, ?_⟩, _,
    u, returned, ?_, ?_⟩
  · have plans := plans_onInstance n (fun wf => completeJobPlanNode env wf name { jobProgress := some report }) e
    rw [onInstance_apply there, returned] at plans
    exact plans
  · rw [before, now]
    exact (List.prefix_append _ _).trans grows
  · intro m ne
    simp [traceOf, save, Ne.symm ne]
  · exact before ▸ List.prefix_rfl
  · exact now ▸ List.prefix_rfl

include there in
/-- A row that is overdue by the time it is looked at is completed. -/
theorem timeOutHandle_turn (roomy : Roomy env i.workflow) (timeout : 0 ≤ env.xjobDefaultTimeout)
    (numbered : e.store.Numbered) {report : JobProgress} {row : XjobState} (same : report.xjobStateID = row.id)
    (owned : e.store.Owned i.workflow.getWorkflowKey row.id) (node : JobPlanNode) :
    Returns (timeOutHandle env n node report) e fun _ t => Turn n i.workflow.getWorkflowKey e t ∧
      ∀ runTime minutes, report.runTime = some runTime → isBlank (some runTime) = false →
        env.elapsedMinutes e.store.tick runTime = some minutes → minutes > jobKillTimes * delayTime env node →
        Completed env i.workflow (e.traceOf n) (t.traceOf n) row node := by
  -- an early return changes nothing or the clock only
  have still : Turn n i.workflow.getWorkflowKey e e := .of_store (.refl _) numbered
  unfold timeOutHandle
  cases timed : report.runTime with
  | none => exact Returns.pure ⟨still, fun _ _ given => by cases given⟩
  | some runTime =>
    dsimp only
    split
    next blank =>
      refine Returns.pure ⟨still, ?_⟩
      rintro _ _ ⟨rfl⟩ real
      cases blank.symm.trans real
    · have asked : onShared Store.request e = .ok e.store.tick e.ticked := rfl
      rw [Returns, bind_ok asked]
      cases elapsed : env.elapsedMinutes e.store.tick runTime with
      | none =>
        refine Returns.pure ⟨turn_ticked numbered, ?_⟩
        rintro _ _ ⟨rfl⟩ - again
        cases elapsed.symm.trans again
      | some minutes =>
        dsimp only
        -- the delay is that of the node, or the default if it has none
        rw [← delayTime]
        have positive : 0 ≤ delayTime env node := by
          unfold delayTime
          split <;> omega
        change Returns _ e.ticked _
        -- not yet late: nothing is flagged
        split
        next early =>
          refine Returns.pure ⟨turn_ticked numbered, ?_⟩
          rintro _ _ ⟨rfl⟩ - again late
          cases elapsed.symm.trans again
          simp only [jobKillTimes] at late
          omega
        -- late: the flag is set first, whatever happens to the node
        · let flagged : Engine :=
            { e.ticked with instances := e.ticked.instances.modify n ({ · with timeOut := true }) }
          have ticks : Turn n i.workflow.getWorkflowKey e e.ticked := turn_ticked numbered
          have first : Turn n i.workflow.getWorkflowKey e flagged := by
            apply ticks.trans
            exact Turn.flags (f := ({ · with timeOut := true })) ticks.numbered fun _ => ⟨rfl, rfl⟩
          obtain ⟨j, found, plan⟩ := first.plan there
          refine Returns.bind (Q := fun _ t => t = flagged) ⟨(), flagged, rfl, rfl⟩ ?_
          rintro _ _ rfl
          split
          -- late enough to be killed: the node is completed as failed
          · have still := first.store.owned owned
            rw [← plan, ← same] at still
            refine (completes_turn found (plan ▸ roomy) first.numbered (by exact still) node.name).bind ?_
            rintro _ t ⟨second, s, u, returned, before, after⟩
            rw [plan] at second returned
            have completed : Completed env i.workflow (e.traceOf n) (t.traceOf n) row node := by
              refine ⟨_, s, u, ?_, ?_, returned, first.own.trans before, after⟩
              · exact same
              · rfl
            have turn := first.trans second
            -- a hard delay pauses the plan as well
            split
            · obtain ⟨k, still, -⟩ := turn.plan there
              refine Returns.reading ?_
              simp only [still]
              refine (pauses_turn (n := n) i.workflow _ turn.numbered).bind fun _ v pauses => Returns.pure ?_
              exact ⟨turn.trans pauses, fun _ _ _ _ _ _ => completed.mono List.prefix_rfl pauses.own⟩
            · exact Returns.pure ⟨turn, fun _ _ _ _ _ _ => completed⟩
          next early =>
            refine Returns.pure ⟨first, ?_⟩
            rintro _ _ ⟨rfl⟩ - again late
            cases elapsed.symm.trans again
            have wrapped : toInt (jobKillTimes * delayTime env node) ≤ jobKillTimes * delayTime env node := by
              apply toInt_le
              simp only [jobKillTimes]
              omega
            omega

include dao there in
theorem timeOutRow_turn (roomy : Roomy env i.workflow) (timeout : 0 ≤ env.xjobDefaultTimeout)
    (numbered : e.store.Numbered) {row : XjobState} (owned : e.store.Owned i.workflow.getWorkflowKey row.id) :
    Returns (timeOutRow env n row) e fun _ t => Turn n i.workflow.getWorkflowKey e t ∧
      ∀ node, Overdue env e.store row node → Completed env i.workflow (e.traceOf n) (t.traceOf n) row node := by
  unfold timeOutRow
  split
  · refine (queryJobPlanNodeByID_returns dao row.jobPlanNodeID).bind ?_
    rintro found t ⟨asked, read⟩
    -- the query is one request or none, and it changes nothing else
    have first : Turn n i.workflow.getWorkflowKey e t := by
      rcases asked with rfl | rfl
      · exact .of_store (.refl _) numbered
      · exact turn_ticked numbered
    -- an overdue row has a node, so the query finds it
    have known (node : JobPlanNode) (overdue : Overdue env e.store row node) : found = some node := by
      rw [read, if_neg overdue.named, overdue.stored]
    split
    · exact Returns.pure ⟨first, fun node overdue => by cases known node overdue⟩
    next node =>
      obtain ⟨j, here, plan⟩ := first.plan there
      have still := first.store.owned owned
      rw [← plan] at still
      -- the sweep of the row itself; the alarm comes after it
      refine (timeOutHandle_turn here (plan ▸ roomy) timeout first.numbered (by rfl) still node).bind ?_
      rintro runInfo u ⟨second, late⟩
      rw [plan] at second late
      have turn := first.trans second
      have completed (other : JobPlanNode) (overdue : Overdue env e.store row other) :
          Completed env i.workflow (e.traceOf n) (u.traceOf n) row other := by
        obtain rfl := Option.some.inj (known other overdue)
        obtain ⟨runTime, given, real, elapsed⟩ := overdue.late
        obtain ⟨minutes, elapsed, late_⟩ := elapsed t.store.tick first.store.later
        exact (late runTime minutes given real elapsed late_).mono first.own List.prefix_rfl
      obtain ⟨k, placed, -⟩ := turn.plan there
      refine Returns.reading ?_
      simp only [placed]
      split
      · refine (sends_turn (n := n) i.workflow.getWorkflowKey _ _ _ _ _ turn.numbered).bind fun sent v sends => ?_
        split
        · have flags : Turn n i.workflow.getWorkflowKey v
              { v with instances := v.instances.modify n ({ · with hasAlarm := true }) } :=
            .flags sends.numbered fun _ => ⟨rfl, rfl⟩
          refine ⟨(), _, rfl, (turn.trans sends).trans flags, fun other overdue => ?_⟩
          exact (completed other overdue).mono List.prefix_rfl (sends.own.trans flags.own)
        · exact Returns.pure ⟨turn.trans sends, fun other overdue =>
            (completed other overdue).mono List.prefix_rfl sends.own⟩
      · exact Returns.pure ⟨turn, completed⟩
  next still =>
    exact Returns.pure ⟨.of_store (.refl _) numbered, fun node overdue => absurd overdue.running still⟩

/-- All rows of a run that were read are dealt with, one after the other. -/
theorem rows_turn {wf : Workflow} (rows : List XjobState) (dao : ∀ m ≥ e.store.tick, env.daoSucceeds m = true)
    (there : e.instances[n]? = some i) (plan : i.workflow = wf) (roomy : Roomy env wf)
    (timeout : 0 ≤ env.xjobDefaultTimeout) (numbered : e.store.Numbered)
    (owned : ∀ row ∈ rows, e.store.Owned wf.getWorkflowKey row.id) :
    Returns (rows.forM (timeOutRow env n)) e fun _ t => Turn n wf.getWorkflowKey e t ∧
      ∀ row ∈ rows, ∀ node, Overdue env e.store row node → Completed env wf (e.traceOf n) (t.traceOf n) row node := by
  induction rows generalizing e i with
  | nil => exact Returns.pure ⟨.of_store (.refl _) numbered, by simp⟩
  | cons row rows ih =>
    subst plan
    refine (timeOutRow_turn dao there roomy timeout numbered (owned row (by simp))).bind ?_
    rintro _ t ⟨first, completed⟩
    obtain ⟨j, here, plan⟩ := first.plan there
    have rest := ih (fun m after => dao m (first.store.later.trans after)) here plan first.numbered
      fun other member => first.store.owned (owned other (List.mem_cons_of_mem _ member))
    apply rest.conseq
    rintro _ u ⟨second, others⟩
    refine ⟨first.trans second, fun other member node overdue => ?_⟩
    rcases List.mem_cons.mp member with rfl | later
    · exact (completed node overdue).mono List.prefix_rfl second.own
    · exact (others other later node (overdue.later first.store.later first.store.nodes)).mono first.own List.prefix_rfl

end Rows

/-! ### All runs -/

/-- The keys the sweep comes to. -/
def visited (e : Engine) (keys : List String) : List String := keys.takeWhile (¬ Gap e ·)

theorem Turn.registered (turn : Turn n key e t) {other : String} (ne : other ≠ key) :
    (t.getWorkflow? other).map (fun run => (run.1, run.2.workflow)) =
      (e.getWorkflow? other).map fun run => (run.1, run.2.workflow) := by
  rw [getWorkflow?, getWorkflow?, turn.store.runs other ne]
  cases e.store.workflowsMap.lookup other with
  | none => rfl
  | some m =>
    have same : t.instances[m]?.map (·.workflow) = e.instances[m]?.map (·.workflow) := by
      rw [← List.getElem?_map, turn.plans, List.getElem?_map]
    cases there : e.instances[m]? <;> cases here : t.instances[m]? <;> simp_all

theorem Turn.gap_iff (turn : Turn n key e t) {other : String} (ne : other ≠ key) : Gap t other ↔ Gap e other := by
  have gone : t.getWorkflow? other = none ↔ e.getWorkflow? other = none := by
    rw [← Option.map_eq_none_iff, turn.registered ne, Option.map_eq_none_iff]
  rw [Gap, Gap, gone, turn.store.rows other ne]

theorem Turn.grows (turn : Turn n key e t) (m : Nat) : e.traceOf m <+: t.traceOf m := by
  by_cases own : m = n
  · exact own ▸ turn.own
  · exact turn.others m own ▸ List.prefix_rfl

theorem Turn.visited (turn : Turn n key e t) {keys : List String} (absent : key ∉ keys) :
    t.visited keys = e.visited keys := by
  induction keys with
  | nil => rfl
  | cons other keys ih =>
    rw [List.mem_cons, not_or] at absent
    have same := turn.gap_iff (Ne.symm absent.1)
    simp only [Engine.visited, List.takeWhile_cons, same] at ih ⊢
    rw [ih absent.2]

/-- What the sweep does: every run it comes to is covered, and nothing else is written to. -/
structure Swept (env : Env) (e : Engine) (keys : List String) (t : Engine) : Prop where
  grows : ∀ m, e.traceOf m <+: t.traceOf m
  covered : ∀ key ∈ e.visited keys, Covered env key e t
  untouched : ∀ m, (∀ key ∈ e.visited keys, ∀ i, e.getWorkflow? key ≠ some (m, i)) → t.traceOf m = e.traceOf m

/-- Runs of other keys are covered later as they would be now. -/
theorem Turn.covered (turn : Turn n key e t) {other : String} (ne : other ≠ key) (covered : Covered env other t u) :
    Covered env other e u := by
  intro m j there row member node overdue
  have same := turn.registered ne
  rw [there, Option.map_some, Option.map_eq_some_iff] at same
  obtain ⟨⟨place, k⟩, here, same⟩ := same
  obtain ⟨rfl, plan⟩ := Prod.mk.inj same
  rw [← turn.store.rows other ne] at member
  have completed := covered _ k here row member node (overdue.later turn.store.later turn.store.nodes)
  rw [plan] at completed
  exact completed.mono (turn.grows place) List.prefix_rfl

theorem swept {keys : List String} (distinct : keys.Nodup) (indexed : e.Indexed)
    (dao : ∀ m ≥ e.store.tick, env.daoSucceeds m = true) (roomy : ∀ wf ∈ e.instances.map (·.workflow), Roomy env wf)
    (timeout : 0 ≤ env.xjobDefaultTimeout) : Returns (timeOutRuns env keys) e fun _ => Swept env e keys := by
  -- one key after the other: later keys find the state that earlier ones left
  induction keys generalizing e with
  | nil => exact Returns.pure ⟨fun _ => List.prefix_rfl, by simp [Engine.visited], fun _ _ => rfl⟩
  | cons key keys ih =>
    obtain ⟨fresh, distinct⟩ := List.nodup_cons.mp distinct
    refine Returns.reading ?_
    cases there : e.getWorkflow? key with
    -- no run under the key, or no rows: the loop of the source returns from the whole sweep
    | none =>
      have none_ : e.visited (key :: keys) = [] := by simp [Engine.visited, Gap, there]
      exact Returns.pure ⟨fun _ => List.prefix_rfl, by simp [none_], fun _ _ => rfl⟩
    | some run =>
      obtain ⟨n, i⟩ := run
      have read : onShared (Store.queryXjobStateByCurrentExecutorKey env key) e =
        .ok (e.store.xjobStatesOf key) e.ticked := by
        rw [onShared_apply, Store.queryXjobStateByCurrentExecutorKey, bind_ok (daoCall_now dao)]
        rfl
      rw [Returns]
      dsimp only
      rw [bind_ok read]
      cases rows : e.store.xjobStatesOf key with
      | nil =>
        have none_ : e.visited (key :: keys) = [] := by simp [Engine.visited, Gap, rows]
        exact Returns.pure ⟨fun _ => List.prefix_rfl, by simp [none_], fun _ _ => rfl⟩
      | cons row rest =>
        obtain ⟨place, named⟩ := indexed.getWorkflow? there
        have gapless : ¬ Gap e key := by simp [Gap, there, rows]
        have comes : e.visited (key :: keys) = key :: e.visited keys := by simp [Engine.visited, gapless]
        -- the clock is read once for the rows
        have ticks : Turn n key e e.ticked := turn_ticked indexed.numbered
        have owned : ∀ row ∈ e.store.xjobStatesOf key, e.ticked.store.Owned i.workflow.getWorkflowKey row.id :=
          fun row member => named ▸ indexed.numbered.toSound.owned member
        have known : i.workflow ∈ e.instances.map (·.workflow) := List.mem_map_of_mem (List.mem_of_getElem? place)
        have later : ∀ m ≥ e.ticked.store.tick, env.daoSucceeds m = true :=
          fun m after => dao m ((Nat.le_succ _).trans after)
        rw [rows] at owned
        obtain ⟨_, u, returned, turn, completed⟩ :=
          rows_turn (row :: rest) later place rfl (roomy _ known) timeout ticks.numbered owned
        -- a key leads to the same run before and after the rows are swept
        have still : u.Indexed := by
          have keeps : Keeps Indexed ((row :: rest).forM (timeOutRow env n)) :=
            Keeps.forM fun x _ => lasting_indexed.enduring.timeOutRow n x
          exact keeps.ok (indexed.of_store ticks.numbered fun _ => .inl rfl) returned
        dsimp only
        rw [bind_ok returned]
        rw [named] at turn
        have turn := ticks.trans turn
        apply (ih distinct still _ _).conseq
        · rintro _ t swept
          -- the rows of other keys were not touched, so the same keys are visited as before
          have same := turn.visited fresh
          refine ⟨fun m => (turn.grows m).trans (swept.grows m), fun other visits => ?_, fun m elsewhere => ?_⟩
          · rw [comes] at visits
            rcases List.mem_cons.mp visits with rfl | visits
            · intro m j again x member node overdue
              cases there.symm.trans again
              rw [rows] at member
              have done := completed x member node (overdue.later ticks.store.later ticks.store.nodes)
              exact done.mono List.prefix_rfl (swept.grows _)
            · have ne : other ≠ key := fun equal => fresh (equal ▸ (List.takeWhile_prefix _).subset visits)
              exact turn.covered ne (swept.covered other (same ▸ visits))
          · rw [comes] at elsewhere
            -- the run of a key that is not visited is left alone by both
            have other : m ≠ n := fun equal => elsewhere key (by simp) i (equal ▸ there)
            rw [← turn.others m other]
            apply swept.untouched
            intro k visits j here
            rw [same] at visits
            have ne : k ≠ key := fun equal => fresh (equal ▸ (List.takeWhile_prefix _).subset visits)
            have registered := turn.registered ne
            rw [here, Option.map_some] at registered
            obtain ⟨⟨_, k'⟩, found, equal⟩ := Option.map_eq_some_iff.mp registered.symm
            obtain ⟨rfl, -⟩ := Prod.mk.inj equal
            exact elsewhere k (List.mem_cons_of_mem _ visits) k' found
        · exact fun m after => dao m (turn.store.later.trans after)
        · exact turn.plans ▸ roomy

/-- The sweep comes to a key if there is no gap up to it. -/
theorem mem_visited {keys : List String} : key ∈ e.visited keys ↔
    ∃ before after, keys = before ++ key :: after ∧ (∀ earlier ∈ before, ¬ Gap e earlier) ∧ ¬ Gap e key := by
  constructor
  · intro visits
    have gapless : ¬ Gap e key := by simpa using List.mem_takeWhile_imp visits
    obtain ⟨before, between, split⟩ := List.append_of_mem visits
    refine ⟨before, between ++ keys.dropWhile (¬ Gap e ·), ?_, fun earlier member => ?_, gapless⟩
    · rw [← List.cons_append, ← List.append_assoc, ← split]
      exact (List.takeWhile_append_dropWhile).symm
    · have inside : earlier ∈ e.visited keys := split ▸ List.mem_append_left _ member
      simpa using List.mem_takeWhile_imp inside
  · rintro ⟨before, after, rfl, gapless, own⟩
    have comes : e.visited (before ++ key :: after) = before ++ e.visited (key :: after) :=
      List.takeWhile_append_of_pos fun earlier member => by simpa using gapless earlier member
    rw [comes]
    simp [visited, own]

/-- The sweep does not come to a key behind a gap. -/
theorem not_visited {keys before after : List String} (distinct : keys.Nodup) (split : keys = before ++ key :: after)
    {earlier : String} (inside : earlier ∈ before) (gap : Gap e earlier) : key ∉ e.visited keys := by
  intro visits
  obtain ⟨front, back, same, gapless, -⟩ := mem_visited.mp visits
  have fresh : key ∉ before := by
    rw [split] at distinct
    exact fun member => (List.nodup_append.mp distinct).2.2 key member key (by simp) rfl
  rw [split] at same
  rcases List.append_eq_append_iff.mp same with ⟨between, rfl, _⟩ | ⟨between, rfl, rest⟩
  · exact gapless earlier (List.mem_append_left _ inside) gap
  · cases between with
    | nil => exact gapless earlier (by simpa using inside) gap
    | cons other between =>
      -- the key would stand twice in the list
      obtain ⟨rfl, -⟩ := List.cons.inj rest
      exact fresh (by simp)

/-- With all DAO calls succeeding and room on the stack, the sweep treats every run as if it
were the only one exactly if no run with an overdue row comes after a gap. -/
theorem covers_iff {keys : List String} (reachable : Reachable (system env Booted) (fun _ _ => True) e)
    (distinct : keys.Nodup) (dao : ∀ m ≥ e.store.tick, env.daoSucceeds m = true)
    (roomy : ∀ wf ∈ e.instances.map (·.workflow), Roomy env wf) (timeout : 0 ≤ env.xjobDefaultTimeout) :
    Covers env keys e ↔ ∀ before key after, keys = before ++ key :: after → HasOverdue env e key →
      ∀ earlier ∈ before, ¬ Gap e earlier := by
  have indexed := indexed_of_reachable reachable
  obtain ⟨_, t, returned, swept⟩ := swept distinct indexed dao roomy timeout
  have result : after (timeOutRuns env keys e) = t := by rw [returned, after_ok]
  rw [Covers, result]
  constructor
  · rintro covers before key after split ⟨n, i, there, row, member, node, overdue⟩ earlier inside gap
    have completed := covers key (by simp [split]) n i there row member node overdue
    -- no key the sweep comes to leads to this instance
    apply completed.grows
    apply (swept.untouched n _).symm
    intro other visits j same
    obtain ⟨place, named⟩ := indexed.getWorkflow? there
    obtain ⟨place', named'⟩ := indexed.getWorkflow? same
    cases place.symm.trans place'
    obtain rfl : other = key := named'.symm.trans named
    exact not_visited distinct split inside gap visits
  · intro gapless key inside n i there row member node overdue
    obtain ⟨before, after, split⟩ := List.append_of_mem inside
    have own : ¬ Gap e key := by
      rintro (gone | empty)
      · cases gone.symm.trans there
      · simp [empty] at member
    have visits := mem_visited.mpr ⟨before, after, split,
      gapless before key after split ⟨n, i, there, row, member, node, overdue⟩, own⟩
    exact swept.covered key visits n i there row member node overdue

end Engine

/-! ### A run without its start row -/

namespace Sweeping

open Engine

/-- The sixth request, which should save the first start row, fails; jobs take long. -/
def env : Env := { Env.calm with daoSucceeds := fun n => n ≠ 5, elapsedMinutes := fun _ _ => some 1000 }

def stored : Engine := { store := { jobPlans := [OneRetry.plan] } }

/-- The plan has been started twice. -/
def started : Engine := after (startJobPlan env 1 none (after (startJobPlan env 1 none stored)))

theorem started_reachable : Reachable (system env Booted) (fun _ _ => True) started := by
  have booted : Booted stored := ⟨⟨⟨List.nodup_nil, by simp [stored]⟩, by simp [stored]⟩, rfl, rfl⟩
  have once : Reachable (system env Booted) (fun _ _ => True) (after (startJobPlan env 1 none stored)) :=
    (Reachable.start booted).next trivial .starts
  exact once.next trivial .starts

/-- The job of the second run. -/
def row : XjobState :=
  { id := 2, jobPlanNodeID := 2, currentExecutorKey := "10091", jobPlanNodeState := .notifySuccess
    runTime := some "20140129120000" }

theorem row_overdue : HasOverdue env started "10091" := by
  obtain ⟨n, i, there⟩ : ∃ n i, started.getWorkflow? "10091" = some (n, i) := by
    have there : (started.getWorkflow? "10091").isSome = true := by decide +kernel
    obtain ⟨⟨n, i⟩, found⟩ := Option.isSome_iff_exists.mp there
    exact ⟨n, i, found⟩
  have late (m : Nat) : env.elapsedMinutes m "20140129120000" = some 1000 := rfl
  refine ⟨n, i, there, row, by decide +kernel, { OneRetry.load with xjobMeta := none }, rfl, by decide, by
    decide +kernel, ?_⟩
  exact ⟨_, rfl, by decide +kernel, fun m _ => ⟨1000, late m, by decide⟩⟩

theorem roomy {wf : Workflow} (same : wf.jobExecutionPlan = OneRetry.plan) : Roomy env wf := by
  intro name node found passing
  have member := Workflow.getNode_mem found
  have only : ∀ node ∈ OneRetry.plan.jobPlanNodeList, node.type.isFinalType = false →
      node = OneRetry.plan.jobPlanNodeList[0] := by decide
  have start : node = OneRetry.plan.jobPlanNodeList[0] := only node (same ▸ member) passing
  intro other again next leads after reached onward
  obtain rfl := Option.some.inj (found.symm.trans again)
  obtain rfl : "load" = next := by simpa [start, OneRetry.plan] using leads.2 (by simp [start, OneRetry.plan])
  have load : wf.getNode "load" = some OneRetry.load := by
    rw [Workflow.getNode, LiteWorkflowManager.getNode, ← Workflow.jobExecutionPlan, same]
    rfl
  obtain rfl : OneRetry.load = after := Option.some.inj (load.symm.trans reached)
  cases onward

theorem plans {wf : Workflow} (member : wf ∈ started.instances.map (·.workflow)) :
    wf.jobExecutionPlan = OneRetry.plan := by
  have both : started.instances.map (·.workflow.jobExecutionPlan) = [OneRetry.plan, OneRetry.plan] := by decide +kernel
  obtain ⟨i, inside, rfl⟩ := List.mem_map.mp member
  have among := List.mem_map_of_mem (f := (·.workflow.jobExecutionPlan)) inside
  rw [both] at among
  simpa using among

end Sweeping

/-- The run with rows is covered if it comes before the one without. -/
theorem covers_sweeping : Engine.HasOverdue Sweeping.env Sweeping.started "10091" ∧
    Engine.Covers Sweeping.env ["10091", "10031"] Sweeping.started := by
  refine ⟨Sweeping.row_overdue, (Engine.covers_iff Sweeping.started_reachable (by decide) ?_ ?_ (by decide)).mpr ?_⟩
  · intro m after
    have tick : Sweeping.started.store.tick = 22 := by decide +kernel
    rw [tick] at after
    have past : m ≠ 5 := by omega
    simpa [Sweeping.env] using past
  · exact fun wf member => Sweeping.roomy (Sweeping.plans member)
  · have first : ¬ Engine.Gap Sweeping.started "10091" := by decide +kernel
    rintro before key after split - earlier inside
    -- only the first key stands before another
    rcases before with _ | ⟨x, _ | ⟨y, before⟩⟩
    · cases inside
    · obtain ⟨rfl, -⟩ := List.cons.inj split
      rwa [List.mem_singleton.mp inside]
    · simp at split

/-- Behind the run whose start row could not be saved nothing is timed out. -/
theorem not_covers_sweeping : Reachable (Engine.system Sweeping.env Engine.Booted) (fun _ _ => True) Sweeping.started ∧
    Engine.HasOverdue Sweeping.env Sweeping.started "10091" ∧
    (Sweeping.started.store.workflowsMap.keys.Perm ["10031", "10091"]) ∧
    ¬ Engine.Covers Sweeping.env ["10031", "10091"] Sweeping.started := by
  refine ⟨Sweeping.started_reachable, Sweeping.row_overdue, by decide +kernel, fun covers => ?_⟩
  obtain ⟨n, i, there, row, member, node, overdue⟩ := Sweeping.row_overdue
  have completed := covers "10091" (by simp) n i there row member node overdue
  have second : (Sweeping.started.getWorkflow? "10091").map (·.1) = some 1 := by decide +kernel
  rw [there, Option.map_some, Option.some.injEq] at second
  subst second
  apply completed.grows
  decide +kernel

end Hella

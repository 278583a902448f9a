import Hella.Engine.Managers

/-!
# The branches of `handlejobProgress`

One equation for each way a report can be handled. Proofs about reports use these
and do not unfold the function.
-/
namespace Hella

open Exec

/-- The report names an executor type and a node state. -/
structure JobProgress.Reads (report : JobProgress) (type : XjobExecutorType) (state : JobPlanNodeState) : Prop where
  type : XjobExecutorType.valueOf report.executorType = some type
  state : JobPlanNodeState.valueOf report.jobPlanNodeState = some state

/-- A report is handled outside the workflows when it only notes that the job was
dispatched or when its job was started by hand. -/
def Aside (type : XjobExecutorType) (state : JobPlanNodeState) : Prop := state = .dispatchSuccess ∨ type = .once

instance (type : XjobExecutorType) (state : JobPlanNodeState) : Decidable (Aside type state) :=
  inferInstanceAs (Decidable (_ ∨ _))

namespace Engine

variable {env : Env} {cluster : String} {report : JobProgress} {type : XjobExecutorType}
  {state : JobPlanNodeState} {e : Engine} {info : JobNodeRuningInfo} {n : Nat} {i : Instance}

theorem onShared_apply {α : Type} (body : StoreM α) (e : Engine) :
    onShared body e = match body e.store with
      | .ok a store => .ok a { e with store := store }
      | .error t store => .error t { e with store := store } := by
  unfold onShared zoom
  cases body e.store <;> rfl

theorem onShared_modify (f : Store → Store) (e : Engine) :
    onShared (modify f) e = .ok () { e with store := f e.store } := rfl

/-- The job events queued for a cluster. -/
def queued (e : Engine) (cluster : String) : List JobEvent := (e.store.jobEventsMap.lookup cluster).getD []

theorem updJobState_apply (env : Env) (x : XjobState) (s : Store) :
    Store.updJobState env x s = if env.daoSucceeds s.tick then
      .ok () (Store.updateXjobState { s with tick := s.tick + 1 } x)
      else .error .daoException { s with tick := s.tick + 1 } := by
  rw [Store.updJobState, bind_apply, Store.daoCall_apply]
  by_cases succeeds : env.daoSucceeds s.tick <;> simp only [succeeds] <;> rfl

theorem killJobHandle_registered (registered : cluster ∈ e.store.executorRegisterDateMap) (eventID : String) :
    onShared (killJobHandle cluster eventID) e = .ok () { e with store := { e.store with
      jobEventsMap := e.store.jobEventsMap.insert cluster (e.queued cluster ++ [killJobEvent cluster eventID]) } } := by
  rw [killJobHandle, Store.doDispatch, onShared_modify]
  simp only [killJobEvent, registered, if_true, queued]

theorem killJobHandle_unregistered (dropped : cluster ∉ e.store.executorRegisterDateMap) (eventID : String) :
    onShared (killJobHandle cluster eventID) e = .ok () e := by
  rw [killJobHandle, Store.doDispatch, onShared_modify]
  simp only [killJobEvent, dropped, if_false]

/-- The row `handlejobProgressOnce` writes. -/
def onceRow (jobProgress : JobProgress) (xjobStateID : Nat) (state : JobPlanNodeState) : XjobState :=
  { id := xjobStateID
    jobPlanNodeID := 0
    currentExecutorKey := ""
    jobPlanNodeState := state
    runInfo := jobProgress.runInfo
    runTime := jobProgress.runTime
    finishedPercent := jobProgress.progress }

/-! ### After the instance has been told -/

/-- Only the states of plans and the notices to subscribers have changed. -/
structure Noticed (s t : Store) : Prop where
  rest : t = { s with tick := t.tick, jobPlans := t.jobPlans, notices := t.notices }
  later : s.tick ≤ t.tick

namespace Noticed

variable {s t u : Store}

theorem refl (s : Store) : Noticed s s := ⟨rfl, le_rfl⟩

theorem trans (first : Noticed s t) (second : Noticed t u) : Noticed s u := by
  refine ⟨?_, first.later.trans second.later⟩
  have same := second.rest
  rw [first.rest] at same
  exact same

end Noticed

theorem updateJobPlanState_apply (env : Env) (id : Nat) (state : PlanState) (s : Store) :
    Store.updateJobPlanState env id state s = if env.daoSucceeds s.tick then
      .ok () { s with
        tick := s.tick + 1
        jobPlans := s.jobPlans.map fun plan => if id = 0 ∨ plan.id = id then { plan with state := state } else plan }
      else .error .daoException { s with tick := s.tick + 1 } := by
  rw [Store.updateJobPlanState, bind_apply, Store.daoCall_apply]
  by_cases succeeds : env.daoSucceeds s.tick <;> simp only [succeeds] <;> rfl

theorem pauseJobExecutionPlan_noticed (env : Env) (plan : JobExecutionPlan) (s : Store) :
    Returns (Store.pauseJobExecutionPlan env plan) s fun _ => Noticed s := by
  rw [Store.pauseJobExecutionPlan]
  refine Returns.bind (Q := fun a t => a = s.tick ∧ t = { s with tick := s.tick + 1 }) ⟨_, _, rfl, rfl, rfl⟩ ?_
  rintro _ _ ⟨rfl, rfl⟩
  split
  · have written := updateJobPlanState_apply env plan.id .disable { s with tick := s.tick + 1 }
    have later : s.tick ≤ s.tick + 1 + 1 := by omega
    split at written
    · exact Returns.catching (Returns.bind ⟨_, _, written, ⟨rfl, later⟩⟩ fun _ _ noticed => Returns.pure noticed)
    · exact Returns.caught (bind_error written) rfl (Returns.pure ⟨rfl, later⟩)
  · exact Returns.pure ⟨rfl, Nat.le_succ _⟩

theorem trySendSubscribe_noticed (env : Env) (clusterID : String) (name : Option String)
    (runTime runInfo : Option String) (type : Nat) (s : Store) :
    Returns (Store.trySendSubscribe env clusterID name runTime runInfo type) s fun _ => Noticed s := by
  rw [Store.trySendSubscribe]
  refine Returns.bind (Q := fun a t => a = s.tick ∧ t = { s with tick := s.tick + 1 }) ⟨_, _, rfl, rfl, rfl⟩ ?_
  rintro _ _ ⟨rfl, rfl⟩
  dsimp only
  split
  · split
    · exact ⟨_, _, rfl, ⟨rfl, Nat.le_succ _⟩⟩
    · exact ⟨_, _, rfl, ⟨rfl, Nat.le_succ _⟩⟩
  · exact ⟨_, _, rfl, ⟨rfl, Nat.le_succ _⟩⟩

theorem handleFailJobProgress_noticed (env : Env) (plan : JobExecutionPlan) (s : Store) :
    Returns (handleFailJobProgress env plan) s fun _ => Noticed s := by
  rw [handleFailJobProgress]
  split
  · exact (pauseJobExecutionPlan_noticed env plan s).bind fun _ _ noticed => Returns.pure noticed
  · exact Returns.pure (.refl s)

theorem alarmFailure_noticed (env : Env) (cluster name : String) (report : JobProgress) (state : JobPlanNodeState)
    (plan : JobExecutionPlan) (s : Store) :
    Returns (alarmFailure env cluster name report state plan) s fun _ => Noticed s := by
  rw [alarmFailure]
  split
  · refine (handleFailJobProgress_noticed env plan s).bind fun _ _ paused => ?_
    refine (trySendSubscribe_noticed env _ _ _ _ _ _).bind fun _ _ sent => Returns.pure (paused.trans sent)
  · exact Returns.pure (.refl s)

theorem alarmLateSuccess_noticed (env : Env) (cluster name : String) (report : JobProgress) (i : Instance) (s : Store) :
    Returns (alarmLateSuccess env cluster name report i) s fun _ => Noticed s := by
  rw [alarmLateSuccess]
  split
  · exact (trySendSubscribe_noticed env _ _ _ _ _ _).bind fun _ _ sent => Returns.pure sent
  · exact Returns.pure (.refl s)

theorem onShared_returns {α : Type} {body : StoreM α} {Q : α → Store → Prop} (returns : Returns body e.store Q) :
    Returns (onShared body) e fun a t => ∃ store, Q a store ∧ t = { e with store := store } := by
  obtain ⟨a, store, returned, holds⟩ := returns
  exact ⟨a, _, by rw [onShared_apply, returned], store, holds, rfl⟩

section Completing

variable {s : Run} (there : e.instances[n]? = some i)

include there

theorem onInstance_apply {α : Type} (body : Workflow → RunM α) :
    onInstance n body e = match body i.workflow (i.run e.store) with
      | .ok a s => .ok a (e.save n i s)
      | .error t s => .error t (e.save n i s) := by
  cases same : body i.workflow (i.run e.store) <;> simp [onInstance, there, same]

theorem save_there (s : Run) : (e.save n i s).instances[n]? = some (i.save s) := by
  obtain ⟨bound, -⟩ := List.getElem?_eq_some_iff.mp there
  simp [save, bound]

theorem completeJobProgress_error {name : String} {thrown : Throwable}
    (error : completeJobPlanNode env i.workflow name { jobProgress := some report } (i.run e.store) = .error thrown s) :
    completeJobProgress env cluster name n report state e = .error thrown (e.save n i s) := by
  refine bind_error ?_
  rw [onInstance_apply there, error]

/-- Once the instance has been told, only plan states and notices are left to change. -/
theorem completeJobProgress_returns {name : String}
    (returned : completeJobPlanNode env i.workflow name { jobProgress := some report } (i.run e.store) = .ok () s) :
    Returns (completeJobProgress env cluster name n report state) e fun _ t =>
      ∃ store, Noticed s.store store ∧ t = { e.save n i s with store := store } := by
  have told : onInstance n (fun wf => completeJobPlanNode env wf name { jobProgress := some report }) e =
      .ok () (e.save n i s) := by rw [onInstance_apply there, returned]
  have still := save_there there s
  refine Returns.bind ⟨_, _, told, rfl⟩ fun _ t (same : t = e.save n i s) => ?_
  subst same
  refine Returns.bind (Q := fun a t => a = e.save n i s ∧ t = e.save n i s) (Returns.getting ⟨rfl, rfl⟩) ?_
  rintro _ _ ⟨rfl, rfl⟩
  rw [still]
  dsimp only
  refine (onShared_returns (alarmFailure_noticed env cluster name report state _ _)).bind fun _ _ post => ?_
  obtain ⟨failed, noticed, rfl⟩ := post
  refine (onShared_returns (alarmLateSuccess_noticed env cluster name report _ _)).conseq fun _ _ post => ?_
  obtain ⟨late, later, rfl⟩ := post
  exact ⟨late, noticed.trans later, rfl⟩

end Completing

/-! ### One equation for each branch -/

theorem handlejobProgress_malformed (invalid : ∀ type state, ¬ report.Reads type state) :
    handlejobProgress env cluster report e = .error .illegalArgumentException e := by
  unfold handlejobProgress
  cases type : XjobExecutorType.valueOf report.executorType with
  | none => rfl
  | some t =>
    cases state : JobPlanNodeState.valueOf report.jobPlanNodeState with
    | none => rfl
    | some s => exact absurd ⟨type, state⟩ (invalid t s)

theorem handlejobProgress_missing (reads : report.Reads type state)
    (missing : e.runingInfo? report.eventID = none) :
    handlejobProgress env cluster report e = .error .nullPointerException e := by
  unfold handlejobProgress
  simp only [reads.type, reads.state, bind_apply, get_apply, missing, throw_apply]

/-- The store without the entry, one DAO call later. -/
def forgotten (e : Engine) (eventID : String) : Store :=
  { e.store with
    tick := e.store.tick + 1
    jobNodeRuningInfosMap := e.store.jobNodeRuningInfosMap.erase eventID }

theorem handlejobProgress_aside (reads : report.Reads type state) (found : e.runingInfo? report.eventID = some info)
    (aside : Aside type state) :
    handlejobProgress env cluster report e = if env.daoSucceeds e.store.tick then
      .ok () { e with store := (e.forgotten report.eventID).updateXjobState (onceRow report info.xjobStateID state) }
      else .error .daoException { e with store := e.forgotten report.eventID } := by
  unfold handlejobProgress
  simp only [reads.type, reads.state, bind_apply, get_apply, found, if_pos (show _ ∨ _ from aside), onShared_apply,
    Store.removeJobNodeRuningInfo, modify_apply, handlejobProgressOnce, updJobState_apply]
  by_cases succeeds : env.daoSucceeds e.store.tick <;> simp only [succeeds] <;> rfl

theorem handlejobProgress_gone (reads : report.Reads type state) (found : e.runingInfo? report.eventID = some info)
    (flow : ¬ Aside type state) (gone : e.getWorkflow? info.workflowRunKey = none) :
    handlejobProgress env cluster report e = onShared (killJobHandle cluster report.eventID) e := by
  unfold handlejobProgress
  simp only [reads.type, reads.state, bind_apply, get_apply, found, gone, if_neg (show ¬ (_ ∨ _) from flow)]

theorem handlejobProgress_early (reads : report.Reads type state) (found : e.runingInfo? report.eventID = some info)
    (flow : ¬ Aside type state) (there : e.getWorkflow? info.workflowRunKey = some (n, i))
    (early : state.isResultState = false) :
    handlejobProgress env cluster report e = .ok () e := by
  unfold handlejobProgress
  simp only [reads.type, reads.state, bind_apply, get_apply, found, there, if_neg (show ¬ (_ ∨ _) from flow), early,
    Bool.not_false, if_true, pure_apply]

theorem handlejobProgress_result (reads : report.Reads type state) (found : e.runingInfo? report.eventID = some info)
    (flow : ¬ Aside type state) (there : e.getWorkflow? info.workflowRunKey = some (n, i))
    (result : state.isResultState = true) :
    handlejobProgress env cluster report e = (completeJobProgress env cluster info.jobNodeName n
      { report with xjobStateID := info.xjobStateID } state >>= fun _ =>
        onShared (Store.removeJobNodeRuningInfo report.eventID)) e := by
  unfold handlejobProgress
  simp only [reads.type, reads.state, bind_apply, get_apply, found, there, if_neg (show ¬ (_ ∨ _) from flow), result,
    Bool.not_true, Bool.false_eq_true, if_false]

end Engine

end Hella

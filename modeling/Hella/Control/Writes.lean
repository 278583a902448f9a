import Hella.Control.Handlers
import Mathlib.Logic.Relation

/-!
# What the workflow code writes to the shared store

`Write` lists the writes one by one. Every handler, and with them `start` and
`completeJobPlanNode`, leaves the store after some of them, however it ends.
-/
namespace Hella

open Exec Relation

namespace Store

/-- A job is registered under its event and handed to the dispatcher. -/
def dispatch (s : Store) (event : JobEvent) (info : JobNodeRuningInfo) : Store :=
  { s with
    jobNodeRuningInfosMap := s.jobNodeRuningInfosMap.insert event.eventID info
    jobEventsMap :=
      if event.executorClusterID ∈ s.executorRegisterDateMap then
        s.jobEventsMap.insert event.executorClusterID
          ((s.jobEventsMap.lookup event.executorClusterID).getD [] ++ [event])
      else s.jobEventsMap }

/-- The event ID drawn with the request of that number. -/
def eventIDAt (env : Env) (n : Nat) : String := env.idPrefix ++ toString (env.generateID n)

/-- The event `executeXJob` builds for a node with a job. -/
def executeEvent (eventID : String) (node : JobPlanNode) (xjobMeta : XjobMeta) (type : XjobExecutorType)
    (args : Option String) : JobEvent :=
  { eventID := eventID
    eventType := .executeJob
    executorClusterID := node.executorClusterID
    xjobExecutorType := type.name
    mode := xjobMeta.mode
    executeUser := xjobMeta.executeUser
    executionContent := xjobMeta.executionContent
    jobClassName := xjobMeta.jobClassName
    argsValue := if Text.isBlank args then xjobMeta.args else args
    jobPlanNodeName := node.name }

theorem executeXJob_none (env : Env) {node : JobPlanNode} (without : node.xjobMeta = none) (key : String) (id : Nat)
    (type : XjobExecutorType) (args : Option String) (s : Store) :
    executeXJob env key node id type args s = .error .nullPointerException { s with tick := s.tick + 1 } := by
  simp only [executeXJob, bind_apply, generateIDByPrifix, generateID, request, modifyGet_apply,
    pure_apply, without, throw_apply]

theorem executeXJob_some (env : Env) {node : JobPlanNode} {xjobMeta : XjobMeta} (given : node.xjobMeta = some xjobMeta)
    (key : String) (id : Nat) (type : XjobExecutorType) (args : Option String) (s : Store) :
    executeXJob env key node id type args s =
      .ok (executeEvent (eventIDAt env s.tick) node xjobMeta type args)
        { s.dispatch (executeEvent (eventIDAt env s.tick) node xjobMeta type args) ⟨node.name, id, key⟩ with
          tick := s.tick + 1 } := by
  simp only [executeXJob, bind_apply, generateIDByPrifix, generateID, request, modifyGet_apply,
    pure_apply, given, addJobNodeRuningInfo, doDispatch, modify_apply, dispatch, executeEvent,
    eventIDAt]
  by_cases registered : node.executorClusterID ∈ s.executorRegisterDateMap
  · simp only [registered, if_true]
  · simp only [registered, if_false]

/-- One write of the workflow code. -/
inductive Write (env : Env) : Store → Store → Prop
  | asks (s : Store) : Write env s { s with tick := s.tick + 1 }
  | inserts (s : Store) (x : XjobState) : Write env s (s.insertXjobState x)
  | updates (s : Store) (x : XjobState) : Write env s (s.updateXjobState x)
  | marks (s : Store) (id : Nat) (f : JobExecutionPlan → JobExecutionPlan) : Write env s (s.modifyJobPlan id f)
  | dispatches (s : Store) (event : JobEvent) (info : JobNodeRuningInfo) (fresh : event.eventID = eventIDAt env s.tick)
      (type : event.eventType = .executeJob) :
      Write env s { s.dispatch event info with tick := s.tick + 1 }
  | ends (s : Store) (key : String) : Write env s { s with workflowsMap := s.workflowsMap.erase key }
  | produces (s : Store) (event : String) : Write env s { s with producedEvents := s.producedEvents ++ [event] }

def Writes (env : Env) : Store → Store → Prop := ReflTransGen (Write env)

/-- What every write keeps, any sequence of writes keeps. -/
theorem Writes.keeps {env : Env} {s t : Store} {J : Store → Prop} (writes : Writes env s t)
    (keep : ∀ s t, Write env s t → J s → J t) (holds : J s) : J t := by
  induction writes with
  | refl => exact holds
  | tail _ write ih => exact keep _ _ write ih

/-- A relation that is reflexive, transitive and covers each write covers any
sequence of writes. -/
theorem Writes.related {env : Env} {s t : Store} {R : Store → Store → Prop} (writes : Writes env s t)
    (refl : ∀ s, R s s) (trans : ∀ {a b c}, R a b → R b c → R a c) (covers : ∀ s t, Write env s t → R s t) : R s t := by
  induction writes with
  | refl => exact refl _
  | tail _ write ih => exact trans ih (covers _ _ write)

/-- The store is only written as `Write` says, and nothing but exceptions is thrown. -/
def Spends {α : Type} (env : Env) (s₀ : Store) (body : StoreM α) : Prop :=
  Guarded (Writes env s₀) (·.isException = true) body

section Operations

variable {env : Env} {s₀ : Store}

theorem writes_request : Spends env s₀ request := fun _ holds => holds.tail (.asks _)

theorem writes_daoCall : Spends env s₀ (daoCall env) := by
  refine writes_request.bind fun n => ?_
  split
  · exact Guarded.pure _
  · exact Guarded.throw rfl

theorem writes_newDate : Spends env s₀ (newDate env) := writes_request.bind fun _ => Guarded.pure _

theorem writes_addJobState (x : XjobState) : Spends env s₀ (addJobState env x) :=
  writes_daoCall.bind fun _ _ holds => holds.tail (.inserts _ x)

theorem writes_updJobState (x : XjobState) : Spends env s₀ (updJobState env x) :=
  writes_daoCall.bind fun _ => Guarded.modifying fun _ holds => holds.tail (.updates _ x)

theorem writes_queryXjobState (id : Nat) : Spends env s₀ (queryXjobState env id) :=
  writes_daoCall.bind fun _ => Guarded.getting.bind fun _ => Guarded.pure _

theorem writes_queryXjobStateByCurrentExecutorKey (key : String) :
    Spends env s₀ (queryXjobStateByCurrentExecutorKey env key) :=
  writes_daoCall.bind fun _ => Guarded.getting.bind fun _ => Guarded.pure _

theorem writes_queryJobPlan (id : Nat) : Spends env s₀ (queryJobPlan env id) := by
  unfold queryJobPlan
  split
  · exact Guarded.pure _
  · exact writes_daoCall.bind fun _ => Guarded.getting.bind fun _ => Guarded.pure _

theorem writes_generateID : Spends env s₀ (generateID env) := writes_request.bind fun _ => Guarded.pure _

theorem writes_queryJobPlanNodeByID (id : Nat) : Spends env s₀ (queryJobPlanNodeByID env id) := by
  unfold queryJobPlanNodeByID
  split
  · exact Guarded.pure _
  · exact writes_daoCall.bind fun _ => Guarded.getting.bind fun _ => Guarded.pure _

theorem writes_loadJobExecutionPlan (id : Nat) : Spends env s₀ (loadJobExecutionPlan env id) := by
  refine (writes_queryJobPlan id).bind fun plan => ?_
  split
  · exact Guarded.pure _
  · exact writes_daoCall.bind fun _ => writes_daoCall.bind fun _ => Guarded.getting.bind fun _ => Guarded.pure _

theorem writes_changeJobExecutionPlanCurrentXjobState (id : Nat) (state : CurrentXjobState) :
    Spends env s₀ (changeJobExecutionPlanCurrentXjobState env id state) := by
  refine writes_newDate.bind fun date => ?_
  unfold updateJobPlanCurrentXjobState
  split
  · exact Guarded.pure _
  · refine writes_daoCall.bind fun _ => Guarded.bind (Guarded.modifying fun _ holds => holds.tail (.marks _ _ _))
      fun _ => ?_
    exact (writes_queryJobPlan id).bind fun _ => Guarded.pure _

theorem writes_executeXJob (key : String) (node : JobPlanNode) (id : Nat) (type : XjobExecutorType)
    (args : Option String) : Spends env s₀ (executeXJob env key node id type args) := by
  intro s holds
  cases given : node.xjobMeta with
  | none =>
    rw [executeXJob_none env given]
    exact ⟨holds.tail (.asks s), rfl⟩
  | some xjobMeta =>
    rw [executeXJob_some env given]
    exact holds.tail (.dispatches s _ _ rfl rfl)

theorem writes_removeWorkflow (key : String) : Spends env s₀ (removeWorkflow key) :=
  Guarded.modifying fun _ holds => holds.tail (.ends _ key)

theorem writes_produceJobEvent (event : String) : Spends env s₀ (produceJobEvent event) :=
  Guarded.modifying fun _ holds => holds.tail (.produces _ event)

/-! ### What leaves the registered runs alone -/

/-- Whatever becomes of the call, the same runs are registered. -/
def KeepsRuns {α : Type} (body : StoreM α) : Prop := ∀ runs, Keeps (fun s : Store => s.workflowsMap = runs) body

theorem runs_request : KeepsRuns request := fun _ _ same => same

theorem runs_daoCall : KeepsRuns (daoCall env) := by
  intro runs
  refine (runs_request runs).bind fun n => ?_
  split
  · exact Keeps.pure _
  · exact Keeps.throw _

theorem runs_newDate : KeepsRuns (newDate env) := fun runs => (runs_request runs).bind fun _ => Keeps.pure _

theorem runs_generateID : KeepsRuns (generateID env) := fun runs => (runs_request runs).bind fun _ => Keeps.pure _

theorem runs_addJobState (x : XjobState) : KeepsRuns (addJobState env x) :=
  fun runs => (runs_daoCall runs).bind fun _ _ same => same

theorem runs_updJobState (x : XjobState) : KeepsRuns (updJobState env x) :=
  fun runs => (runs_daoCall runs).bind fun _ => Keeps.modifying fun _ same => same

theorem runs_queryXjobStateByCurrentExecutorKey (key : String) :
    KeepsRuns (queryXjobStateByCurrentExecutorKey env key) :=
  fun runs => (runs_daoCall runs).bind fun _ => Keeps.getting.bind fun _ => Keeps.pure _

theorem runs_queryJobPlan (id : Nat) : KeepsRuns (queryJobPlan env id) := by
  intro runs
  unfold queryJobPlan
  split
  · exact Keeps.pure _
  · exact (runs_daoCall runs).bind fun _ => Keeps.getting.bind fun _ => Keeps.pure _

theorem runs_queryJobPlanNodeByID (id : Nat) : KeepsRuns (queryJobPlanNodeByID env id) := by
  intro runs
  unfold queryJobPlanNodeByID
  split
  · exact Keeps.pure _
  · exact (runs_daoCall runs).bind fun _ => Keeps.getting.bind fun _ => Keeps.pure _

theorem runs_loadJobExecutionPlan (id : Nat) : KeepsRuns (loadJobExecutionPlan env id) := by
  intro runs
  refine (runs_queryJobPlan id runs).bind fun plan => ?_
  split
  · exact Keeps.pure _
  · exact (runs_daoCall runs).bind fun _ => (runs_daoCall runs).bind fun _ => Keeps.getting.bind fun _ => Keeps.pure _

theorem runs_executeXJob (key : String) (node : JobPlanNode) (id : Nat) (type : XjobExecutorType)
    (args : Option String) : KeepsRuns (executeXJob env key node id type args) := by
  intro runs
  refine Keeps.of_after fun s same => ?_
  cases given : node.xjobMeta with
  | none =>
    rw [executeXJob_none env given]
    exact same
  | some xjobMeta =>
    rw [executeXJob_some env given]
    exact same

end Operations

end Store

/-- The shared store was only written as `Write` says. -/
def Wrote (env : Env) (s₀ : Store) (s : Run) : Prop := Store.Writes env s₀ s.store

/-- As `Store.Spends`, for code of an instance. -/
def Tidy {α : Type} (env : Env) (s₀ : Store) (body : RunM α) : Prop :=
  Guarded (Wrote env s₀) (·.isException = true) body

section Handlers

variable {env : Env} {wf : Workflow} {s₀ : Store}

theorem wrote_onStore {α : Type} {body : StoreM α} (keeps : Store.Spends env s₀ body) :
    Tidy env s₀ (onStore body) :=
  keeps.zoom (fun _ holds => holds) fun _ _ _ holds => holds

theorem wrote_attempt {α : Type} {body : RunM α} (tidy : Tidy env s₀ body) (otherwise : α) :
    Tidy env s₀ (attempt body otherwise) :=
  tidy.catching (fun _ _ => Guarded.pure otherwise) fun _ exception _ => exception

theorem wrote_checkCurrentExecutorKey : Tidy env s₀ (checkCurrentExecutorKey wf) := by
  unfold checkCurrentExecutorKey
  split
  · exact Guarded.throw rfl
  · exact Guarded.pure _

theorem wrote_checkJobProgress (context : NodeContext) : Tidy env s₀ (checkJobProgress wf context) := by
  refine wrote_checkCurrentExecutorKey.bind fun _ => ?_
  split
  · exact Guarded.throw rfl
  · split
    · exact Guarded.throw rfl
    · exact Guarded.pure _

theorem wrote_record (act : Act) : Tidy env s₀ (record act) := Guarded.modifying fun _ holds => holds

theorem wrote_setStatus (status : WorkflowStatus) : Tidy env s₀ (setStatus status) :=
  Guarded.modifying fun _ holds => holds

theorem wrote_newDate : Tidy env s₀ (onStore (Store.newDate env)) := wrote_onStore Store.writes_newDate

theorem wrote_updJobState (x : XjobState) : Tidy env s₀ (onStore (Store.updJobState env x)) :=
  wrote_onStore (Store.writes_updJobState x)

theorem wrote_loadXjobState (id : Nat) : Tidy env s₀ (loadXjobState env id) := by
  refine (wrote_onStore (Store.writes_queryXjobState id)).bind fun found => ?_
  cases found
  · exact Guarded.throw rfl
  · exact Guarded.pure _

theorem wrote_addJobState (x : XjobState) : Tidy env s₀ (addJobState env x) :=
  (wrote_onStore (Store.writes_addJobState x)).bind fun saved => (wrote_record _).bind fun _ => Guarded.pure saved

theorem wrote_executeXJob (node : JobPlanNode) (id : Nat) (args : Option String) :
    Tidy env s₀ (executeXJob env wf node id args) :=
  (wrote_onStore (Store.writes_executeXJob _ node id _ args)).bind fun _ => wrote_record _

/-! ### Entering a node -/

theorem wrote_startEnter (node : JobPlanNode) (context : NodeContext) :
    Tidy env s₀ (StartNodeHandler.enter env wf node context) := by
  refine wrote_checkCurrentExecutorKey.bind fun _ => wrote_attempt ?_ _
  exact wrote_newDate.bind fun date => (wrote_addJobState _).bind fun saved => Guarded.pure _

theorem wrote_actionEnter (node : JobPlanNode) : Tidy env s₀ (ActionNodeHandler.enter env wf node) := by
  refine wrote_newDate.bind fun date => (wrote_attempt (wrote_addJobState _) _).bind fun row => ?_
  refine (wrote_executeXJob node _ _).bind fun _ => ?_
  exact (wrote_attempt (wrote_updJobState _) _).bind fun _ => Guarded.pure _

theorem wrote_joinEnter (node : JobPlanNode) : Tidy env s₀ (JoinNodeHandler.enter node) := by
  refine (wrote_record _).bind fun _ => Guarded.getting.bind fun s => ?_
  split
  · exact Guarded.throw rfl
  · split
    · exact Guarded.throw rfl
    · dsimp only
      split
      · exact Guarded.bind (Guarded.modifying fun _ holds => holds) fun _ => Guarded.pure _
      · exact Guarded.pure _

theorem wrote_failEnter (node : JobPlanNode) : Tidy env s₀ (FailNodeHandler.enter env wf node) := by
  refine wrote_newDate.bind fun date => (wrote_addJobState _).bind fun saved => ?_
  split
  · refine Guarded.bind (wrote_attempt ((wrote_executeXJob node _ _).bind fun _ => Guarded.pure true) false) fun _ => ?_
    exact (wrote_updJobState _).bind fun _ => Guarded.pure _
  · exact Guarded.pure _

theorem wrote_endEnter (node : JobPlanNode) : Tidy env s₀ (EndNodeHandler.enter env wf node) := by
  have notified (id : Nat) : Tidy env s₀ (EndNodeHandler.notify env wf node id) := by
    unfold EndNodeHandler.notify
    split
    · exact (wrote_executeXJob node _ _).bind fun _ => Guarded.pure _
    · exact Guarded.pure _
  refine wrote_newDate.bind fun date => (notified _).bind fun state => ?_
  exact (wrote_attempt (wrote_addJobState _) _).bind fun _ => Guarded.pure _

theorem wrote_enter (handler : NodeHandler) (context : NodeContext) :
    Tidy env s₀ (handler.enter env wf context) := by
  refine (wrote_record _).bind fun _ => ?_
  split
  · exact (wrote_startEnter _ _).bind fun _ => Guarded.pure _
  · exact (wrote_actionEnter _).bind fun _ => Guarded.pure _
  · exact Guarded.pure _
  · exact (wrote_joinEnter _).bind fun _ => Guarded.pure _
  · exact (wrote_failEnter _).bind fun _ => Guarded.pure _
  · exact (wrote_endEnter _).bind fun _ => Guarded.pure _

/-! ### Leaving a node -/

theorem wrote_startExit (node : JobPlanNode) (context : NodeContext) :
    Tidy env s₀ (StartNodeHandler.exit env wf node context) := by
  refine (wrote_checkJobProgress context).bind fun progress => (wrote_loadXjobState _).bind fun row => ?_
  refine wrote_newDate.bind fun date => Guarded.bind (wrote_attempt ?_ ()) fun _ => Guarded.pure _
  exact (wrote_updJobState _).bind fun _ =>
    wrote_onStore (Store.writes_changeJobExecutionPlanCurrentXjobState _ _)

theorem wrote_redoXjob (handler : NodeHandler) (x : XjobState) :
    Tidy env s₀ (ActionNodeHandler.redoXjob env wf handler x) := by
  unfold ActionNodeHandler.redoXjob
  split
  · exact Guarded.throw rfl
  · exact (wrote_executeXJob _ _ _).bind fun _ => wrote_attempt (wrote_updJobState _) _

theorem wrote_actionExit (handler : NodeHandler) (context : NodeContext) :
    Tidy env s₀ (ActionNodeHandler.exit env wf handler context) := by
  refine (wrote_checkJobProgress context).bind fun progress => ?_
  split
  · exact Guarded.throw rfl
  · split
    · exact Guarded.throw rfl
    · refine (wrote_loadXjobState _).bind fun row => (wrote_attempt (wrote_updJobState _) _).bind fun _ => ?_
      split
      · exact Guarded.pure _
      · split
        · split
          · exact (wrote_redoXjob _ _).bind fun _ => Guarded.pure _
          · exact Guarded.pure _
        · exact Guarded.pure _

theorem wrote_forkExit (node : JobPlanNode) : Tidy env s₀ (ForkNodeHandler.multiExit node) := by
  unfold ForkNodeHandler.multiExit
  split
  · exact Guarded.throw rfl
  · exact Guarded.bind (Guarded.modifying fun _ holds => holds) fun _ => Guarded.pure _

theorem wrote_joinExit (node : JobPlanNode) : Tidy env s₀ (JoinNodeHandler.exit node) :=
  Guarded.bind (Guarded.modifying fun _ holds => holds) fun _ => Guarded.pure _

theorem wrote_failExit (context : NodeContext) : Tidy env s₀ (FailNodeHandler.exit env wf context) := by
  have failRunning (x : XjobState) : Tidy env s₀ (FailNodeHandler.failRunning env x) := by
    unfold FailNodeHandler.failRunning
    split
    · exact wrote_newDate.bind fun _ => wrote_updJobState _
    · exact Guarded.pure _
  refine (wrote_checkJobProgress context).bind fun progress => (wrote_loadXjobState _).bind fun row => ?_
  refine wrote_newDate.bind fun date => Guarded.bind (wrote_attempt ?_ ()) fun _ => Guarded.pure _
  refine (wrote_updJobState _).bind fun _ => ?_
  refine (wrote_onStore (Store.writes_changeJobExecutionPlanCurrentXjobState _ _)).bind fun _ => ?_
  refine (wrote_onStore (Store.writes_queryXjobStateByCurrentExecutorKey _)).bind fun rows => ?_
  exact Guarded.forM fun x _ => failRunning x

theorem wrote_endExit (node : JobPlanNode) (context : NodeContext) :
    Tidy env s₀ (EndNodeHandler.exit env wf node context) := by
  refine (wrote_checkJobProgress context).bind fun progress => (wrote_loadXjobState _).bind fun row => ?_
  refine wrote_newDate.bind fun date => Guarded.bind (wrote_attempt ?_ ()) fun _ => ?_
  · exact (wrote_updJobState _).bind fun _ =>
      wrote_onStore (Store.writes_changeJobExecutionPlanCurrentXjobState _ _)
  · refine (wrote_onStore (Store.writes_queryJobPlan _)).bind fun plan => ?_
    split
    · exact Guarded.pure _
    · split
      · exact Guarded.pure _
      · split
        · exact Guarded.pure _
        · exact (wrote_onStore (Store.writes_produceJobEvent _)).bind fun _ => Guarded.pure _

theorem wrote_multiExit (handler : NodeHandler) (context : NodeContext) :
    Tidy env s₀ (handler.multiExit env wf context) := by
  unfold NodeHandler.multiExit
  dsimp only
  split
  · exact (wrote_startExit _ _).bind fun _ => Guarded.pure _
  · exact (wrote_actionExit _ _).bind fun _ => Guarded.pure _
  · exact (wrote_forkExit _).bind fun _ => Guarded.pure _
  · exact (wrote_joinExit _).bind fun _ => Guarded.pure _
  · exact (wrote_failExit _).bind fun _ => Guarded.pure _
  · exact Guarded.pure _

/-! ### The instance -/

theorem wrote_createNodeHandler (node : Option JobPlanNode) : Tidy env s₀ (createNodeHandler node) := by
  cases node
  · exact Guarded.throw rfl
  · exact Guarded.pure _

section Loop

variable {signals : String → NodeContext → RunM Unit} {A : Throwable → Prop}
  (exceptions : ∀ e : Throwable, e.isException = true → A e)

include exceptions

theorem wrote_processNextNode {name : Option String}
    (inner : ∀ node, name.bind wf.getNode = some node → node.type.isFinalType = false →
      Guarded (Wrote env s₀) A (signals node.name {})) :
    Guarded (Wrote env s₀) A (processNextNode env wf signals name) := by
  unfold processNextNode
  split
  · exact Guarded.pure _
  next node found =>
    dsimp only
    split
    next passing => exact inner node found (by simpa using passing)
    next =>
      refine Guarded.mono (A := (·.isException = true)) ?_ exceptions
      refine (wrote_createNodeHandler _).bind fun handler => (wrote_enter _ _).bind fun entered => ?_
      split
      · exact (wrote_endExit _ _).bind fun _ => wrote_setStatus _
      · split
        · exact (wrote_failExit _).bind fun _ => wrote_setStatus _
        · exact Guarded.pure _

theorem wrote_processNextNodes {node : String} {id : Nat} {exits : Option (List (Option String))}
    (inner : ∀ names, exits = some names → ∀ name ∈ names, ∀ node, name.bind wf.getNode = some node →
      node.type.isFinalType = false → Guarded (Wrote env s₀) A (signals node.name {})) :
    Guarded (Wrote env s₀) A (processNextNodes env wf signals node id exits) := by
  refine Guarded.getting.bind fun s => ?_
  split
  · exact Guarded.pure _
  · split
    · exact Guarded.throw (exceptions _ rfl)
    next names =>
      refine Guarded.bind (Guarded.mono (wrote_record _) exceptions) fun _ => Guarded.forM fun name member => ?_
      exact wrote_processNextNode exceptions (inner names rfl name member)

end Loop

/-- Whatever a caught body throws, only what is no exception gets out. -/
theorem wrote_failing {A : Throwable → Prop} {body : RunM Unit} (guarded : Guarded (Wrote env s₀) A body) :
    Guarded (Wrote env s₀) (fun e => A e ∧ e.isException = false) (failing body) :=
  guarded.catching (fun _ _ => Guarded.modifying fun _ holds => holds) fun _ allowed outside => ⟨allowed, outside⟩

theorem wrote_signal (depth : Nat) (name : String) (context : NodeContext) :
    Guarded (Wrote env s₀) (fun _ => True) (signal env wf depth name context) := by
  have any : ∀ e : Throwable, e.isException = true → True := fun _ _ => trivial
  induction depth generalizing name context with
  | zero => exact Guarded.throw trivial
  | succ depth ih =>
    refine Guarded.getting.bind fun s => ?_
    split
    · exact Guarded.pure _
    · refine Guarded.mono (wrote_failing (A := fun _ => True) ?_) fun _ _ => trivial
      refine Guarded.bind (Guarded.mono (wrote_createNodeHandler _) any) fun handler => ?_
      refine Guarded.bind (Guarded.mono (wrote_enter _ _) any) fun entered => ?_
      obtain ⟨exiting, handler, left⟩ := entered
      dsimp only
      split
      · refine Guarded.bind (Guarded.mono (wrote_multiExit _ _) any) fun exits => ?_
        exact wrote_processNextNodes any fun _ _ _ _ node _ _ => ih node.name {}
      · exact Guarded.pure _

theorem wrote_start : Keeps (Wrote env s₀) (start env wf) := by
  refine Keeps.getting.bind fun s => ?_
  split
  · exact Keeps.throw _
  · refine (wrote_setStatus _).keeps.bind fun _ => ?_
    split
    · exact Keeps.throw _
    · exact (wrote_signal _ _ _).keeps

variable (wf) in
/-- The run of an instance that has ended is forgotten. -/
theorem wrote_closing {A : Throwable → Prop} : Guarded (Wrote env s₀) A
    (do if (← get).status.isEndState then onStore (Store.removeWorkflow wf.getWorkflowKey)) := by
  refine Guarded.getting.bind fun s => ?_
  split
  · exact Guarded.zoom (J := Store.Writes env s₀) (Guarded.modifying fun _ holds => holds.tail (.ends _ _))
      (fun _ holds => holds) fun _ _ _ holds => holds
  · exact Guarded.pure _

theorem wrote_completeJobPlanNode {A : Throwable → Prop} (exceptions : ∀ e : Throwable, e.isException = true → A e)
    (name : String) (context : NodeContext)
    (inner : ∀ y node, wf.getNode y = some node → node.type.isFinalType = false →
      Guarded (Wrote env s₀) A (signal env wf env.stackDepth node.name {})) :
    Guarded (Wrote env s₀) (fun e => A e ∧ e.isException = false) (completeJobPlanNode env wf name context) := by
  refine Guarded.bind (Guarded.modifying fun _ holds => holds) fun _ => (wrote_failing ?_).bind fun _ => ?_
  · refine Guarded.bind (Guarded.mono (wrote_createNodeHandler _) exceptions) fun handler => ?_
    refine Guarded.bind (Guarded.mono (wrote_multiExit _ _) exceptions) fun exits => ?_
    refine wrote_processNextNodes exceptions fun _ _ _ _ node found passing => ?_
    obtain ⟨y, -, found⟩ := Option.bind_eq_some_iff.mp found
    exact inner y node found passing
  · exact wrote_closing wf

/-- Whatever the call throws. -/
theorem wrote_complete (name : String) (context : NodeContext) :
    Keeps (Wrote env s₀) (completeJobPlanNode env wf name context) :=
  (wrote_completeJobPlanNode (A := fun _ => True) (fun _ _ => trivial) name context
    fun _ _ _ _ => wrote_signal _ _ _).keeps

end Handlers

end Hella

import Hella.Control.Footprint
import Hella.Control.Steady

/-!
# What the workflows leave of a plan

The engine writes the state of a plan and what its current job is, and nothing else of the
plan tables: a call of either manager leaves the plans as they are defined.
-/
namespace Hella

open Exec

/-- The plan without the columns that the engine writes. -/
def JobExecutionPlan.definition (plan : JobExecutionPlan) : JobExecutionPlan :=
  { plan with state := .able, currentXjobState := none, currentXjobDate := none }

/-- The rows are of plans with these definitions. -/
def Store.Defines (plans : List JobExecutionPlan) (s : Store) : Prop := s.jobPlans.map (·.definition) = plans

namespace Store

variable {env : Env} {plans : List JobExecutionPlan} {s : Store}

theorem Defines.map (defines : s.Defines plans) {f : JobExecutionPlan → JobExecutionPlan}
    (same : ∀ plan, (f plan).definition = plan.definition) :
      ({ s with jobPlans := s.jobPlans.map f } : Store).Defines plans := by
  change (s.jobPlans.map f).map (·.definition) = plans
  rw [List.map_map, ← defines]
  exact List.map_congr_left fun plan _ => same plan

theorem defines_request : Keeps (Defines plans) request := fun _ defines => defines

theorem defines_daoCall : Keeps (Defines plans) (daoCall env) := by
  apply defines_request.bind
  intro n
  split
  · exact Keeps.pure _
  · exact Keeps.throw _

theorem defines_generateID : Keeps (Defines plans) (generateID env) := defines_request.bind fun _ => Keeps.pure _

theorem defines_newDate : Keeps (Defines plans) (newDate env) := defines_request.bind fun _ => Keeps.pure _

theorem defines_addJobState (x : XjobState) : Keeps (Defines plans) (addJobState env x) :=
  defines_daoCall.bind fun _ _ defines => defines

theorem defines_updJobState (x : XjobState) : Keeps (Defines plans) (updJobState env x) :=
  defines_daoCall.bind fun _ => Keeps.modifying fun _ defines => defines

theorem defines_loadJobExecutionPlan (id : Nat) : Keeps (Defines plans) (loadJobExecutionPlan env id) := by
  apply Keeps.bind
  · unfold queryJobPlan
    split
    · exact Keeps.pure _
    · exact defines_daoCall.bind fun _ => Keeps.getting.bind fun _ => Keeps.pure _
  · intro found
    cases found with
    | none => exact Keeps.pure _
    | some plan =>
      exact defines_daoCall.bind fun _ => defines_daoCall.bind fun _ => Keeps.getting.bind fun _ => Keeps.pure _

theorem defines_queryJobPlanNodeByID (id : Nat) : Keeps (Defines plans) (queryJobPlanNodeByID env id) := by
  unfold queryJobPlanNodeByID
  split
  · exact Keeps.pure _
  · exact defines_daoCall.bind fun _ => Keeps.getting.bind fun _ => Keeps.pure _

theorem defines_queryXjobStateByCurrentExecutorKey (key : String) :
    Keeps (Defines plans) (queryXjobStateByCurrentExecutorKey env key) :=
  defines_daoCall.bind fun _ => Keeps.getting.bind fun _ => Keeps.pure _

theorem defines_executeXJob (key : String) (node : JobPlanNode) (id : Nat) (type : XjobExecutorType)
    (args : Option String) : Keeps (Defines plans) (executeXJob env key node id type args) := by
  apply Keeps.of_after
  intro s defines
  cases given : node.xjobMeta with
  | none =>
    rw [executeXJob_none env given]
    exact defines
  | some xjobMeta =>
    rw [executeXJob_some env given]
    exact defines

theorem defines_doDispatch (event : JobEvent) : Keeps (Defines plans) (doDispatch event) := by
  apply Keeps.modifying
  intro s defines
  split
  · exact defines
  · exact defines

theorem defines_pauseJobExecutionPlan (plan : JobExecutionPlan) :
    Keeps (Defines plans) (pauseJobExecutionPlan env plan) := by
  apply defines_request.bind
  intro n
  split
  · apply Keeps.catching
    · refine (defines_daoCall.bind fun _ => Keeps.modifying fun s defines => ?_).bind fun _ => Keeps.pure _
      apply defines.map
      intro other
      split
      · rfl
      · rfl
    · exact fun _ _ => Keeps.pure _
  · exact Keeps.pure _

theorem defines_trySendSubscribe (clusterID : String) (name runTime runInfo : Option String) (type : Nat) :
    Keeps (Defines plans) (trySendSubscribe env clusterID name runTime runInfo type) := by
  apply defines_request.bind
  intro n
  cases parseEnDate runTime with
  | none => exact Keeps.pure _
  | some date =>
    dsimp only
    split
    · refine Keeps.bind (Keeps.modifying fun s defines => ?_) fun _ => Keeps.pure _
      exact defines
    · exact Keeps.pure _

end Store

/-! ### Runs -/

theorem footprint_defines (env : Env) (wf : Workflow) (plans : List JobExecutionPlan) :
    Footprint env wf (Store.Defines plans) (fun _ => True) (fun _ => True) fun _ => True where
  unsaved := trivial
  leads _ _ _ _ _ _ _ := trivial
  asks _ defines := defines
  inserts _ _ defines _ := ⟨defines, trivial⟩
  updates _ _ defines _ := defines
  reads _ _ _ _ _ := trivial
  fails _ _ _ defines _ _ := defines
  marks s id state date defines := by
    apply defines.map
    intro plan
    split
    · rfl
    · rfl
  dispatches _ _ _ _ defines := defines
  produces _ _ _ defines _ _ _ _ := defines
  ends _ defines := defines

namespace Engine

variable {env : Env} {plans : List JobExecutionPlan} {α : Type}

/-- The shared store has these definitions. -/
def Defines (plans : List JobExecutionPlan) (e : Engine) : Prop := e.store.Defines plans

theorem defines_onShared {body : StoreM α} (keeps : Keeps (Store.Defines plans) body) :
    Keeps (Defines plans) (onShared body) :=
  keeps.zoom (fun _ defines => defines) fun _ _ _ defines => defines

theorem defines_onInstance (n : Nat) {body : Workflow → RunM α}
    (keeps : ∀ wf, Keeps (On (Store.Defines plans)) (body wf)) : Keeps (Defines plans) (onInstance n body) := by
  apply Keeps.of_after
  intro e defines
  unfold onInstance
  split
  · exact defines
  next i there =>
    have holds := (keeps i.workflow).after (s := i.run e.store) defines
    split
    next same =>
      rw [same] at holds
      exact holds
    next same =>
      rw [same] at holds
      exact holds

theorem defines_completes (n : Nat) (name : String) (context : NodeContext) :
    Keeps (Defines plans) (onInstance n fun wf => completeJobPlanNode env wf name context) :=
  defines_onInstance n fun wf => (footprint_defines env wf plans).completeJobPlanNode (fun _ => trivial) name
    fun _ _ => trivial

theorem defines_startJobPlan (id : Nat) (args : Option String) : Keeps (Defines plans) (startJobPlan env id args) := by
  apply (defines_onShared (Store.defines_loadJobExecutionPlan id)).bind
  intro found
  cases found with
  | none => exact Keeps.pure _
  | some plan =>
    dsimp only
    split
    · exact Keeps.throw _
    · apply (defines_onShared Store.defines_generateID).bind
      intro key
      refine Keeps.bind (fun _ defines => defines) fun n => ?_
      apply (defines_onInstance n fun wf => (footprint_defines env wf plans).start fun _ _ => trivial).bind
      exact fun _ => defines_onShared (Keeps.modifying fun _ defines => defines)

theorem defines_executeJobPlanNode (id : Nat) (type : XjobExecutorType) (args : Option String) :
    Keeps (Defines plans) (executeJobPlanNode env id type args) := by
  apply (defines_onShared (Store.defines_queryJobPlanNodeByID id)).bind
  intro found
  cases found with
  | none => exact Keeps.throw _
  | some node =>
    refine (defines_onShared Store.defines_generateID).bind fun key => ?_
    refine (defines_onShared Store.defines_newDate).bind fun runTime => ?_
    refine (defines_onShared (Store.defines_addJobState _)).bind fun row => ?_
    apply Keeps.bind
    · apply Keeps.catching
      · exact (defines_onShared (Store.defines_executeXJob _ _ _ _ _)).bind fun _ => Keeps.pure _
      · exact fun _ _ => Keeps.pure _
    · exact fun started => (defines_onShared (Store.defines_updJobState _)).bind fun _ => Keeps.pure _

/-! ### Reports and the sweep -/

theorem defines_alarmFailure (cluster name : String) (report : JobProgress) (state : JobPlanNodeState)
    (plan : JobExecutionPlan) : Keeps (Store.Defines plans) (alarmFailure env cluster name report state plan) := by
  unfold alarmFailure
  split
  · apply Keeps.bind
    · unfold handleFailJobProgress
      split
      · exact (Store.defines_pauseJobExecutionPlan plan).bind fun _ => Keeps.pure _
      · exact Keeps.pure _
    · exact fun _ => (Store.defines_trySendSubscribe _ _ _ _ _).bind fun _ => Keeps.pure _
  · exact Keeps.pure _

theorem defines_alarmLateSuccess (cluster name : String) (report : JobProgress) (i : Instance) :
    Keeps (Store.Defines plans) (alarmLateSuccess env cluster name report i) := by
  unfold alarmLateSuccess
  split
  · exact (Store.defines_trySendSubscribe _ _ _ _ _).bind fun _ => Keeps.pure _
  · exact Keeps.pure _

theorem defines_forget (eventID : String) : Keeps (Defines plans) (onShared (Store.removeJobNodeRuningInfo eventID)) :=
  defines_onShared (Keeps.modifying fun _ defines => defines)

theorem defines_completeJobProgress (cluster name : String) (n : Nat) (report : JobProgress)
    (state : JobPlanNodeState) : Keeps (Defines plans) (completeJobProgress env cluster name n report state) := by
  apply (defines_completes n name _).bind
  intro _
  apply Keeps.getting.bind
  intro e
  split
  · exact Keeps.throw _
  · refine (defines_onShared (defines_alarmFailure cluster name report state _)).bind fun _ => ?_
    exact defines_onShared (defines_alarmLateSuccess cluster name report _)

theorem defines_handlejobProgress (cluster : String) (report : JobProgress) :
    Keeps (Defines plans) (handlejobProgress env cluster report) := by
  unfold handlejobProgress
  split
  · apply Keeps.getting.bind
    intro e
    split
    · exact Keeps.throw _
    · dsimp only
      split
      -- the row of a node that was run by hand
      · exact (defines_forget _).bind fun _ => defines_onShared (Store.defines_updJobState _)
      · apply Keeps.getting.bind
        intro e
        split
        · exact defines_onShared (Store.defines_doDispatch _)
        · split
          · exact Keeps.pure _
          · exact (defines_completeJobProgress cluster _ _ _ _).bind fun _ => defines_forget _
  · exact Keeps.throw _

theorem defines_modifyInstance (n : Nat) (f : Instance → Instance) : Keeps (Defines plans) (modifyInstance n f) :=
  Keeps.modifying fun _ defines => defines

theorem defines_timeOutHandle (n : Nat) (node : JobPlanNode) (report : JobProgress) :
    Keeps (Defines plans) (timeOutHandle env n node report) := by
  unfold timeOutHandle
  split
  · exact Keeps.pure _
  · split
    · exact Keeps.pure _
    · apply (defines_onShared Store.defines_request).bind
      intro tick
      split
      · exact Keeps.pure _
      · dsimp only
        generalize (if node.delayTime > 0 then node.delayTime else env.xjobDefaultTimeout) = delayTime
        split
        · exact Keeps.pure _
        · apply (defines_modifyInstance n _).bind
          intro _
          split
          · apply (defines_completes n _ _).bind
            intro _
            split
            -- a hard timeout pauses the plan
            · apply Keeps.getting.bind
              intro e
              split
              · exact (Keeps.throw _).bind fun _ => Keeps.pure _
              · exact (defines_onShared (Store.defines_pauseJobExecutionPlan _)).bind fun _ => Keeps.pure _
            · exact Keeps.pure _
          · exact Keeps.pure _

theorem defines_timeOutRow (n : Nat) (x : XjobState) : Keeps (Defines plans) (timeOutRow env n x) := by
  unfold timeOutRow
  split
  · apply (defines_onShared (Store.defines_queryJobPlanNodeByID _)).bind
    intro found
    cases found with
    | none => exact Keeps.pure _
    | some node =>
      apply (defines_timeOutHandle n _ _).bind
      intro runInfo
      apply Keeps.getting.bind
      intro e
      split
      · exact Keeps.throw _
      · split
        · apply (defines_onShared (Store.defines_trySendSubscribe _ _ _ _ _)).bind
          intro sent
          split
          · exact defines_modifyInstance n _
          · exact Keeps.pure _
        · exact Keeps.pure _
  · exact Keeps.pure _

theorem defines_timeOutRuns (keys : List String) : Keeps (Defines plans) (timeOutRuns env keys) := by
  induction keys with
  | nil => exact Keeps.pure _
  | cons key keys ih =>
    apply Keeps.getting.bind
    intro e
    split
    · exact Keeps.pure _
    · apply (defines_onShared (Store.defines_queryXjobStateByCurrentExecutorKey key)).bind
      intro rows
      split
      · exact Keeps.pure _
      · exact (Keeps.forM fun x _ => defines_timeOutRow _ x).bind fun _ => ih

theorem defines_autoTimeOutHandlejobProgress : Keeps (Defines plans) (autoTimeOutHandlejobProgress env) :=
  Keeps.getting.bind fun _ => defines_timeOutRuns _

end Engine

end Hella

import Hella.Control.Inert
import Hella.Control.Writes
import Hella.Lib.Runs

/-!
# An invariant rule for the engine

What single changes of the shared store keep, and what `start` and `completeJobPlanNode`
keep, is kept by every call of the two managers and holds in every run of the engine.
-/
namespace Hella

open Exec Runs

/-- One change of the shared store by a manager. -/
inductive Store.Change (env : Env) : Store → Store → Prop
  | writes {s t : Store} (write : Write env s t) : Change env s t
  | notices {s t : Store} (noticed : Engine.Noticed s t) : Change env s t
  | forgets (s : Store) (eventID : String) :
    Change env s { s with jobNodeRuningInfosMap := s.jobNodeRuningInfosMap.erase eventID }
  | registers (s : Store) (key : String) (n : Nat) :
    Change env s { s with workflowsMap := s.workflowsMap.insert key n }
  | kills (s : Store) (event : JobEvent) :
    Change env s { s with
      jobEventsMap :=
        if event.executorClusterID ∈ s.executorRegisterDateMap then
          s.jobEventsMap.insert event.executorClusterID
            ((s.jobEventsMap.lookup event.executorClusterID).getD [] ++ [event])
        else s.jobEventsMap }

namespace Engine

/-- The invariant is kept by code that leaves the registered runs alone, by the two alarm
flags and by reports to an instance. -/
structure Enduring (env : Env) (J : Engine → Prop) : Prop where
  spends : ∀ {α : Type} {body : StoreM α}, (∀ s, Store.Spends env s body) → Store.KeepsRuns body →
    Keeps J (onShared body)
  notices : ∀ e t, Noticed e.store t → J e → J { e with store := t }
  forgets : ∀ e eventID, J e →
    J { e with store := { e.store with jobNodeRuningInfosMap := e.store.jobNodeRuningInfosMap.erase eventID } }
  kills : ∀ cluster eventID, Keeps J (onShared (killJobHandle cluster eventID))
  flags : ∀ e n f, (∀ i : Instance, ∃ timeOut hasAlarm, f i = { i with timeOut := timeOut, hasAlarm := hasAlarm }) →
    J e → J { e with instances := e.instances.modify n f }
  completes : ∀ n name context, Keeps J (onInstance n fun wf => completeJobPlanNode env wf name context)

/-- The invariant is kept by changes of the shared store that register no run, by the two
alarm flags and by reports to an instance. -/
structure Lasting (env : Env) (J : Engine → Prop) : Prop where
  writes : ∀ e t, Store.Write env e.store t → J e → J { e with store := t }
  notices : ∀ e t, Noticed e.store t → J e → J { e with store := t }
  forgets : ∀ e eventID, J e →
    J { e with store := { e.store with jobNodeRuningInfosMap := e.store.jobNodeRuningInfosMap.erase eventID } }
  kills : ∀ cluster eventID, Keeps J (onShared (killJobHandle cluster eventID))
  flags : ∀ e n f, (∀ i : Instance, ∃ timeOut hasAlarm, f i = { i with timeOut := timeOut, hasAlarm := hasAlarm }) →
    J e → J { e with instances := e.instances.modify n f }
  completes : ∀ n name context, Keeps J (onInstance n fun wf => completeJobPlanNode env wf name context)

/-- The invariant is kept by changes of the shared store, by the two alarm flags, by a new
instance and by calls of an instance. -/
structure Steady (env : Env) (J : Engine → Prop) : Prop where
  changes : ∀ e t, Store.Change env e.store t → J e → J { e with store := t }
  flags : ∀ e n f, (∀ i : Instance, ∃ timeOut hasAlarm, f i = { i with timeOut := timeOut, hasAlarm := hasAlarm }) →
    J e → J { e with instances := e.instances.modify n f }
  creates : ∀ e wf, J e → J { e with instances := e.instances ++ [{ workflow := wf }] }
  starts : ∀ n, Keeps J (onInstance n (start env))
  completes : ∀ n name context, Keeps J (onInstance n fun wf => completeJobPlanNode env wf name context)

namespace Enduring

variable {env : Env} {J : Engine → Prop} {α : Type} (rule : Enduring env J)
include rule

theorem noticed {body : StoreM α} (returns : ∀ s, Returns body s fun _ => Noticed s) : Keeps J (onShared body) := by
  refine Keeps.of_after fun e holds => ?_
  obtain ⟨a, t, returned, noticed⟩ := returns e.store
  rw [onShared_apply, returned]
  exact rule.notices e t noticed holds

theorem forget (eventID : String) : Keeps J (onShared (Store.removeJobNodeRuningInfo eventID)) :=
  fun e holds => rule.forgets e eventID holds

/-! ### `DefaultJobStateManager` -/

theorem completeJobProgress (cluster name : String) (n : Nat) (report : JobProgress) (state : JobPlanNodeState) :
    Keeps J (completeJobProgress env cluster name n report state) := by
  refine (rule.completes n name _).bind fun _ => Keeps.getting.bind fun e => ?_
  split
  · exact Keeps.throw _
  · refine (rule.noticed (alarmFailure_noticed env cluster name report state _)).bind fun _ => ?_
    exact rule.noticed (alarmLateSuccess_noticed env cluster name report _)

theorem handlejobProgress (cluster : String) (report : JobProgress) :
    Keeps J (handlejobProgress env cluster report) := by
  unfold Engine.handlejobProgress
  split
  · refine Keeps.getting.bind fun e => ?_
    split
    · exact Keeps.throw _
    · dsimp only
      split
      · exact (rule.forget _).bind fun _ => rule.spends (fun _ => Store.writes_updJobState _) (Store.runs_updJobState _)
      · refine Keeps.getting.bind fun e => ?_
        split
        · exact rule.kills cluster _
        · split
          · exact Keeps.pure _
          · exact (rule.completeJobProgress cluster _ _ _ _).bind fun _ => rule.forget _
  · exact Keeps.throw _

theorem processJobProgress (cluster : String) (reports : List JobProgress) :
    Keeps J (processJobProgress env cluster reports) :=
  Keeps.forM fun report _ => (rule.handlejobProgress cluster report).catching fun _ _ => Keeps.pure _

theorem modifyInstance (n : Nat) {f : Instance → Instance}
    (flags : ∀ i : Instance, ∃ timeOut hasAlarm, f i = { i with timeOut := timeOut, hasAlarm := hasAlarm }) :
    Keeps J (modifyInstance n f) :=
  Keeps.modifying fun e holds => rule.flags e n f flags holds

theorem timeOutHandle (n : Nat) (node : JobPlanNode) (report : JobProgress) :
    Keeps J (timeOutHandle env n node report) := by
  unfold Engine.timeOutHandle
  split
  · exact Keeps.pure _
  · split
    · exact Keeps.pure _
    · refine (rule.spends (fun s => @Store.writes_request env s) Store.runs_request).bind fun tick => ?_
      split
      · exact Keeps.pure _
      · dsimp only
        -- the delay only decides which branch is taken
        generalize (if node.delayTime > 0 then node.delayTime else env.xjobDefaultTimeout) = delayTime
        split
        · exact Keeps.pure _
        · refine (rule.modifyInstance n fun i => ⟨_, _, rfl⟩).bind fun _ => ?_
          split
          · refine (rule.completes n _ _).bind fun _ => ?_
            split
            · refine Keeps.getting.bind fun e => ?_
              split
              · exact (Keeps.throw _).bind fun _ => Keeps.pure _
              · exact (rule.noticed (pauseJobExecutionPlan_noticed env _)).bind fun _ => Keeps.pure _
            · exact Keeps.pure _
          · exact Keeps.pure _

theorem timeOutRow (n : Nat) (x : XjobState) : Keeps J (timeOutRow env n x) := by
  unfold Engine.timeOutRow
  split
  · refine (rule.spends (fun _ => Store.writes_queryJobPlanNodeByID _) (Store.runs_queryJobPlanNodeByID _)).bind
      fun node => ?_
    split
    · exact Keeps.pure _
    · refine (rule.timeOutHandle n _ _).bind fun runInfo => Keeps.getting.bind fun e => ?_
      split
      · exact Keeps.throw _
      · split
        · refine (rule.noticed (trySendSubscribe_noticed env _ _ _ _ _)).bind fun sent => ?_
          split
          · exact rule.modifyInstance n fun i => ⟨_, _, rfl⟩
          · exact Keeps.pure _
        · exact Keeps.pure _
  · exact Keeps.pure _

theorem timeOutRuns (keys : List String) : Keeps J (timeOutRuns env keys) := by
  induction keys with
  | nil => exact Keeps.pure _
  | cons key keys ih =>
    refine Keeps.getting.bind fun e => ?_
    split
    · exact Keeps.pure _
    · refine (rule.spends (fun _ => Store.writes_queryXjobStateByCurrentExecutorKey key)
        (Store.runs_queryXjobStateByCurrentExecutorKey key)).bind fun rows => ?_
      split
      · exact Keeps.pure _
      · exact (Keeps.forM fun x _ => rule.timeOutRow _ x).bind fun _ => ih

theorem autoTimeOutHandlejobProgress : Keeps J (autoTimeOutHandlejobProgress env) :=
  Keeps.getting.bind fun _ => rule.timeOutRuns _

/-! ### `DefaultJobPlanManager` -/

theorem executeJobPlanNode (id : Nat) (type : XjobExecutorType) (args : Option String) :
    Keeps J (executeJobPlanNode env id type args) := by
  refine (rule.spends (fun _ => Store.writes_queryJobPlanNodeByID id) (Store.runs_queryJobPlanNodeByID id)).bind
    fun node => ?_
  split
  · exact Keeps.throw _
  · refine (rule.spends (fun _ => Store.writes_generateID) Store.runs_generateID).bind fun key => ?_
    refine (rule.spends (fun _ => Store.writes_newDate) Store.runs_newDate).bind fun date => ?_
    refine (rule.spends (fun _ => Store.writes_addJobState _) (Store.runs_addJobState _)).bind fun row => ?_
    refine Keeps.bind (Keeps.catching (Keeps.bind (rule.spends (fun _ => Store.writes_executeXJob _ _ _ _ _)
        (Store.runs_executeXJob _ _ _ _ _))
      fun _ => Keeps.pure true) fun _ _ => Keeps.pure false) fun started => ?_
    exact (rule.spends (fun _ => Store.writes_updJobState _) (Store.runs_updJobState _)).bind fun _ => Keeps.pure _

end Enduring

namespace Lasting

variable {env : Env} {J : Engine → Prop} {α : Type} (lasting : Lasting env J)
include lasting

theorem wrote {e : Engine} {t : Store} (writes : Store.Writes env e.store t) (holds : J e) :
    J { e with store := t } := by
  induction writes with
  | refl => exact holds
  | @tail middle last _ write ih => exact lasting.writes { e with store := middle } last write ih

/-- Code that only writes as `Write` says. -/
theorem spends {body : StoreM α} (spends : ∀ s, Store.Spends env s body) : Keeps J (onShared body) := by
  refine Keeps.of_after fun e holds => ?_
  have writes := (spends e.store).keeps.after .refl
  rw [onShared_apply]
  cases same : body e.store <;> simp only [same, after_ok, after_error] at writes ⊢ <;> exact lasting.wrote writes holds

/-- The registered runs are left alone by what the rule is about. -/
theorem enduring : Enduring env J where
  spends spends _ := lasting.spends spends
  notices := lasting.notices
  forgets := lasting.forgets
  kills := lasting.kills
  flags := lasting.flags
  completes := lasting.completes

end Lasting

namespace Steady

variable {env : Env} {J : Engine → Prop} {α : Type} (steady : Steady env J)
include steady

theorem lasting : Lasting env J where
  writes e t write := steady.changes e t (.writes write)
  notices e t noticed := steady.changes e t (.notices noticed)
  forgets e eventID := steady.changes e _ (.forgets _ eventID)
  kills cluster eventID := by
    intro e holds
    have changed := steady.changes e _ (.kills e.store (killJobEvent cluster eventID)) holds
    -- a KILL_JOB for a cluster that is not registered is dropped
    rw [killJobHandle, Store.doDispatch, onShared_modify]
    dsimp only
    split
    next registered =>
      rw [if_pos registered] at changed
      exact changed
    · exact holds
  flags := steady.flags
  completes := steady.completes

theorem startJobPlan (id : Nat) (args : Option String) : Keeps J (startJobPlan env id args) := by
  refine (steady.lasting.spends fun _ => Store.writes_loadJobExecutionPlan id).bind fun plan => ?_
  split
  · exact Keeps.pure _
  · split
    · exact Keeps.throw _
    · refine (steady.lasting.spends fun _ => Store.writes_generateID).bind fun key => ?_
      -- the instance exists before it is started and is registered after
      refine Keeps.bind (fun e holds => steady.creates e _ holds) fun n => (steady.starts n).bind fun _ => ?_
      exact fun e holds => steady.changes e _ (.registers _ _ n) holds

end Steady

/-! ### Invariants of the store alone -/

/-- What every single write keeps, a call of an instance keeps, however it ends. -/
theorem keeps_onInstance {env : Env} {P : Store → Prop} {α : Type} (keep : ∀ s t, Store.Write env s t → P s → P t)
    (n : Nat) {body : Workflow → RunM α} (writes : ∀ wf s, Keeps (Wrote env s) (body wf)) :
    Keeps (fun e => P e.store) (onInstance n body) := by
  refine Keeps.of_after fun e holds => ?_
  unfold onInstance
  split
  · exact holds
  next i there =>
    have wrote := (writes i.workflow e.store).after (s := i.run e.store) .refl
    split
    next same =>
      rw [same] at wrote
      exact Store.Writes.keeps wrote keep holds
    next same =>
      rw [same] at wrote
      exact Store.Writes.keeps wrote keep holds

/-- An invariant that reads nothing but the shared store is kept as soon as its changes
keep it. -/
theorem steady_of_store {env : Env} {P : Store → Prop} (keep : ∀ s t, Store.Change env s t → P s → P t) :
    Steady env fun e => P e.store where
  changes _ _ change holds := keep _ _ change holds
  flags _ _ _ _ holds := holds
  creates _ _ holds := holds
  starts n := keeps_onInstance (fun s t write => keep s t (.writes write)) n fun _ _ => wrote_start
  completes n name context := keeps_onInstance (fun s t write => keep s t (.writes write)) n fun _ _ =>
    wrote_complete name context

/-! ### Runs of the engine -/

/-- A call of a manager, or what happens besides. -/
inductive Call where
  | startJobPlan (id : Nat) (args : Option String)
  | executeJobPlanNode (id : Nat) (type : XjobExecutorType) (args : Option String)
  | handlejobProgress (cluster : String) (jobProgress : JobProgress)
  | autoTimeOutHandlejobProgress
  | elsewhere (s : Store)
  | restart (s : Store)

/-- Code outside the managers writes neither the rows nor the entries nor the registered
runs. -/
structure Elsewhere (s t : Store) : Prop where
  later : s.tick ≤ t.tick
  xjobStates : t.xjobStates = s.xjobStates
  lastXjobStateID : t.lastXjobStateID = s.lastXjobStateID
  workflowsMap : t.workflowsMap = s.workflowsMap
  jobNodeRuningInfosMap : t.jobNodeRuningInfosMap = s.jobNodeRuningInfosMap

/-- A restarted engine has the tables and nothing else. -/
structure Restarted (s t : Store) : Prop where
  later : s.tick ≤ t.tick
  xjobStates : t.xjobStates = s.xjobStates
  lastXjobStateID : t.lastXjobStateID = s.lastXjobStateID
  workflowsMap : t.workflowsMap = ∅
  jobNodeRuningInfosMap : t.jobNodeRuningInfosMap = ∅

inductive Step (env : Env) : Engine → Call → Engine → Prop where
  | starts {e id args} : Step env e (.startJobPlan id args) (after (startJobPlan env id args e))
  | executes {e id type args} :
    Step env e (.executeJobPlanNode id type args) (after (executeJobPlanNode env id type args e))
  | handles {e cluster jobProgress} :
    Step env e (.handlejobProgress cluster jobProgress) (after (handlejobProgress env cluster jobProgress e))
  | sweeps {e} : Step env e .autoTimeOutHandlejobProgress (after (autoTimeOutHandlejobProgress env e))
  | elsewhere {e s} (other : Elsewhere e.store s) : Step env e (.elsewhere s) { e with store := s }
  | restarts {e s} (restarted : Restarted e.store s) : Step env e (.restart s) { store := s }

/-- An engine starts with what is in its tables. -/
def system (env : Env) (initial : Engine → Prop) : System Engine Call := ⟨initial, Step env⟩

theorem Steady.step {env : Env} {J : Engine → Prop} (steady : Steady env J)
    (elsewhere : ∀ e s, Elsewhere e.store s → J e → J { e with store := s })
    (restarts : ∀ e s, Restarted e.store s → J e → J { store := s }) {e t : Engine} {call : Call}
    (step : Step env e call t) (holds : J e) : J t := by
  cases step with
  | starts => exact (steady.startJobPlan _ _).after holds
  | executes => exact (steady.lasting.enduring.executeJobPlanNode _ _ _).after holds
  | handles => exact (steady.lasting.enduring.handlejobProgress _ _).after holds
  | sweeps => exact steady.lasting.enduring.autoTimeOutHandlejobProgress.after holds
  | elsewhere other => exact elsewhere e _ other holds
  | restarts restarted => exact restarts e _ restarted holds

end Engine

end Hella

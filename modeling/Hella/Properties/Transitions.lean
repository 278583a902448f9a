import Hella.Control.Spent
import Hella.Properties.Notices

/-!
# One transition for each activation

Reports and timeout sweeps both complete nodes, and neither looks at the row again before it
does. The sweep has read its rows earlier, so it is taken here row by row, with whatever
happens in between. As long as what completes a row finds it running and writes its result,
every row, and so every dispatch of an action, is left at most once.
-/
namespace Hella

open Exec Runs Text ForkJoin

/-! ### The rows and the instances -/

theorem total_eraseIdx {α : Type} (weight : α → Nat) {items : List α} {n : Nat} {a : α} (there : items[n]? = some a) :
    total weight items = total weight (items.eraseIdx n) + weight a := by
  induction items generalizing n with
  | nil => simp at there
  | cons first rest ih =>
    cases n with
    | zero =>
      obtain rfl : first = a := by simpa using there
      simp [Nat.add_comm]
    | succ n =>
      have later := ih (by simpa using there)
      simp only [List.eraseIdx_cons_succ, total_cons]
      omega

theorem total_set {α : Type} (weight : α → Nat) {items : List α} {n : Nat} (inside : n < items.length) (b : α) :
    total weight (items.set n b) = total weight (items.eraseIdx n) + weight b := by
  rw [total_eraseIdx weight (List.getElem?_set_self inside), List.eraseIdx_set_eq]

theorem total_modify {α : Type} (weight : α → Nat) {f : α → α} (same : ∀ a, weight (f a) = weight a) (items : List α)
    (n : Nat) : total weight (items.modify n f) = total weight items := by
  induction items generalizing n with
  | nil => simp
  | cons first rest ih =>
    cases n with
    | zero => simp [same]
    | succ n => simp [ih]

namespace Engine

variable {env : Env} {e t : Engine} {n : Nat} {α : Type}

/-- How often the instances have left an action for the row. -/
def transitions (e : Engine) (id : Nat) : Nat := total (fun i => Hella.transitions i.workflow id i.trace) e.instances

/-- No row has been left more than once, and none that is still running. -/
structure Single (e : Engine) : Prop where
  store : e.store.Unspent fun id => 0 < e.transitions id
  once : ∀ id, e.transitions id ≤ 1
  saved : e.transitions 0 = 0

namespace Single

theorem of_store (single : e.Single) {s : Store} (rows : s.xjobStates = e.store.xjobStates)
    (last : s.lastXjobStateID = e.store.lastXjobStateID) : Single { e with store := s } where
  store := single.store.of_same rows last
  once := single.once
  saved := single.saved

theorem of_transitions (single : e.Single) (store : t.store = e.store)
    (same : ∀ id, t.transitions id = e.transitions id) : t.Single where
  store := by simpa only [store, same] using single.store
  once id := same id ▸ single.once id
  saved := (same 0).trans single.saved

theorem flags (single : e.Single) {f : Instance → Instance}
    (same : ∀ i, (f i).workflow = i.workflow ∧ (f i).trace = i.trace) :
    Single { e with instances := e.instances.modify n f } :=
  single.of_transitions rfl fun _ => total_modify _ (fun i => by rw [(same i).1, (same i).2]) _ _

theorem noticed (single : e.Single) {s : Store} (noticed : Noticed e.store s) : Single { e with store := s } :=
  single.of_store (by rw [noticed.rest]) (by rw [noticed.rest])

/-- Code on the store that leaves the rows alone. -/
theorem onShared {body : StoreM α}
    (rests : ∀ rows last, Keeps (fun s : Store => s.xjobStates = rows ∧ s.lastXjobStateID = last) body) :
    Keeps Single (onShared body) := by
  apply Keeps.of_after
  intro e single
  have same := (rests e.store.xjobStates e.store.lastXjobStateID).after ⟨rfl, rfl⟩
  rw [onShared_apply]
  cases result : body e.store <;> simp only [result, after_ok, after_error] at same ⊢ <;>
    exact single.of_store same.1 same.2

theorem returning {body : StoreM α} (returns : ∀ s, Returns body s fun _ => Noticed s) :
    Keeps Single (Engine.onShared body) := by
  apply Keeps.of_after
  intro e single
  obtain ⟨a, s, returned, noticed⟩ := returns e.store
  rw [onShared_apply, returned]
  exact single.noticed noticed

/-- What an instance does is counted with what the others have done. -/
theorem onInstance {body : Workflow → RunM α} (single : e.Single)
    (keeps : ∀ i, e.instances[n]? = some i → ∀ others, Triple (fun s => s.Single i.workflow others ∧ s = i.run e.store)
      (body i.workflow) (fun _ => Run.Single i.workflow others) fun _ => Run.Single i.workflow others) :
    Triple (· = e) (onInstance n body) (fun _ => Single) fun _ => Single := by
  intro s (same : s = e)
  subst s
  unfold Engine.onInstance
  cases there : e.instances[n]? with
  | none => exact single
  | some i =>
    let weight (id : Nat) (j : Instance) := Hella.transitions j.workflow id j.trace
    let others (id : Nat) := total (weight id) (e.instances.eraseIdx n)
    have before (id : Nat) : others id + weight id i = e.transitions id := (total_eraseIdx (weight id) there).symm
    have whole (s : Run) (id : Nat) : (e.save n i s).transitions id =
      others id + Hella.transitions i.workflow id s.trace :=
      total_set (weight id) (List.getElem?_eq_some_iff.mp there).1 (i.save s)
    have pre : (i.run e.store).Single i.workflow others := by
      obtain ⟨store, once, saved⟩ := single
      simp only [← before] at store once saved
      exact ⟨store, once, saved⟩
    have post (s : Run) (holds : s.Single i.workflow others) : Single (e.save n i s) := by
      obtain ⟨store, once, saved⟩ := holds
      simp only [← whole] at store once saved
      exact ⟨store, once, saved⟩
    have result := keeps i there others _ ⟨pre, rfl⟩
    dsimp only
    cases same : body i.workflow (i.run e.store) <;> simp only [same] at result ⊢ <;> exact post _ result

/-- Starting an instance moves no action on. -/
theorem starts (n : Nat) : Keeps Single (Engine.onInstance n (start env)) := by
  apply Triple.pointwise
  intro e single
  refine onInstance single fun i _ others => ?_
  exact (single_start env i.workflow).conseq (fun _ pre => pre.1) (fun _ _ post => post) fun _ _ post => post

end Single

/-- Completing the row moves nothing on, or it finds the row running and writes its result, the
given number of requests later. -/
def Clear (env : Env) (e : Engine) (n id later : Nat) : Prop :=
  (∃ i, e.instances[n]? = some i ∧ i.status.isEndState = true) ∨
    e.store.Running id ∧ env.daoSucceeds (e.store.tick + later) = true

theorem single_completes (single : e.Single) {name : String} {report : JobProgress}
    (clear : Clear env e n report.xjobStateID 1) :
    Triple (· = e) (onInstance n fun wf => completeJobPlanNode env wf name { jobProgress := some report })
      (fun _ => Single) fun _ => Single := by
  refine Single.onInstance single fun i there others => ?_
  refine (single_completeJobPlanNode env i.workflow name { jobProgress := some report }).conseq ?_
    (fun _ _ post => post) fun _ _ post => post
  rintro _ ⟨holds, rfl⟩
  refine ⟨holds, ?_⟩
  obtain ⟨j, same, ended⟩ | clear := clear
  · cases there.symm.trans same
    exact .inl ended
  · exact .inr clear

/-! ### Reports -/

section Reports

variable {cluster : String} {report : JobProgress} {type : XjobExecutorType} {state : JobPlanNodeState}
  {info : JobNodeRuningInfo} {i : Instance}

theorem single_forgotten (single : e.Single) (eventID : String) : Single { e with store := e.forgotten eventID } :=
  single.of_store rfl rfl

/-- The row is overwritten, which is harmless for one that is running or becomes closed. -/
theorem single_aside (single : e.Single) (reads : report.Reads type state)
    (found : e.runingInfo? report.eventID = some info)
    (aside : Aside type state) (clear : state.isRunningState = true → e.store.Running info.xjobStateID) :
    Single (after (handlejobProgress env cluster report e)) := by
  rw [handlejobProgress_aside reads found aside]
  split
  · have forgot : (e.forgotten report.eventID).Unspent fun id => 0 < e.transitions id := single.store.of_same rfl rfl
    refine ⟨forgot.update fun running row member same => ?_, single.once, single.saved⟩
    exact single.store.running row member (clear running row member same)
  · exact single_forgotten single _

theorem single_result (single : e.Single) (reads : report.Reads type state)
    (found : e.runingInfo? report.eventID = some info)
    (flow : ¬ Aside type state) (there : e.getWorkflow? info.workflowRunKey = some (n, i))
    (result : state.isResultState = true) (clear : Clear env e n info.xjobStateID 1) :
    Single (after (handlejobProgress env cluster report e)) := by
  rw [handlejobProgress_result reads found flow there result]
  have told := @single_completes env e n single info.jobNodeName { report with xjobStateID := info.xjobStateID } clear
  have handled : Triple (· = e) (completeJobProgress env cluster info.jobNodeName n
      { report with xjobStateID := info.xjobStateID } state >>= fun _ =>
        onShared (Store.removeJobNodeRuningInfo report.eventID)) (fun _ => Single) fun _ => Single := by
    refine Triple.bind (Triple.bind told fun _ => Keeps.getting.bind fun t => ?_) fun _ => ?_
    · split
      · exact Keeps.throw _
      · exact (Single.returning (alarmFailure_noticed env _ _ _ _ _)).bind fun _ =>
          Single.returning (alarmLateSuccess_noticed env _ _ _ _)
    · exact Single.onShared fun _ _ => Keeps.modifying fun _ same => same
  exact Triple.after handled rfl

/-- What a report completes is running, or the instance has ended. -/
def ReportClear (env : Env) (e : Engine) (report : JobProgress) : Prop :=
  ∀ type state info, report.Reads type state → e.runingInfo? report.eventID = some info →
    (Aside type state → state.isRunningState = true → e.store.Running info.xjobStateID) ∧
    (¬ Aside type state → state.isResultState = true → ∀ n i, e.getWorkflow? info.workflowRunKey = some (n, i) →
      Clear env e n info.xjobStateID 1)

theorem single_handlejobProgress (single : e.Single) (cluster : String) (clear : ReportClear env e report) :
    Single (after (handlejobProgress env cluster report e)) := by
  by_cases valid : ∃ type state, report.Reads type state
  · obtain ⟨type, state, reads⟩ := valid
    cases found : e.runingInfo? report.eventID with
    | none =>
      rw [handlejobProgress_missing reads found]
      exact single
    | some info =>
      obtain ⟨noted, completed⟩ := clear type state info reads found
      by_cases aside : Aside type state
      · exact single_aside single reads found aside (noted aside)
      · cases there : e.getWorkflow? info.workflowRunKey with
        | none =>
          rw [handlejobProgress_gone reads found aside there]
          refine Single.onShared (fun _ _ => Keeps.modifying fun s same => ?_) |>.after single
          dsimp only
          split <;> exact same
        | some run =>
          obtain ⟨n, i⟩ := run
          cases result : state.isResultState with
          | false =>
            rw [handlejobProgress_early reads found aside there result]
            exact single
          | true => exact single_result single reads found aside there result (completed aside result n i there)
  · rw [handlejobProgress_malformed fun type state reads => valid ⟨type, state, reads⟩]
    exact single

end Reports

/-! ### Rows of a sweep -/

section Sweeps

variable {x : XjobState}

theorem single_ticked (single : e.Single) : e.ticked.Single := single.of_store rfl rfl

/-- By now the job of the row has taken more than `jobKillTimes` its delay, as the sweep multiplies. -/
def Expires (env : Env) (tick : Nat) (node : JobPlanNode) (runTime : Option String) : Prop :=
  ∃ text minutes, runTime = some text ∧ env.elapsedMinutes tick text = some minutes ∧
    minutes > toInt (jobKillTimes * delayTime env node)

theorem single_timeOutHandle (single : e.Single) {node : JobPlanNode} {report : JobProgress}
    (clear : Expires env e.store.tick node report.runTime → Clear env e n report.xjobStateID 2) :
    Single (after (timeOutHandle env n node report e)) := by
  unfold timeOutHandle
  cases given : report.runTime with
  | none => exact single
  | some text =>
    dsimp only
    split
    · exact single
    · have asked : onShared Store.request e = .ok e.store.tick e.ticked := rfl
      rw [bind_ok asked]
      cases elapsed : env.elapsedMinutes e.store.tick text with
      | none => exact single_ticked single
      | some minutes =>
        dsimp only
        rw [← delayTime]
        split
        · exact single_ticked single
        · let flagged : Engine := e.ticked.timedOut n
          have flags : flagged.Single := (single_ticked single).flags fun _ => ⟨rfl, rfl⟩
          have marked : modifyInstance n ({ · with timeOut := true }) e.ticked = .ok () flagged := rfl
          rw [bind_ok marked]
          refine Triple.after (P := (· = flagged)) ?_ rfl
          split
          next late =>
            -- the flag is no part of the status, so the row is as clear as it was
            have still : Clear env flagged n report.xjobStateID 1 := by
              obtain ⟨i, there, ended⟩ | clear := clear ⟨text, minutes, given, elapsed, late⟩
              · refine .inl ⟨{ i with timeOut := true }, ?_, ended⟩
                simp [flagged, timedOut, ticked, there]
              · exact .inr clear
            refine Triple.bind (single_completes flags (by exact still)) fun _ => ?_
            split
            · refine Keeps.getting.bind fun t => ?_
              split
              · exact (Keeps.throw _).bind fun _ => Keeps.pure _
              · exact (Single.returning (pauseJobExecutionPlan_noticed env _)).bind fun _ => Keeps.pure _
            · exact Keeps.pure _
          · exact Triple.pure fun t same => same ▸ flags

/-- What a row the sweep looks at completes is running, or the instance has ended. -/
def RowClear (env : Env) (e : Engine) (n : Nat) (x : XjobState) : Prop :=
  x.jobPlanNodeState.isRunningState = true → ∀ node, e.store.jobPlanNode? x.jobPlanNodeID = some node →
    Expires env (e.store.tick + 1) node x.runTime → Clear env e n x.id 3

theorem single_timeOutRow (single : e.Single) (clear : RowClear env e n x) : Single (after (timeOutRow env n x e)) := by
  unfold timeOutRow
  split
  next running =>
    rw [bind_apply, onShared_queryJobPlanNodeByID]
    by_cases none_ : x.jobPlanNodeID = 0
    · rw [if_pos none_]
      exact single
    · rw [if_neg none_]
      by_cases succeeds : env.daoSucceeds e.store.tick = true
      · rw [if_pos succeeds]
        cases found : e.store.jobPlanNode? x.jobPlanNodeID with
        | none => exact single_ticked single
        | some node =>
          dsimp only
          have now := single_ticked single
          refine Triple.after (P := (· = e.ticked)) (Triple.bind (Q := fun _ => Single) ?_ fun runInfo => ?_) rfl
          · apply Triple.of_after
            rintro t rfl
            exact single_timeOutHandle now (by exact clear running node found)
          · refine Keeps.getting.bind fun t => ?_
            split
            · exact Keeps.throw _
            · split
              · refine (Single.returning (trySendSubscribe_noticed env _ _ _ _ _)).bind fun sent => ?_
                split
                · exact Keeps.modifying fun t single => single.flags fun _ => ⟨rfl, rfl⟩
                · exact Keeps.pure _
              · exact Keeps.pure _
      · rw [if_neg succeeds]
        exact single_ticked single
  · exact single

end Sweeps

/-! ### The other calls -/

/-- A DAO call that only reads. -/
theorem rests_daoCall (rows : List XjobState) (last : Nat) :
    Keeps (fun s : Store => s.xjobStates = rows ∧ s.lastXjobStateID = last) (Store.daoCall env) := by
  apply Keeps.of_after
  intro s same
  rw [Store.daoCall_apply]
  split <;> exact same

theorem single_startJobPlan (id : Nat) (args : Option String) : Keeps Single (startJobPlan env id args) := by
  refine Keeps.bind (Single.onShared fun rows last => ?_) fun plan => ?_
  · have reads : Keeps (fun s : Store => s.xjobStates = rows ∧ s.lastXjobStateID = last)
      (Store.queryJobPlan env id) := by
      unfold Store.queryJobPlan
      split
      · exact Keeps.pure _
      · exact (rests_daoCall rows last).bind fun _ => Keeps.getting.bind fun _ => Keeps.pure _
    refine reads.bind fun plan => ?_
    split
    · exact Keeps.pure _
    · exact (rests_daoCall rows last).bind fun _ => (rests_daoCall rows last).bind fun _ =>
        Keeps.getting.bind fun _ => Keeps.pure _
  · split
    · exact Keeps.pure _
    · split
      · exact Keeps.throw _
      · refine Keeps.bind (Single.onShared fun _ _ => Keeps.bind (fun s same => same) fun _ => Keeps.pure _)
          fun key => ?_
        refine Keeps.bind ?_ fun n => (Single.starts n).bind fun _ => Single.onShared fun _ _ =>
          Keeps.modifying fun _ same => same
        -- a new instance has left nothing yet
        exact fun e single => single.of_transitions rfl fun id => by simp [transitions]

/-- What is done by hand has a row of its own and goes through no instance. -/
theorem single_executeJobPlanNode (id : Nat) (type : XjobExecutorType) (args : Option String) :
    Keeps Single (executeJobPlanNode env id type args) := by
  refine Triple.pointwise fun e single => ?_
  let J (t : Engine) : Prop := t.instances = e.instances ∧ t.store.Unspent fun id => 0 < e.transitions id
  have rests {α : Type} {body : StoreM α}
      (keeps : Keeps (fun s : Store => s.Unspent fun id => 0 < e.transitions id) body) : Keeps J (onShared body) :=
    keeps.zoom (fun _ holds => holds.2) fun _ _ holds store => ⟨holds.1, store⟩
  have asks : Keeps (fun s : Store => s.Unspent fun id => 0 < e.transitions id) Store.request :=
    fun s holds => holds.of_same rfl rfl
  have dao : Keeps (fun s : Store => s.Unspent fun id => 0 < e.transitions id) (Store.daoCall env) := by
    refine asks.bind fun _ => ?_
    split
    · exact Keeps.pure _
    · exact Keeps.throw _
  have all : Keeps J (executeJobPlanNode env id type args) := by
    refine Keeps.bind (rests ?_) fun node => ?_
    · unfold Store.queryJobPlanNodeByID
      split
      · exact Keeps.pure _
      · exact dao.bind fun _ => Keeps.getting.bind fun _ => Keeps.pure _
    split
    · exact Keeps.throw _
    next node =>
      refine (rests (asks.bind fun _ => Keeps.pure _)).bind fun key =>
        (rests (asks.bind fun _ => Keeps.pure _)).bind fun date => ?_
      -- the row that is saved has a new id, so that it may be written again
      refine Triple.bind (Q := fun row t => J t ∧ ¬ 0 < e.transitions row.id) ?_ fun row => ?_
      · rintro t ⟨same, unspent⟩
        rw [onShared_apply, Store.addJobState, bind_apply, Store.daoCall_apply]
        by_cases succeeds : env.daoSucceeds t.store.tick = true
        · rw [if_pos succeeds]
          have asked := unspent.of_same (t := { t.store with tick := t.store.tick + 1 }) rfl rfl
          exact ⟨⟨same, asked.insert _⟩, asked.fresh⟩
        · rw [if_neg succeeds]
          exact ⟨same, unspent.of_same rfl rfl⟩
      · apply Triple.of_imp (p := ¬ 0 < e.transitions row.id)
        · intro fresh
          have runs : Keeps J (catching Throwable.isException
              (do let _ ← onShared (Store.executeXJob env row.currentExecutorKey node row.id type args); return true)
              fun _ => return false) := by
            refine Keeps.catching (Keeps.bind (rests (Keeps.of_after fun s holds => ?_)) fun _ => Keeps.pure _)
              fun _ _ => Keeps.pure _
            cases given : node.xjobMeta with
            | none =>
              rw [Store.executeXJob_none env given]
              exact holds.of_same rfl rfl
            | some xjobMeta =>
              rw [Store.executeXJob_some env given]
              exact holds.of_same rfl rfl
          refine Triple.conseq (runs.bind fun started => Keeps.bind (rests ?_) fun _ => Keeps.pure _)
            (fun _ pre => pre.1)
            (fun _ _ post => post) fun _ _ post => post
          refine dao.bind fun _ => Keeps.modifying fun s holds => holds.update fun _ stored _ same => ?_
          rw [same]
          cases started <;> exact fresh
        · exact fun _ pre => pre.2
  have back (t : Engine) (holds : J t) : t.Single := by
    obtain ⟨same, unspent⟩ := holds
    have counts (id : Nat) : t.transitions id = e.transitions id := by rw [transitions, same, transitions]
    exact ⟨by simpa only [counts] using unspent, fun id => counts id ▸ single.once id, (counts 0).trans single.saved⟩
  refine all.conseq ?_ (fun _ t post => back t post) fun _ t post => back t post
  rintro _ rfl
  exact ⟨rfl, single.store⟩

/-! ### Runs -/

/-- A call of a manager, one row of a sweep, or what happens besides. -/
inductive Drive where
  | startJobPlan (id : Nat) (args : Option String)
  | executeJobPlanNode (id : Nat) (type : XjobExecutorType) (args : Option String)
  | handlejobProgress (cluster : String) (jobProgress : JobProgress)
  | timeOutRow (n : Nat) (row : XjobState)
  | elsewhere (s : Store)
  | restart (s : Store)

/-- The row of a sweep is any row, since it was read some time before. -/
inductive Drives (env : Env) : Engine → Drive → Engine → Prop where
  | starts {e id args} : Drives env e (.startJobPlan id args) (after (startJobPlan env id args e))
  | executes {e id type args} :
    Drives env e (.executeJobPlanNode id type args) (after (executeJobPlanNode env id type args e))
  | handles {e cluster jobProgress} :
    Drives env e (.handlejobProgress cluster jobProgress) (after (handlejobProgress env cluster jobProgress e))
  | looks {e n row} : Drives env e (.timeOutRow n row) (after (timeOutRow env n row e))
  | elsewhere {e s} (other : Elsewhere e.store s) : Drives env e (.elsewhere s) { e with store := s }
  | restarts {e s} (restarted : Restarted e.store s) : Drives env e (.restart s) { store := s }

/-- An engine starts with what is in its tables. -/
def drives (env : Env) : System Engine Drive := ⟨fun e => e.instances = [] ∧ e.store.Numbered, Drives env⟩

/-- What completes a row finds it running and writes its result, unless the instance has ended. -/
def Rereads (env : Env) (e : Engine) : Drive → Prop
  | .handlejobProgress _ jobProgress => ReportClear env e jobProgress
  | .timeOutRow n row => RowClear env e n row
  | _ => True

/-- Steps of a sweep: a row is looked at, or the database is asked. -/
def Sweeping (env : Env) (e t : Engine) : Prop :=
  (∃ n row, Drives env e (.timeOutRow n row) t) ∨ ∃ s, Drives env e (.elsewhere s) t

theorem sweeping_query (env : Env) (key : String) (e : Engine) :
    Sweeping env e (after (onShared (Store.queryXjobStateByCurrentExecutorKey env key) e)) := by
  have later : Sweeping env e e.ticked := .inr ⟨_, .elsewhere ⟨Nat.le_succ _, rfl, rfl, rfl, rfl⟩⟩
  rw [onShared_apply, Store.queryXjobStateByCurrentExecutorKey, bind_apply, Store.daoCall_apply]
  by_cases succeeds : env.daoSucceeds e.store.tick = true
  · rw [if_pos succeeds]
    exact later
  · rw [if_neg succeeds]
    exact later

theorem sweeping_rows (env : Env) (n : Nat) (rows : List XjobState) (e : Engine) :
    Relation.ReflTransGen (Sweeping env) e (after (rows.forM (timeOutRow env n) e)) := by
  induction rows generalizing e with
  | nil => exact .refl
  | cons x rows ih =>
    have looked : Sweeping env e (after (timeOutRow env n x e)) := .inl ⟨n, x, .looks⟩
    cases result : timeOutRow env n x e with
    | error thrown t =>
      have ends : (x :: rows).forM (timeOutRow env n) e = .error thrown t := bind_error result
      rw [result] at looked
      rw [ends]
      exact .single looked
    | ok _ t =>
      have goes : (x :: rows).forM (timeOutRow env n) e = rows.forM (timeOutRow env n) t := bind_ok result
      rw [result] at looked
      rw [goes]
      exact .head looked (ih t)

/-- A whole sweep is made of such steps, in which other steps may come at any point. -/
theorem sweeping_timeOutRuns (env : Env) (keys : List String) (e : Engine) :
    Relation.ReflTransGen (Sweeping env) e (after (timeOutRuns env keys e)) := by
  induction keys generalizing e with
  | nil => exact .refl
  | cons key keys ih =>
    have reads {f : Engine → EngineM Unit} : (get >>= f) e = f e e := rfl
    rw [timeOutRuns, reads]
    cases e.getWorkflow? key with
    | none => exact .refl
    | some run =>
      obtain ⟨n, i⟩ := run
      have queried := sweeping_query env key e
      dsimp only
      cases result : onShared (Store.queryXjobStateByCurrentExecutorKey env key) e with
      | error thrown t =>
        rw [bind_error result]
        rw [result] at queried
        exact .single queried
      | ok rows t =>
        rw [bind_ok result]
        rw [result] at queried
        cases rows with
        | nil => exact .single queried
        | cons x rows =>
          have looked := sweeping_rows env n (x :: rows) t
          dsimp only
          cases loop : (x :: rows).forM (timeOutRow env n) t with
          | error thrown u =>
            rw [bind_error loop]
            rw [loop] at looked
            exact .head queried looked
          | ok _ u =>
            rw [bind_ok loop]
            rw [loop] at looked
            exact .head queried (looked.trans (ih u))

theorem single_of_reachable (reachable : Reachable (drives env) (Rereads env) e) : e.Single := by
  apply reachable.invariant
  · rintro e ⟨none_, numbered⟩
    have zero (id : Nat) : e.transitions id = 0 := by simp [transitions, none_]
    exact ⟨⟨numbered, fun _ _ _ => by simp [zero], fun id => by simp [zero]⟩, fun id => by simp [zero], zero 0⟩
  · rintro e drive t single rereads step
    cases step with
    | starts => exact (single_startJobPlan _ _).after single
    | executes => exact (single_executeJobPlanNode _ _ _).after single
    | handles => exact single_handlejobProgress single _ rereads
    | looks => exact single_timeOutRow single rereads
    | elsewhere other => exact single.of_store other.xjobStates other.lastXjobStateID
    | restarts restarted =>
      have numbered := single.store.of_same restarted.xjobStates restarted.lastXjobStateID
      exact ⟨⟨numbered.numbered, fun _ _ _ => by simp [transitions], fun id => by simp [transitions]⟩,
        fun id => by simp [transitions], by simp [transitions]⟩

/-- In such a run every row is left at most once, and a row that has been left is not running. -/
theorem left_once (reachable : Reachable (drives env) (Rereads env) e) (id : Nat) :
    e.transitions id ≤ 1 ∧ (0 < e.transitions id → e.store.Closed id) := by
  have single := single_of_reachable reachable
  refine ⟨single.once id, fun spent row member same => ?_⟩
  by_contra running
  exact single.store.running row member (by simpa using running) (same ▸ spent)

end Engine

/-! ### A report and a sweep -/

namespace Raced

open Engine

/-- Jobs have been running for 400 minutes, the default timeout is 60. -/
def env : Env := { Env.calm with elapsedMinutes := fun _ _ => some 400 }

def fresh : Engine := { store := { jobPlans := [Diamond.plan], executorRegisterDateMap := ["c"] } }

def started : Engine := after (startJobPlan env 1 none fresh)

def success : JobProgress :=
  { executorType := "Auto", jobPlanNodeState := JobPlanNodeState.resultSuccess.name, eventID := "1270011014" }

/-- The job of `a` has succeeded. -/
def reported : Engine := after (handlejobProgress env "c" success started)

def row (id jobPlanNodeID : Nat) : XjobState :=
  { id := id, jobPlanNodeID := jobPlanNodeID, currentExecutorKey := "10031", jobPlanNodeState := .notifySuccess
    runInfo := some "", runTime := some "20140129120000" }

/-- A sweep completes the row of `x`. -/
def swept : Engine := after (timeOutRow env 0 (row 3 4) reported)

theorem started_reachable (guard : Engine → Drive → Prop) (admits : guard fresh (.startJobPlan 1 none)) :
    Reachable (drives env) guard started := by
  have numbered : fresh.store.Numbered := ⟨⟨by simp [fresh], by simp [fresh]⟩, by simp [fresh]⟩
  exact .next (.start ⟨rfl, numbered⟩) admits .starts

end Raced

/-- Every row is left at most once after the report and the sweep of another row. -/
theorem left_once_raced : Raced.swept.transitions 2 = 1 ∧ Raced.swept.transitions 3 ≤ 1 := by
  have running : Raced.started.store.Running 2 ∧ Raced.reported.store.Running 3 := by decide +kernel
  have noted : Raced.started.runingInfo? Raced.success.eventID = some ⟨"a", 2, "10031"⟩ := by decide +kernel
  refine ⟨by decide +kernel, (@Engine.left_once Raced.env _ ?_ 3).1⟩
  refine .next (.next (Raced.started_reachable _ trivial) ?_ .handles) ?_ .looks
  · rintro type state info reads found
    cases noted.symm.trans found
    exact ⟨fun _ _ => running.1, fun _ _ _ _ _ => .inr ⟨running.1, rfl⟩⟩
  · exact fun _ _ _ _ => .inr ⟨running.2, rfl⟩

/-- A sweep that read the row of `a` before the report completes it again. -/
theorem left_twice : ∃ e, Reachable (Engine.drives Raced.env) (fun _ _ => True) e ∧ e.transitions 2 = 2 :=
  ⟨after (Engine.timeOutRow Raced.env 0 (Raced.row 2 2) Raced.reported),
    .next (.next (Raced.started_reachable _ trivial) trivial .handles) trivial .looks, by decide +kernel⟩

end Hella

import Hella.Control.Apart
import Hella.Properties.Sweep
import Mathlib.Algebra.GroupWithZero.Nat

/-!
# Timeout notices

An instance has two flags, shared by all its nodes: a job has taken too long, and the
subscribers know. The sweep sets them and never clears them; the first one decides with
the second whether the next result of any node is announced as a late success. A run is
watched here with the notices each call sent and with the nodes the sweeps have found
over their delay.
-/
namespace Hella

open Exec Runs Text

namespace Engine

variable {env : Env} {e t u : Engine} {n : Nat}

/-- `timeOut` and `hasAlarm` of an instance; it is created with neither. -/
def flags (e : Engine) (n : Nat) : Bool × Bool :=
  (e.instances[n]?.map fun i => (i.timeOut, i.hasAlarm)).getD (false, false)

/-- Subscribers are told nothing and no flag changes. -/
structure Silent (e t : Engine) : Prop where
  notices : t.store.notices = e.store.notices
  flags : ∀ n, t.flags n = e.flags n
  grows : e.instances.length ≤ t.instances.length

namespace Silent

theorem refl (e : Engine) : Silent e e := ⟨rfl, fun _ => rfl, le_rfl⟩

theorem trans (first : Silent e t) (second : Silent t u) : Silent e u where
  notices := second.notices.trans first.notices
  flags n := (second.flags n).trans (first.flags n)
  grows := first.grows.trans second.grows

/-- Code on the store that keeps the notices. -/
theorem onShared {α : Type} {body : StoreM α} (keeps : ∀ notices, Keeps (fun s : Store => s.notices = notices) body) :
    Keeps (Silent e) (onShared body) := by
  apply Keeps.of_after
  intro t silent
  have kept := (keeps t.store.notices).after rfl
  rw [onShared_apply]
  cases result : body t.store with
  | ok a s | error thrown s =>
    rw [result] at kept
    exact silent.trans ⟨kept, fun _ => rfl, le_rfl⟩

theorem write {s s' : Store} (write : Store.Write env s s') : s'.notices = s.notices := by cases write <;> rfl

theorem writes {s s' : Store} (writes : Store.Writes env s s') : s'.notices = s.notices :=
  writes.keeps (J := fun t => t.notices = s.notices) (fun _ _ one same => (write one).trans same) rfl

theorem spends {α : Type} {body : StoreM α} (spends : ∀ s, Store.Spends env s body) :
    Keeps (Silent e) (Engine.onShared body) := by
  apply onShared
  intro notices
  apply Keeps.of_after
  intro s same
  exact (writes ((spends s).keeps.after .refl)).trans same

theorem flags_save {i : Instance} (there : e.instances[n]? = some i) (s : Run) (m : Nat) :
    (e.save n i s).flags m = e.flags m := by
  by_cases own : m = n
  · subst own
    simp [Engine.flags, save_there there, there, Instance.save]
  · simp [Engine.flags, save, Ne.symm own]

/-- An instance leaves its flags to the manager. -/
theorem onInstance {α : Type} (n : Nat) {body : Workflow → RunM α} (wrote : ∀ wf s, Keeps (Wrote env s) (body wf)) :
    Keeps (Silent e) (onInstance n body) := by
  apply Keeps.of_after
  intro t silent
  unfold Engine.onInstance
  split
  · exact silent
  next i there =>
    have wrote_ := (wrote i.workflow t.store).after (s := i.run t.store) .refl
    have saved (s : Run) (written : Wrote env t.store s) : Silent t (t.save n i s) :=
      ⟨writes written, flags_save there s, by simp [save]⟩
    split
    next a s returned =>
      rw [returned] at wrote_
      exact silent.trans (saved s wrote_)
    next thrown s failed =>
      rw [failed] at wrote_
      exact silent.trans (saved s wrote_)

theorem completes (n : Nat) (name : String) (context : NodeContext) :
    Keeps (Silent e) (Engine.onInstance n fun wf => completeJobPlanNode env wf name context) :=
  onInstance n fun _ _ => wrote_complete name context

theorem pauses (plan : JobExecutionPlan) : Keeps (Silent e)
    (Engine.onShared (Store.pauseJobExecutionPlan env plan)) := by
  apply onShared
  intro notices
  refine Keeps.bind (fun s same => same) fun tick => ?_
  split
  · refine Keeps.catching (Keeps.bind ?_ fun _ => Keeps.pure _) fun _ _ => Keeps.pure _
    apply Keeps.of_after
    intro s same
    rw [updateJobPlanState_apply]
    split <;> exact same
  · exact Keeps.pure _

end Silent

/-! ### What the rest of the engine does -/

theorem silent_executeJobPlanNode (id : Nat) (type : XjobExecutorType) (args : Option String) :
    Keeps (Silent e) (executeJobPlanNode env id type args) := by
  apply (Silent.spends fun _ => Store.writes_queryJobPlanNodeByID id).bind
  intro node
  split
  · exact Keeps.throw _
  · apply (Silent.spends fun _ => Store.writes_generateID).bind
    intro key
    apply (Silent.spends fun _ => Store.writes_newDate).bind
    intro date
    apply (Silent.spends fun _ => Store.writes_addJobState _).bind
    intro row
    apply Keeps.bind
    · apply Keeps.catching _ fun _ _ => Keeps.pure false
      exact Keeps.bind (Silent.spends fun _ => Store.writes_executeXJob _ _ _ _ _) fun _ => Keeps.pure true
    · intro started
      exact (Silent.spends fun _ => Store.writes_updJobState _).bind fun _ => Keeps.pure _

/-- A new instance has no flag set. -/
theorem silent_startJobPlan (id : Nat) (args : Option String) : Keeps (Silent e) (startJobPlan env id args) := by
  apply (Silent.spends fun _ => Store.writes_loadJobExecutionPlan id).bind
  intro plan
  split
  · exact Keeps.pure _
  · split
    · exact Keeps.throw _
    next plan accepted =>
      apply (Silent.spends fun _ => Store.writes_generateID).bind
      intro key
      apply Keeps.bind
      · intro t silent
        refine silent.trans ⟨rfl, fun n => ?_, by simp⟩
        simp only [flags, List.getElem?_append]
        split
        · rfl
        next past =>
          rw [List.getElem?_eq_none (by omega : t.instances.length ≤ n)]
          cases n - t.instances.length <;> rfl
      · intro n
        apply (Silent.onInstance n fun _ _ => wrote_start).bind
        exact fun _ => Silent.onShared fun _ => Keeps.modifying fun _ same => same

/-! ### A row of the sweep -/

/-- The row's run time is over the delay of the node, as `timeOutHandle` reads the clock. -/
def overDelay (env : Env) (node : JobPlanNode) (runTime : Option String) (tick : Nat) : Bool :=
  match runTime with
  | none => false
  | some text =>
    if isBlank (some text) then false
    else match env.elapsedMinutes tick text with
      | none => false
      | some minutes => decide (delayTime env node ≤ minutes)

/-- The node whose job the sweep finds over its delay when it looks at the row. -/
def foundLate (env : Env) (e : Engine) (x : XjobState) : Option String :=
  if x.jobPlanNodeState.isRunningState = true ∧ x.jobPlanNodeID ≠ 0 ∧ env.daoSucceeds e.store.tick = true then
    ((e.store.jobPlanNode? x.jobPlanNodeID).filter fun node => overDelay env node x.runTime (e.store.tick + 1)).map
      (·.name)
  else none

def timedOut (e : Engine) (n : Nat) : Engine :=
  { e with instances := e.instances.modify n ({ · with timeOut := true }) }

theorem timeOutHandle_silent (node : JobPlanNode) (report : JobProgress) :
    Silent (if overDelay env node report.runTime e.store.tick then e.timedOut n else e)
      (after (timeOutHandle env n node report e)) := by
  unfold timeOutHandle overDelay
  cases report.runTime with
  | none => exact .refl e
  | some text =>
    dsimp only
    split
    · exact .refl e
    · have asked : onShared Store.request e = .ok e.store.tick e.ticked := rfl
      rw [bind_ok asked]
      cases env.elapsedMinutes e.store.tick text with
      | none => exact ⟨rfl, fun _ => rfl, le_rfl⟩
      | some minutes =>
        dsimp only
        rw [← delayTime]
        by_cases late : delayTime env node ≤ minutes
        · rw [if_pos (by simpa using late), if_neg (by omega)]
          have flagged : modifyInstance n ({ · with timeOut := true }) e.ticked = .ok () (e.ticked.timedOut n) := rfl
          rw [bind_ok flagged]
          -- from here on the flags stay as they are
          have here : Silent (e.timedOut n) (e.ticked.timedOut n) := ⟨rfl, fun _ => rfl, le_rfl⟩
          apply Keeps.after (I := Silent (e.timedOut n)) _ here
          split
          · apply (Silent.completes n _ _).bind
            intro _
            split
            · apply Keeps.getting.bind
              intro t
              split
              · exact (Keeps.throw _).bind fun _ => Keeps.pure _
              · exact (Silent.pauses _).bind fun _ => Keeps.pure _
            · exact Keeps.pure _
          · exact Keeps.pure _
        · rw [if_neg (by simpa using late), if_pos (by omega)]
          exact ⟨rfl, fun _ => rfl, le_rfl⟩

theorem flags_modify {i : Instance} (there : e.instances[n]? = some i) (f : Instance → Instance) :
    flags { e with instances := e.instances.modify n f } n = ((f i).timeOut, (f i).hasAlarm) := by
  simp [flags, there]

theorem flags_modify_ne {m : Nat} (ne : m ≠ n) (f : Instance → Instance) :
    flags { e with instances := e.instances.modify n f } m = e.flags m := by
  simp [flags, Ne.symm ne]

theorem flags_there {i : Instance} (there : e.instances[n]? = some i) : e.flags n = (i.timeOut, i.hasAlarm) := by
  simp [flags, there]

/-- The notice goes out or it does not. -/
theorem trySendSubscribe_tells (env : Env) (clusterID : String) (name runTime runInfo : Option String)
    (type : Nat) (s : Store) : ∃ sent t, Store.trySendSubscribe env clusterID name runTime runInfo type s = .ok sent t ∧
      ((sent = false ∧ t.notices = s.notices) ∨
        ∃ notice, sent = true ∧ notice.type = type ∧ t.notices = s.notices ++ [notice]) := by
  rw [Store.trySendSubscribe]
  have asked : Store.request s = .ok s.tick { s with tick := s.tick + 1 } := rfl
  rw [bind_ok asked]
  dsimp only
  cases Store.parseEnDate runTime with
  | none => exact ⟨false, _, rfl, .inl ⟨rfl, rfl⟩⟩
  | some date =>
    cases env.sendSubscribe s.tick with
    | false => exact ⟨false, _, rfl, .inl ⟨rfl, rfl⟩⟩
    | true => exact ⟨true, _, rfl, .inr ⟨_, rfl, rfl, rfl⟩⟩

/-- What a row of the sweep does to the flags, and when it tells the subscribers. -/
structure Looked (env : Env) (e : Engine) (n : Nat) (x : XjobState) (t : Engine) : Prop where
  others : ∀ m, m ≠ n → t.flags m = e.flags m
  timeOut : (t.flags n).1 = ((e.flags n).1 || (foundLate env e x).isSome)
  told : (t.store.notices = e.store.notices ∧ (t.flags n).2 = (e.flags n).2) ∨
    ∃ notice, notice.type = jobProcessTimeout ∧ t.store.notices = e.store.notices ++ [notice] ∧
      (e.flags n).2 = false ∧ (t.flags n).2 = true

theorem Silent.handled {i : Instance} (there : e.instances[n]? = some i) {overdue : Bool}
    (silent : Silent (if overdue then e.timedOut n else e) t) :
    (∀ m, m ≠ n → t.flags m = e.flags m) ∧ t.flags n = ((e.flags n).1 || overdue, (e.flags n).2) ∧
      t.store.notices = e.store.notices ∧ ∃ j, t.instances[n]? = some j := by
  have inside : n < t.instances.length := by
    have bound := (List.getElem?_eq_some_iff.mp there).1
    have grows := silent.grows
    split at grows
    · simp only [timedOut, List.length_modify] at grows
      omega
    · omega
  refine ⟨fun m ne => ?_, ?_, ?_, _, List.getElem?_eq_getElem inside⟩
  · rw [silent.flags]
    split
    · exact flags_modify_ne ne _
    · rfl
  · rw [silent.flags]
    cases overdue with
    | true => rw [if_pos rfl, timedOut, flags_modify there, flags_there there, Bool.or_true]
    | false => rw [if_neg (by simp), Bool.or_false]
  · rw [silent.notices]
    split <;> rfl

/-- The announcement at the end of a row. -/
theorem announce_looked {name : Option String} {clusterID : String} {runTime runInfo : Option String} {j : Instance}
    (there : t.instances[n]? = some j) {u : Engine}
    (same : u = after ((do
      if j.timeOut ∧ !j.hasAlarm then
        if ← onShared (Store.trySendSubscribe env clusterID name runTime runInfo jobProcessTimeout) then
          modifyInstance n ({ · with hasAlarm := true }) : EngineM Unit) t)) :
    (∀ m, m ≠ n → u.flags m = t.flags m) ∧ (u.flags n).1 = (t.flags n).1 ∧
      ((u.store.notices = t.store.notices ∧ (u.flags n).2 = (t.flags n).2) ∨
        ∃ notice, notice.type = jobProcessTimeout ∧ u.store.notices = t.store.notices ++ [notice] ∧
          (t.flags n).2 = false ∧ (u.flags n).2 = true) := by
  split at same
  next due =>
    -- the notice is sent first; the flag is set only if that worked
    obtain ⟨sent, store, told, cases_⟩ :=
      trySendSubscribe_tells env clusterID name runTime runInfo jobProcessTimeout t.store
    have shared : onShared (Store.trySendSubscribe env clusterID name runTime runInfo jobProcessTimeout) t =
        .ok sent { t with store := store } := by rw [onShared_apply, told]
    rw [bind_ok shared] at same
    rcases cases_ with ⟨rfl, kept⟩ | ⟨notice, rfl, type, more⟩
    · subst same
      exact ⟨fun _ _ => rfl, rfl, .inl ⟨kept, rfl⟩⟩
    · subst same
      have own : flags { t with store := store, instances := t.instances.modify n ({ · with hasAlarm := true }) } n =
          (j.timeOut, true) := @flags_modify { t with store := store } n j there ({ · with hasAlarm := true })
      refine ⟨fun m ne => flags_modify_ne ne _, ?_, .inr ⟨notice, type, more, ?_, ?_⟩⟩
      · exact (congrArg Prod.fst own).trans (congrArg Prod.fst (flags_there there)).symm
      · rw [flags_there there]
        simpa using due.2
      · exact congrArg Prod.snd own
  next =>
    subst same
    exact ⟨fun _ _ => rfl, rfl, .inl ⟨rfl, rfl⟩⟩

/-- A row that is not found late changes nothing that is looked at. -/
theorem looked_of_silent {x : XjobState} (silent : Silent e t) (early : foundLate env e x = none) :
    Looked env e n x t := by
  refine ⟨fun m _ => silent.flags m, ?_, .inl ⟨silent.notices, by rw [silent.flags]⟩⟩
  rw [silent.flags, early]
  simp

/-- The row of a running job whose node is stored. -/
theorem timeOutNode_looked {i : Instance} (there : e.instances[n]? = some i) {x : XjobState}
    (running : x.jobPlanNodeState.isRunningState = true) (identified : x.jobPlanNodeID ≠ 0)
    (succeeds : env.daoSucceeds e.store.tick = true) {node : JobPlanNode}
    (stored : e.store.jobPlanNode? x.jobPlanNodeID = some node) :
    Looked env e n x (after (timeOutRow env n x e)) := by
  have asked : onShared (Store.queryJobPlanNodeByID env x.jobPlanNodeID) e = .ok (some node) e.ticked := by
    rw [onShared_queryJobPlanNodeByID, if_neg identified, if_pos succeeds, stored]
  have late : (foundLate env e x).isSome = overDelay env node x.runTime (e.store.tick + 1) := by
    simp only [foundLate, running, succeeds, stored, ne_eq, identified, not_false_eq_true, and_self, if_true,
      Option.filter_some]
    split
    next overdue => simp [overdue]
    next early => simp [early]
  unfold timeOutRow
  rw [if_pos running, bind_ok asked]
  dsimp only
  -- first the flag for the delay, then the announcement
  have silent := @timeOutHandle_silent env e.ticked n node
    { executorType := XjobExecutorType.auto.name, jobPlanNodeState := "", runInfo := some ""
      runTime := x.runTime, xjobStateID := x.id }
  obtain ⟨others, own, notices, j, here⟩ := Silent.handled (e := e.ticked) there silent
  have own₁ : (after (timeOutHandle env n node _ e.ticked)).flags n = ((e.flags n).1 || (foundLate env e x).isSome,
      (e.flags n).2) := late ▸ own
  cases result : timeOutHandle env n node _ e.ticked with
  | error thrown t =>
    rw [bind_error result]
    simp only [result, after_error] at others own₁ notices
    exact ⟨others, by rw [after_error, own₁], .inl ⟨notices, by rw [after_error, own₁]⟩⟩
  | ok runInfo t =>
    rw [bind_ok result]
    simp only [result, after_ok] at others own₁ notices here
    have reads {f : Engine → EngineM Unit} : (get >>= f) t = f t t := rfl
    rw [reads, here]
    obtain ⟨others', first, told⟩ := @announce_looked env t n (some node.name) node.executorClusterID x.runTime
      runInfo j here _ rfl
    rw [notices, own₁] at told
    rw [own₁] at first
    exact ⟨fun m ne => (others' m ne).trans (others m ne), first, told⟩

theorem timeOutRow_looked {i : Instance} (there : e.instances[n]? = some i) (x : XjobState) :
    Looked env e n x (after (timeOutRow env n x e)) := by
  have ticked : Silent e e.ticked := ⟨rfl, fun _ => rfl, le_rfl⟩
  by_cases running : x.jobPlanNodeState.isRunningState = true
  · have query := onShared_queryJobPlanNodeByID env x.jobPlanNodeID e
    by_cases blank : x.jobPlanNodeID = 0
    · rw [if_pos blank] at query
      rw [timeOutRow, if_pos running, bind_ok query]
      exact looked_of_silent (.refl e) (by simp [foundLate, blank])
    · rw [if_neg blank] at query
      cases succeeds : env.daoSucceeds e.store.tick with
      | false =>
        rw [if_neg (by simp [succeeds])] at query
        rw [timeOutRow, if_pos running, bind_error query]
        exact looked_of_silent ticked (by simp [foundLate, succeeds])
      | true =>
        cases stored : e.store.jobPlanNode? x.jobPlanNodeID with
        | none =>
          rw [if_pos succeeds, stored] at query
          rw [timeOutRow, if_pos running, bind_ok query]
          exact looked_of_silent ticked (by simp [foundLate, stored])
        | some node => exact timeOutNode_looked there running blank succeeds stored
  · rw [timeOutRow, if_neg running]
    exact looked_of_silent (.refl e) (by simp [foundLate, running])

/-! ### A report -/

/-- The instance, the node and the state a report completes. -/
def resultOf (e : Engine) (report : JobProgress) : Option (Nat × String × JobPlanNodeState) :=
  match XjobExecutorType.valueOf report.executorType, JobPlanNodeState.valueOf report.jobPlanNodeState with
  | some type, some state =>
    if Aside type state then none
    else (e.runingInfo? report.eventID).bind fun info => (e.getWorkflow? info.workflowRunKey).bind fun there =>
      if state.isResultState then some (there.1, info.jobNodeName, state) else none
  | _, _ => none

/-- No flag changes, and only notices of some types are sent. -/
structure Tells (e : Engine) (types : Nat → Prop) (t : Engine) : Prop where
  flags : ∀ n, t.flags n = e.flags n
  told : ∃ new, t.store.notices = e.store.notices ++ new ∧ ∀ notice ∈ new, types notice.type

section Reports

variable {types : Nat → Prop} {cluster name : String} {report : JobProgress} {state : JobPlanNodeState}

theorem Silent.tells (silent : Silent e t) : Tells e types t := ⟨silent.flags, [], by simp [silent.notices], by simp⟩

theorem Tells.silent (tells : Tells e types t) (silent : Silent t u) : Tells e types u where
  flags n := (silent.flags n).trans (tells.flags n)
  told := silent.notices ▸ tells.told

/-- What tells nothing adds nothing to what has been told. -/
theorem tells_of_silent {α : Type} {x : EngineM α} (silent : ∀ t, Keeps (Silent t) x) : Keeps (Tells e types) x :=
  Keeps.of_after fun t tells => tells.silent ((silent t).after (.refl t))

theorem tells_send {clusterID : String} {node runTime runInfo : Option String} {type : Nat} (allowed : types type) :
    Keeps (Tells e types) (onShared (Store.trySendSubscribe env clusterID node runTime runInfo type)) := by
  apply Keeps.of_after
  intro t tells
  obtain ⟨sent, store, told, cases_⟩ := trySendSubscribe_tells env clusterID node runTime runInfo type t.store
  rw [onShared_apply, told]
  obtain ⟨new, before, only⟩ := tells.told
  rcases cases_ with ⟨-, kept⟩ | ⟨notice, -, own, more⟩
  · exact ⟨tells.flags, new, kept.trans before, only⟩
  · refine ⟨tells.flags, new ++ [notice], ?_, fun other member => ?_⟩
    · rw [after_ok, more, before, List.append_assoc]
    · rcases List.mem_append.mp member with earlier | last
      · exact only other earlier
      · rw [List.mem_singleton.mp last, own]
        exact allowed

theorem onShared_bind {α β : Type} (x : StoreM α) (f : α → StoreM β) :
    onShared (x >>= f) = onShared x >>= fun a => onShared (f a) := by
  funext e
  simp only [bind_apply, onShared_apply]
  cases x e.store <;> rfl

theorem alarmFailure_tells {plan : JobExecutionPlan} (allowed : state.isFailState = true → types jobProcessError) :
    Keeps (Tells e types) (onShared (alarmFailure env cluster name report state plan)) := by
  unfold alarmFailure
  split
  next failed =>
    rw [onShared_bind]
    apply Keeps.bind
    · apply tells_of_silent
      intro t
      unfold handleFailJobProgress
      split
      · rw [onShared_bind]
        exact (Silent.pauses plan).bind fun _ => Keeps.pure _
      · exact Keeps.pure _
    · intro _
      rw [onShared_bind]
      exact (tells_send (allowed failed)).bind fun _ => Keeps.pure _
  next => exact Keeps.pure _

theorem alarmLateSuccess_tells {i : Instance}
    (allowed : i.timeOut = true ∧ i.hasAlarm = true → types jobProcessTimeoutButSuccess) :
    Keeps (Tells e types) (onShared (alarmLateSuccess env cluster name report i)) := by
  unfold alarmLateSuccess
  split
  next flagged =>
    rw [onShared_bind]
    exact (tells_send (allowed flagged)).bind fun _ => Keeps.pure _
  next => exact Keeps.pure _

theorem completeJobProgress_tells (failure : state.isFailState = true → types jobProcessError)
    (late : e.flags n = (true, true) → types jobProcessTimeoutButSuccess) :
    Keeps (Tells e types) (completeJobProgress env cluster name n report state) := by
  apply (tells_of_silent fun t => Silent.completes n _ _).bind
  intro _
  apply Triple.bind (Q := fun t s => t = s ∧ Tells e types s)
  · exact Triple.getting fun s tells => ⟨rfl, tells⟩
  · intro t
    apply Triple.of_imp (p := Tells e types t) _ fun s (both : t = s ∧ Tells e types s) => both.1 ▸ both.2
    intro tells
    refine Triple.conseq (?_ : Keeps (Tells e types) _) (fun _ both => both.2) (fun _ _ holds => holds)
      fun _ _ holds => holds
    split
    · exact Keeps.throw _
    next i there =>
      apply (alarmFailure_tells failure).bind
      intro _
      apply alarmLateSuccess_tells
      rintro ⟨timeOut, hasAlarm⟩
      apply late
      rw [← tells.flags, flags_there there, timeOut, hasAlarm]

/-- What a report may make the engine tell: an error when it fails, a late success when
the instance is flagged. -/
def Told (e : Engine) (report : JobProgress) (type : Nat) : Prop :=
  ∃ n node state, e.resultOf report = some (n, node, state) ∧
    ((type = jobProcessError ∧ state.isFailState = true) ∨
      (type = jobProcessTimeoutButSuccess ∧ e.flags n = (true, true)))

theorem handlejobProgress_tells (env : Env) (cluster : String) (report : JobProgress) (e : Engine) :
    Tells e (e.Told report) (after (handlejobProgress env cluster report e)) := by
  have nothing : Tells e (e.Told report) e := (Silent.refl e).tells
  by_cases valid : ∃ type state, report.Reads type state
  -- a report without a type or a state, or for an unknown event, says nothing
  · obtain ⟨type, state, reads⟩ := valid
    cases found : e.runingInfo? report.eventID with
    | none =>
      rw [handlejobProgress_missing reads found]
      exact nothing
    | some info =>
      -- a mere dispatch and a job started by hand are dealt with before the run is looked up
      by_cases aside : Aside type state
      · rw [handlejobProgress_aside reads found aside]
        split
        · exact Silent.tells ⟨rfl, fun _ => rfl, le_rfl⟩
        · exact Silent.tells ⟨rfl, fun _ => rfl, le_rfl⟩
      · cases there : e.getWorkflow? info.workflowRunKey with
        -- the run is gone: its job is killed, and nobody is notified
        | none =>
          rw [handlejobProgress_gone reads found aside there]
          apply Keeps.after (I := Tells e (e.Told report)) _ nothing
          apply tells_of_silent
          intro t
          apply Silent.onShared
          intro notices
          apply Keeps.modifying
          intro s same
          split <;> exact same
        | some run =>
          obtain ⟨n, i⟩ := run
          -- a state that is no result changes nothing
          cases result : state.isResultState with
          | false =>
            rw [handlejobProgress_early reads found aside there result]
            exact nothing
          | true =>
            have completes : e.resultOf report = some (n, info.jobNodeName, state) := by
              simp [resultOf, reads.type, reads.state, aside, found, there, result]
            rw [handlejobProgress_result reads found aside there result]
            apply Keeps.after (I := Tells e (e.Told report)) _ nothing
            apply Keeps.bind
            · apply completeJobProgress_tells
              · exact fun failed => ⟨n, _, state, completes, .inl ⟨rfl, failed⟩⟩
              · exact fun flagged => ⟨n, _, state, completes, .inr ⟨rfl, flagged⟩⟩
            · intro _
              apply tells_of_silent
              exact fun t => Silent.onShared fun _ => Keeps.modifying fun _ same => same
  · rw [handlejobProgress_malformed fun type state reads => valid ⟨type, state, reads⟩]
    exact nothing

end Reports

/-! ### Watching a run -/

/-- What was sent during one call: by a sweep, or on a report. A report that completes a
node is noted with the node and with whether a sweep had found the node late. -/
inductive Sent where
  | sweep (n : Nat) (notices : List Notice)
  | report (result : Option (Nat × String × JobPlanNodeState)) (late : Bool) (notices : List Notice)
  deriving DecidableEq

namespace Sent

def notices : Sent → List Notice
  | sweep _ notices | report _ _ notices => notices

/-- The instance the call was about. -/
def run : Sent → Option Nat
  | sweep n _ => some n
  | report result _ _ => result.map (·.1)

end Sent

structure Watch where
  engine : Engine
  /-- the nodes sweeps have found over their delay -/
  late : List (Nat × String) := []
  sent : List Sent := []

inductive Event where
  /-- a row of a sweep is looked at -/
  | row (n : Nat) (x : XjobState)
  | report (cluster : String) (jobProgress : JobProgress)
  /-- anything else the engine does -/
  | besides

/-- The notices that are new. -/
def newNotices (e t : Engine) : List Notice := t.store.notices.drop e.store.notices.length

namespace Watch

variable (env : Env)

def row (w : Watch) (n : Nat) (x : XjobState) : Watch :=
  let t := after (timeOutRow env n x w.engine)
  { engine := t
    late := w.late ++ ((foundLate env w.engine x).map fun name => (n, name)).toList
    sent := w.sent ++ [.sweep n (newNotices w.engine t)] }

def report (w : Watch) (cluster : String) (jobProgress : JobProgress) : Watch :=
  let t := after (handlejobProgress env cluster jobProgress w.engine)
  let result := w.engine.resultOf jobProgress
  { engine := t
    late := w.late
    sent := w.sent ++ [.report result (result.any fun (n, name, _) => w.late.contains (n, name))
      (newNotices w.engine t)] }

/-- A sweep goes through rows of instances there are. Reports come in between any two rows. -/
inductive Step : Watch → Event → Watch → Prop where
  | row {w n i x} (there : w.engine.instances[n]? = some i) : Step w (.row n x) (row env w n x)
  | report {w cluster jobProgress} : Step w (.report cluster jobProgress) (report env w cluster jobProgress)
  | besides {w t} (silent : Silent w.engine t) : Step w .besides { w with engine := t }

def system : System Watch Event :=
  ⟨fun w => (∀ n, w.engine.flags n = (false, false)) ∧ w.late = [] ∧ w.sent = [], Step env⟩

end Watch

/-- Timeouts announced for an instance. -/
def timeouts (n : Nat) (sent : List Sent) : Nat :=
  (sent.map fun one => if one.run = some n then one.notices.countP (·.type = jobProcessTimeout) else 0).sum

/-- A late success belongs to a success of a node that was found late, and no error is sent with it. -/
def Sent.Honest (one : Sent) : Prop :=
  ∀ notice ∈ one.notices, notice.type = jobProcessTimeoutButSuccess →
    (∃ n name, one = .report (some (n, name, .resultSuccess)) true one.notices) ∧
      ∀ other ∈ one.notices, other.type ≠ jobProcessError

/-- The notices tell the truth. -/
structure Truthful (sent : List Sent) : Prop where
  once : ∀ n, timeouts n sent ≤ 1
  about : ∀ one ∈ sent, one.notices ≠ [] → one.run ≠ none
  honest : ∀ one ∈ sent, one.Honest

/-- A result that comes while the instance is flagged is a success of a node found late. -/
def Timely (w : Watch) : Event → Prop
  | .report _ jobProgress => ∀ n name state, w.engine.resultOf jobProgress = some (n, name, state) →
      w.engine.flags n = (true, true) → state = .resultSuccess ∧ (n, name) ∈ w.late
  | _ => True

/-! ### The invariant -/

/-- The alarm flag counts the announced timeouts, and a flagged instance has a late node. -/
structure Watched (w : Watch) : Prop where
  alarms : ∀ n, timeouts n w.sent = if (w.engine.flags n).2 then 1 else 0
  late : ∀ n, (w.engine.flags n).1 = true → ∃ name, (n, name) ∈ w.late
  about : ∀ one ∈ w.sent, one.notices ≠ [] → one.run ≠ none
  honest : ∀ one ∈ w.sent, one.Honest

theorem timeouts_append (n : Nat) (sent : List Sent) (one : Sent) :
    timeouts n (sent ++ [one]) =
      timeouts n sent + if one.run = some n then one.notices.countP (·.type = jobProcessTimeout) else 0 := by
  simp [timeouts]

theorem timeouts_sweep (n m : Nat) (sent : List Sent) (new : List Notice) :
    timeouts n (sent ++ [.sweep m new]) =
      timeouts n sent + if m = n then new.countP (·.type = jobProcessTimeout) else 0 := by
  rw [timeouts_append]
  simp [Sent.run, Sent.notices]

theorem newNotices_eq {new : List Notice} (more : t.store.notices = e.store.notices ++ new) : newNotices e t = new := by
  rw [newNotices, more, List.drop_left]

section Steps

variable {w : Watch} (watched : Watched w)
include watched

theorem Watched.row {i : Instance} (there : w.engine.instances[n]? = some i) (x : XjobState) :
    Watched (Watch.row env w n x) := by
  have looked := @timeOutRow_looked env w.engine n i there x
  -- a sweep sends timeouts only
  have new : ∃ new, newNotices w.engine (after (timeOutRow env n x w.engine)) = new ∧
      (∀ notice ∈ new, notice.type = jobProcessTimeout) ∧
      new.length + (if (w.engine.flags n).2 then 1 else 0) =
        if ((after (timeOutRow env n x w.engine)).flags n).2 then 1 else 0 := by
    rcases looked.told with ⟨same, alarm⟩ | ⟨notice, type, more, before, now⟩
    · exact ⟨[], newNotices_eq (by rw [same, List.append_nil]), by simp, by rw [alarm]; simp⟩
    · exact ⟨[notice], newNotices_eq more, by simpa using type, by simp [before, now]⟩
  obtain ⟨new, sent, types, count⟩ := new
  constructor
  · intro m
    simp only [Watch.row, timeouts_sweep, sent, watched.alarms]
    by_cases own : m = n
    · subst own
      have all : new.countP (·.type = jobProcessTimeout) = new.length :=
        List.countP_eq_length.mpr fun notice member => by simpa using types notice member
      rw [if_pos rfl, all, Nat.add_comm]
      exact count
    · rw [if_neg (Ne.symm own), looked.others m own]
      rfl
  · intro m flagged
    simp only [Watch.row] at flagged ⊢
    by_cases own : m = n
    · subst own
      rw [looked.timeOut, Bool.or_eq_true] at flagged
      rcases flagged with before | now
      · obtain ⟨name, member⟩ := watched.late m before
        exact ⟨name, List.mem_append_left _ member⟩
      · obtain ⟨name, found⟩ := Option.isSome_iff_exists.mp now
        exact ⟨name, List.mem_append_right _ (by simp [found])⟩
    · rw [looked.others m own] at flagged
      obtain ⟨name, member⟩ := watched.late m flagged
      exact ⟨name, List.mem_append_left _ member⟩
  · intro one member
    rcases List.mem_append.mp member with earlier | last
    · exact watched.about one earlier
    · rw [List.mem_singleton.mp last]
      exact fun _ none_ => by cases none_
  · intro one member
    rcases List.mem_append.mp member with earlier | last
    · exact watched.honest one earlier
    · rw [List.mem_singleton.mp last, sent]
      intro notice inside type
      cases (types notice inside).symm.trans type

theorem Watched.report (cluster : String) (jobProgress : JobProgress)
    (timely : Timely w (.report cluster jobProgress)) : Watched (Watch.report env w cluster jobProgress) := by
  have tells := handlejobProgress_tells env cluster jobProgress w.engine
  obtain ⟨new, more, types⟩ := tells.told
  have sent := newNotices_eq more
  constructor
  · intro m
    -- a report sends errors and late successes, and no timeout
    have none_ : new.countP (·.type = jobProcessTimeout) = 0 := by
      rw [List.countP_eq_zero]
      intro notice member
      obtain ⟨n, name, state, -, ⟨type, -⟩ | ⟨type, -⟩⟩ := types notice member
      · simp [type, jobProcessError, jobProcessTimeout]
      · simp [type, jobProcessTimeoutButSuccess, jobProcessTimeout]
    simp only [Watch.report, timeouts_append, Sent.notices, sent, none_, ite_self, Nat.add_zero,
      watched.alarms, tells.flags]
  · intro m flagged
    simp only [Watch.report, tells.flags] at flagged
    exact watched.late m flagged
  · intro one member
    rcases List.mem_append.mp member with earlier | last
    · exact watched.about one earlier
    · rw [List.mem_singleton.mp last, sent]
      -- a notice is about the run whose result the report carries
      intro some_ none_
      obtain ⟨notice, inside⟩ := List.exists_mem_of_ne_nil _ some_
      obtain ⟨n, name, state, result, -⟩ := types notice inside
      simp [Sent.run, result] at none_
  · intro one member
    rcases List.mem_append.mp member with earlier | last
    · exact watched.honest one earlier
    · rw [List.mem_singleton.mp last, sent]
      -- a late success is honest because timely reports find the flag the sweep has set
      intro notice inside type
      obtain ⟨n, name, state, result, ⟨error, -⟩ | ⟨-, flagged⟩⟩ := types notice inside
      · cases error.symm.trans type
      · obtain ⟨rfl, late⟩ := timely n name state result flagged
        refine ⟨⟨n, name, ?_⟩, ?_⟩
        · simp [result, late, Sent.notices]
        · intro other among error
          obtain ⟨n', name', state', result', ⟨-, failed⟩ | ⟨type', -⟩⟩ := types other among
          · rw [result] at result'
            cases result'
            cases failed
          · cases error.symm.trans type'

theorem Watched.besides (silent : Silent w.engine t) : Watched { w with engine := t } where
  alarms n := by
    rw [silent.flags]
    exact watched.alarms n
  late n flagged := watched.late n (silent.flags n ▸ flagged)
  about := watched.about
  honest := watched.honest

end Steps

theorem watched_of_reachable {w : Watch} (reachable : Reachable (Watch.system env) Timely w) : Watched w := by
  apply reachable.invariant
  · rintro w ⟨flags, late, sent⟩
    refine ⟨fun n => ?_, fun n flagged => ?_, ?_, ?_⟩
    · simp [flags, sent, timeouts]
    · simp [flags] at flagged
    · simp [sent]
    · simp [sent]
  · rintro w event v watched timely step
    cases step with
    | row there => exact watched.row there _
    | report => exact watched.report _ _ timely
    | besides silent => exact watched.besides silent

/-- In every run whose results come timely the notices tell the truth. -/
theorem truthful_of_timely {w : Watch} (reachable : Reachable (Watch.system env) Timely w) : Truthful w.sent := by
  have watched := watched_of_reachable reachable
  refine ⟨fun n => ?_, watched.about, watched.honest⟩
  rw [watched.alarms]
  split <;> omega

/-! ### Whole calls -/

/-- A call in which nothing is told is a step besides. -/
theorem reachable_silent {w : Watch} {α : Type} {x : EngineM α} (reachable : Reachable (Watch.system env) Timely w)
    (silent : Keeps (Silent w.engine) x) :
    ∃ v, Reachable (Watch.system env) Timely v ∧ v.engine = after (x w.engine) :=
  ⟨_, reachable.next (a := .besides) True.intro (.besides (silent.after (.refl _))), rfl⟩

theorem reachable_startJobPlan {w : Watch} (reachable : Reachable (Watch.system env) Timely w) (id : Nat)
    (args : Option String) :
    ∃ v, Reachable (Watch.system env) Timely v ∧ v.engine = after (startJobPlan env id args w.engine) :=
  reachable_silent reachable (silent_startJobPlan id args)

theorem reachable_executeJobPlanNode {w : Watch} (reachable : Reachable (Watch.system env) Timely w) (id : Nat)
    (type : XjobExecutorType) (args : Option String) :
    ∃ v, Reachable (Watch.system env) Timely v ∧ v.engine = after (executeJobPlanNode env id type args w.engine) :=
  reachable_silent reachable (silent_executeJobPlanNode id type args)

theorem lasting_length (env : Env) (k : Nat) : Lasting env fun e => k ≤ e.instances.length where
  writes _ _ _ long := long
  notices _ _ _ long := long
  forgets _ _ long := long
  kills _ _ := Keeps.zoom (J := fun _ => True) (Keeps.of_after fun _ _ => trivial) (fun _ _ => trivial)
    fun _ _ long _ => long
  flags e n f _ long := by simpa using long
  completes n name context := by
    apply Keeps.of_after
    intro e long
    unfold onInstance
    split
    · exact long
    · split <;> simpa [save] using long

theorem reachable_rows {w : Watch} {n : Nat} (reachable : Reachable (Watch.system env) Timely w)
    (there : n < w.engine.instances.length) (rows : List XjobState) :
    ∃ v, Reachable (Watch.system env) Timely v ∧ v.engine = after (rows.forM (timeOutRow env n) w.engine) := by
  induction rows generalizing w with
  | nil => exact ⟨w, reachable, rfl⟩
  | cons x rows ih =>
    have looked : Reachable (Watch.system env) Timely (Watch.row env w n x) :=
      reachable.next (a := .row n x) True.intro (.row (List.getElem?_eq_getElem there))
    have long := ((lasting_length env (n + 1)).enduring.timeOutRow n x).after there
    obtain ⟨v, later, same⟩ := ih looked long
    cases result : timeOutRow env n x w.engine with
    | error thrown t =>
      refine ⟨_, looked, ?_⟩
      have ends : (x :: rows).forM (timeOutRow env n) w.engine = .error thrown t := bind_error result
      rw [ends]
      exact congrArg after result
    | ok _ t =>
      refine ⟨v, later, ?_⟩
      have goes : (x :: rows).forM (timeOutRow env n) w.engine = rows.forM (timeOutRow env n) t := bind_ok result
      have here : (Watch.row env w n x).engine = t := congrArg after result
      rw [goes, same, here]

/-- A whole sweep is made of the rows it looks at. -/
theorem reachable_sweep {w : Watch} (reachable : Reachable (Watch.system env) Timely w) (keys : List String) :
    ∃ v, Reachable (Watch.system env) Timely v ∧ v.engine = after (timeOutRuns env keys w.engine) := by
  -- a row at a time, since other steps may come in between and only reachable watches keep the invariants
  induction keys generalizing w with
  | nil => exact ⟨w, reachable, rfl⟩
  | cons key keys ih =>
    have reads {f : Engine → EngineM Unit} : (get >>= f) w.engine = f w.engine w.engine := rfl
    rw [timeOutRuns, reads]
    cases there : w.engine.getWorkflow? key with
    | none => exact ⟨w, reachable, rfl⟩
    | some run =>
      obtain ⟨n, i⟩ := run
      -- the reference leads to an instance, and instances are never removed
      have inside : n < w.engine.instances.length := by
        obtain ⟨m, -, reference⟩ := Option.bind_eq_some_iff.mp there
        obtain ⟨j, place, same⟩ := Option.map_eq_some_iff.mp reference
        cases same
        exact (List.getElem?_eq_some_iff.mp place).1
      have spends : Keeps (Silent w.engine) (onShared (Store.queryXjobStateByCurrentExecutorKey env key)) :=
        Silent.spends fun _ => Store.writes_queryXjobStateByCurrentExecutorKey key
      have long :=
        ((lasting_length env (n + 1)).spends fun _ => Store.writes_queryXjobStateByCurrentExecutorKey key).after inside
      -- the query changes no flag and tells nobody
      obtain ⟨v, queried, same⟩ := reachable_silent reachable spends
      dsimp only
      cases result : onShared (Store.queryXjobStateByCurrentExecutorKey env key) w.engine with
      | error thrown t =>
        rw [bind_error result]
        exact ⟨v, queried, same.trans (congrArg after result)⟩
      | ok rows t =>
        rw [bind_ok result]
        rw [result, after_ok] at same long
        subst same
        cases rows with
        | nil => exact ⟨v, queried, rfl⟩
        | cons x rows =>
          obtain ⟨u, looked, all⟩ := reachable_rows queried long (x :: rows)
          dsimp only
          cases loop : (x :: rows).forM (timeOutRow env n) v.engine with
          | error thrown t =>
            rw [bind_error loop]
            exact ⟨u, looked, all.trans (congrArg after loop)⟩
          | ok _ t =>
            rw [bind_ok loop]
            rw [loop, after_ok] at all
            subst all
            exact ih looked

end Engine

/-! ### A job that takes too long -/

namespace Late

open Engine

/-- Jobs have been running for 100 minutes, the default timeout is 60. -/
def env : Env := { Env.calm with elapsedMinutes := fun _ _ => some 100 }

def started : Engine :=
  after (startJobPlan env 1 none { store := { jobPlans := [OneRetry.plan], executorRegisterDateMap := ["c"] } })

/-- The row of `load`. -/
def row : XjobState :=
  { id := 2, jobPlanNodeID := 2, currentExecutorKey := "10031", jobPlanNodeState := .notifySuccess
    runInfo := some "", runTime := some "20140129120000" }

/-- The sweep has announced the timeout. -/
def swept : Watch := Watch.row env { engine := started } 0 row

theorem swept_reachable (guard : Watch → Event → Prop) (admits : guard { engine := started } (.row 0 row)) :
    Reachable (Watch.system env) guard swept := by
  have there : (started.instances[0]?).isSome = true := by decide +kernel
  obtain ⟨i, here⟩ := Option.isSome_iff_exists.mp there
  have plain : started.instances.map (fun i => (i.timeOut, i.hasAlarm)) = [(false, false)] := by decide +kernel
  refine .next (.start ⟨fun n => ?_, rfl, rfl⟩) admits (.row here)
  have flags : started.flags n = (started.instances.map (fun i => (i.timeOut, i.hasAlarm)))[n]?.getD
    (false, false) := by
    rw [Engine.flags, List.getElem?_map]
  rw [flags, plain]
  cases n <;> rfl

def result (state : JobPlanNodeState) : JobProgress :=
  { executorType := "Auto", jobPlanNodeState := state.name, eventID := "1270011014", runTime := some "20140129134000" }

end Late

/-- The late job succeeds. -/
def Late.done : Engine.Watch := Engine.Watch.report Late.env Late.swept "c" (Late.result .resultSuccess)

theorem truthful_late : Late.done.sent.map (·.notices.map (·.type)) =
      [[Engine.jobProcessTimeout], [Engine.jobProcessTimeoutButSuccess]] ∧ Engine.Truthful Late.done.sent := by
  refine ⟨by decide +kernel, @Engine.truthful_of_timely Late.env _ ?_⟩
  refine .next (Late.swept_reachable _ True.intro) ?_ .report
  intro n name state result _
  have only : Late.swept.engine.resultOf (Late.result .resultSuccess) = some (0, "load", .resultSuccess) := by
    decide +kernel
  cases only.symm.trans result
  exact ⟨rfl, by decide +kernel⟩

/-- The late job fails. -/
def Late.failed : Engine.Watch := Engine.Watch.report Late.env Late.swept "c" (Late.result .resultError)

/-- The failure of a late job is announced as an error and as a late success. -/
theorem not_truthful_late : Reachable (Engine.Watch.system Late.env) (fun _ _ => True) Late.failed ∧
    ¬ Engine.Truthful Late.failed.sent := by
  refine ⟨.next (Late.swept_reachable _ True.intro) True.intro .report, fun truthful => ?_⟩
  have both : ∃ one ∈ Late.failed.sent, (∃ notice ∈ one.notices, notice.type = Engine.jobProcessTimeoutButSuccess) ∧
      ∃ other ∈ one.notices, other.type = Engine.jobProcessError := by
    decide +kernel
  obtain ⟨one, member, ⟨notice, inside, late⟩, other, among, error⟩ := both
  exact (truthful.honest one member notice inside late).2 other among error

end Hella

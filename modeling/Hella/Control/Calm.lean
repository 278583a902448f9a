import Hella.Control.Refinement
import Hella.Control.Writes

/-!
# Runs in which every DAO call succeeds

With all DAO calls succeeding no handler of a node with a job throws, so what each
of them does to the instance and to the store can be said outright. Only the count
of requests is left open.
-/
namespace Hella

open Exec Text

/-! ### Rows -/

namespace Store

/-- Row ids are unique, and the generator is past them. -/
structure Sound (s : Store) : Prop where
  distinct : (s.xjobStates.map (·.id)).Nodup
  known : ∀ row ∈ s.xjobStates, row.id ≤ s.lastXjobStateID

variable {s : Store} {x y row : XjobState}

theorem Sound.fresh (sound : s.Sound) (member : row ∈ s.xjobStates) : row.id ≠ s.lastXjobStateID + 1 := by
  have := sound.known row member
  omega

theorem Sound.insert (sound : s.Sound) (x : XjobState) : (s.insertXjobState x).Sound where
  distinct := by
    have fresh : s.lastXjobStateID + 1 ∉ s.xjobStates.map (·.id) := by
      intro member
      obtain ⟨row, inside, same⟩ := List.mem_map.mp member
      exact sound.fresh inside same
    simpa [insertXjobState, List.nodup_append] using ⟨sound.distinct, fun row member =>
      sound.fresh member⟩
  known row member := by
    simp only [insertXjobState, List.mem_append, List.mem_singleton] at member
    rcases member with old | rfl
    · exact (sound.known row old).trans (Nat.le_succ _)
    · exact le_rfl

@[simp] theorem XjobState.overwrite_id : (XjobState.overwrite row x).id = row.id := rfl

@[simp] theorem XjobState.overwrite_key : (XjobState.overwrite row x).currentExecutorKey = row.currentExecutorKey := rfl

theorem Sound.update (sound : s.Sound) (x : XjobState) : (s.updateXjobState x).Sound where
  distinct := by
    have same : (s.updateXjobState x).xjobStates.map (·.id) = s.xjobStates.map (·.id) := by
      simp only [updateXjobState, List.map_map]
      refine List.map_congr_left fun row _ => ?_
      simp only [Function.comp]
      split <;> rfl
    rw [same]
    exact sound.distinct
  known row member := by
    simp only [updateXjobState, List.mem_map] at member
    obtain ⟨old, inside, rfl⟩ := member
    have := sound.known old inside
    simp only [updateXjobState]
    split <;> exact this

/-- Writing the newest row leaves the others alone. -/
theorem Sound.map_newest (sound : s.Sound) (newest : row.id = s.lastXjobStateID + 1) (f : XjobState → XjobState) :
    (s.xjobStates ++ [row]).map (fun row => if row.id = s.lastXjobStateID + 1 then f row else row) =
      s.xjobStates ++ [f row] := by
  have others : s.xjobStates.map (fun row => if row.id = s.lastXjobStateID + 1 then f row else row) =
      s.xjobStates := by
    conv_rhs => rw [← List.map_id s.xjobStates]
    refine List.map_congr_left fun row member => ?_
    rw [if_neg (sound.fresh member)]
    rfl
  rw [List.map_append, others, List.map_singleton, if_pos newest]

theorem Sound.find_newest (sound : s.Sound) (newest : row.id = s.lastXjobStateID + 1) :
    (s.xjobStates ++ [row]).find? (·.id = s.lastXjobStateID + 1) = some row := by
  have none_ : s.xjobStates.find? (·.id = s.lastXjobStateID + 1) = none := by
    rw [List.find?_eq_none]
    intro row member
    simpa using sound.fresh member
  simp [List.find?_append, none_, newest]

theorem Sound.eq_of_id (sound : s.Sound) (memberX : x ∈ s.xjobStates) (memberY : y ∈ s.xjobStates)
    (same : x.id = y.id) : x = y := List.inj_on_of_nodup_map sound.distinct memberX memberY same

theorem Sound.find (sound : s.Sound) (member : row ∈ s.xjobStates) : s.xjobState? row.id = some row := by
  have exists_ : (s.xjobState? row.id).isSome = true := by
    simp only [xjobState?, List.find?_isSome]
    exact ⟨row, member, by simp⟩
  obtain ⟨other, found⟩ := Option.isSome_iff_exists.mp exists_
  have same : other.id = row.id := by simpa using List.find?_some found
  rw [found, sound.eq_of_id (List.mem_of_find?_eq_some found) member same]

/-- The plan row gets a new state; there is no plan row 0. -/
def mark (s : Store) (id : Nat) (state : CurrentXjobState) (date : String) : Store :=
  { s with
    jobPlans := if id = 0 then s.jobPlans
      else (s.modifyJobPlan id fun plan =>
        { plan with currentXjobState := some state, currentXjobDate := some date }).jobPlans }

/-- The event of a plan, if it has one to produce. -/
def eventOf (s : Store) (id : Nat) : List String :=
  match (if id = 0 then none else s.jobPlan? id).bind (·.event) with
  | none => []
  | some event => if isBlank (some event) then [] else [event]

theorem Sound.mark (sound : s.Sound) (id : Nat) (state : CurrentXjobState) (date : String) :
    (s.mark id state date).Sound := ⟨sound.distinct, sound.known⟩

theorem eventOf_modify {f : JobExecutionPlan → JobExecutionPlan} (id plan : Nat)
    (same : ∀ p, (f p).id = p.id ∧ (f p).event = p.event) : (s.modifyJobPlan plan f).eventOf id = s.eventOf id := by
  have events : ((s.modifyJobPlan plan f).jobPlan? id).bind (·.event) = (s.jobPlan? id).bind (·.event) := by
    simp only [jobPlan?, modifyJobPlan, List.find?_map]
    have ids : (fun p : JobExecutionPlan => decide (p.id = id)) ∘ (fun p => if p.id = plan then f p else p) =
        fun p => decide (p.id = id) := by
      funext p
      simp only [Function.comp]
      split
      · rw [(same p).1]
      · rfl
    rw [ids]
    cases s.jobPlans.find? (fun p => decide (p.id = id)) with
    | none => rfl
    | some p =>
      simp only [Option.map_some, Option.bind_some]
      split
      · exact (same p).2
      · rfl
  by_cases none_ : id = 0
  · simp [eventOf, none_]
  · simp only [eventOf, if_neg none_, events]

theorem eventOf_mark (s : Store) (id plan : Nat) (state : CurrentXjobState) (date : String) :
    (s.mark plan state date).eventOf id = s.eventOf id := by
  by_cases none_ : plan = 0
  · simp [mark, none_, eventOf, jobPlan?]
  · have modified :=
      eventOf_modify (s := s) (f := ({ · with currentXjobState := some state, currentXjobDate := some date }))
      id plan fun _ => ⟨rfl, rfl⟩
    rw [← modified]
    simp only [mark, if_neg none_, eventOf, jobPlan?]

/-- What `FailNodeHandler.exit` makes of the rows of a run: none stays running. -/
def Settles (key : String) (before after : XjobState) : Prop :=
  after.id = before.id ∧ after.currentExecutorKey = before.currentExecutorKey ∧
    (before.currentExecutorKey = key → after.jobPlanNodeState.isRunningState = false) ∧
    (before.currentExecutorKey ≠ key → after = before)

theorem executeXJob_ok (env : Env) {node : JobPlanNode} {xjobMeta : XjobMeta} (given : node.xjobMeta = some xjobMeta)
    (key : String) (id : Nat) (type : XjobExecutorType) (args : Option String) (s : Store) :
    ∃ event, event.eventID = env.idPrefix ++ toString (env.generateID s.tick) ∧
      executeXJob env key node id type args s =
        .ok event { s.dispatch event ⟨node.name, id, key⟩ with tick := s.tick + 1 } :=
  ⟨_, rfl, executeXJob_some env given key id type args s⟩

end Store

/-! ### Single calls -/

/-- The second state is the first up to some more requests. -/
def Upto (s t : Run) : Prop := ∃ n, s.store.tick ≤ n ∧ t = { s with store := { s.store with tick := n } }

theorem Upto.refl (s : Run) : Upto s s := ⟨_, le_rfl, rfl⟩

section Calls

variable {env : Env} {wf : Workflow} (dao : ∀ n, env.daoSucceeds n = true) {s t : Run} (here : Upto s t)
include here

theorem newDate_returns : Returns (onStore (Store.newDate env)) t fun _ => Upto s := by
  obtain ⟨n, later, rfl⟩ := here
  exact ⟨_, _, rfl, n + 1, later.trans (Nat.le_succ n), rfl⟩

theorem record_returns (act : Act) : Returns (record act) t fun _ => Upto { s with trace := s.trace ++ [act] } := by
  obtain ⟨n, later, rfl⟩ := here
  exact ⟨(), _, rfl, n, later, rfl⟩

theorem setStatus_returns (status : WorkflowStatus) :
    Returns (setStatus status) t fun _ =>
      Upto { s with status := status, trace := s.trace ++ [.assigned status] } := by
  obtain ⟨n, later, rfl⟩ := here
  exact ⟨(), _, rfl, n, later, rfl⟩

theorem checkCurrentExecutorKey_returns : Returns (checkCurrentExecutorKey wf) t fun _ => Upto s := by
  have visible : isBlank (some wf.getWorkflowKey) = false := isBlank_numeral ..
  exact ⟨(), t, by simp [checkCurrentExecutorKey, visible], here⟩

variable (wf) in
theorem checkJobProgress_returns {context : NodeContext} {progress : JobProgress}
    (given : context.jobProgress = some progress) (real : progress.xjobStateID ≠ 0) :
    Returns (checkJobProgress wf context) t fun result u => result = progress ∧ Upto s u := by
  refine (checkCurrentExecutorKey_returns here).bind fun _ _ here => ?_
  simp only [given, if_neg real]
  exact Returns.pure ⟨rfl, here⟩

include dao

omit here in
theorem daoCall_ok (s : Store) : Store.daoCall env s = .ok () { s with tick := s.tick + 1 } := by
  rw [Store.daoCall_apply, dao, if_pos rfl]

theorem addJobState_returns (x : XjobState) :
    Returns (addJobState env x) t fun saved u => saved = { x with id := s.store.lastXjobStateID + 1 } ∧
      Upto { s with
        trace := s.trace ++ [.added (s.store.lastXjobStateID + 1)]
        store := s.store.insertXjobState x } u := by
  obtain ⟨n, later, rfl⟩ := here
  refine ⟨_, _, ?_, rfl, n + 1, later.trans (Nat.le_succ n), rfl⟩
  simp only [addJobState, bind_apply, onStore_apply, Store.addJobState, daoCall_ok dao]
  rfl

theorem updJobState_returns (x : XjobState) :
    Returns (onStore (Store.updJobState env x)) t fun _ => Upto { s with store := s.store.updateXjobState x } := by
  obtain ⟨n, later, rfl⟩ := here
  refine ⟨(), _, ?_, n + 1, later.trans (Nat.le_succ n), rfl⟩
  simp only [bind_apply, onStore_apply, Store.updJobState, daoCall_ok dao]
  rfl

theorem loadXjobState_returns {id : Nat} {row : XjobState} (found : s.store.xjobState? id = some row) :
    Returns (loadXjobState env id) t fun loaded u => loaded = row ∧ Upto s u := by
  obtain ⟨n, later, rfl⟩ := here
  refine ⟨row, _, ?_, rfl, n + 1, later.trans (Nat.le_succ n), rfl⟩
  simp only [loadXjobState, bind_apply, onStore_apply, Store.queryXjobState, daoCall_ok dao, get_apply, pure_apply]
  rw [show Store.xjobState? { s.store with tick := n + 1 } id = some row from found]
  rfl

theorem queryXjobStateByCurrentExecutorKey_returns (key : String) :
    Returns (onStore (Store.queryXjobStateByCurrentExecutorKey env key)) t fun rows u =>
      rows = s.store.xjobStatesOf key ∧ Upto s u := by
  obtain ⟨n, later, rfl⟩ := here
  refine ⟨_, _, ?_, rfl, n + 1, later.trans (Nat.le_succ n), rfl⟩
  simp only [onStore_apply, Store.queryXjobStateByCurrentExecutorKey, bind_apply, daoCall_ok dao]
  rfl

theorem queryJobPlan_returns (id : Nat) :
    Returns (onStore (Store.queryJobPlan env id)) t fun plan u =>
      plan.bind (·.event) = (if id = 0 then none else s.store.jobPlan? id).bind (·.event) ∧ Upto s u := by
  obtain ⟨n, later, rfl⟩ := here
  by_cases zero : id = 0
  · refine ⟨none, _, ?_, by simp [zero], n, later, rfl⟩
    simp only [onStore_apply, Store.queryJobPlan, zero, if_true]
    rfl
  · refine ⟨(s.store.jobPlan? id).map ({ · with jobPlanNodeList := [] }), _, ?_, ?_, n + 1,
      later.trans (Nat.le_succ n), rfl⟩
    · simp only [onStore_apply, Store.queryJobPlan, zero, if_false, bind_apply, daoCall_ok dao]
      rfl
    · rw [if_neg zero]
      cases s.store.jobPlan? id <;> rfl

theorem changeJobExecutionPlanCurrentXjobState_returns (id : Nat) (state : CurrentXjobState) :
    Returns (onStore (Store.changeJobExecutionPlanCurrentXjobState env id state)) t fun _ u =>
      ∃ date, Upto { s with store := s.store.mark id state date } u := by
  obtain ⟨n, later, rfl⟩ := here
  by_cases zero : id = 0
  · refine ⟨(), _, ?_, env.now n, n + 1, later.trans (Nat.le_succ n), rfl⟩
    simp only [onStore_apply, Store.changeJobExecutionPlanCurrentXjobState, bind_apply, Store.newDate, Store.request,
      Store.updateJobPlanCurrentXjobState, zero, Store.mark, if_true]
    rfl
  · refine ⟨(), _, ?_, env.now n, n + 3, later.trans (Nat.le_add_right n 3), rfl⟩
    simp only [onStore_apply, Store.changeJobExecutionPlanCurrentXjobState, bind_apply, Store.newDate, Store.request,
      Store.updateJobPlanCurrentXjobState, zero, Store.mark, if_false, Store.queryJobPlan,
      modifyGet_apply, daoCall_ok dao, modify_apply, get_apply, pure_apply]
    rfl

end Calls

/-! ### Handlers -/

section Handlers

variable {env : Env} {wf : Workflow} (dao : ∀ n, env.daoSucceeds n = true) {s t : Run} (here : Upto s t)
  {node : JobPlanNode}

theorem attempt_returns {α : Type} {body : RunM α} {Q : α → Run → Prop} (returns : Returns body s Q) (otherwise : α) :
    Returns (attempt body otherwise) s Q := returns.catching

/-- A node with an optional job dispatches it for the given row, or does nothing. -/
inductive Notified (env : Env) (wf : Workflow) (node : JobPlanNode) (id : Nat) (s : Run) : Run → Prop where
  | silent (none_ : node.xjobMeta = none) : Notified env wf node id s s
  | sent (event : JobEvent) (k : Nat) (later : s.store.tick ≤ k)
      (named : event.eventID = env.idPrefix ++ toString (env.generateID k)) :
    Notified env wf node id s { s with
      trace := s.trace ++ [.dispatched node.name id event]
      store := { s.store.dispatch event ⟨node.name, id, wf.getWorkflowKey⟩ with tick := k + 1 } }

include dao here

/-- The start node's row is saved and the node is left at once. -/
theorem startEnter_returns (context : NodeContext) :
    Returns (StartNodeHandler.enter env wf node context) t fun result u => ∃ date,
      result = (true, contextOf { newXjobState wf node date with id := s.store.lastXjobStateID + 1 }) ∧
      Upto { s with
        trace := s.trace ++ [.added (s.store.lastXjobStateID + 1)]
        store := s.store.insertXjobState (newXjobState wf node date) } u := by
  refine (checkCurrentExecutorKey_returns here).bind fun _ _ here => attempt_returns ?_ _
  refine (newDate_returns here).bind fun date _ here => ?_
  refine (addJobState_returns dao here _).bind fun saved _ post => ?_
  obtain ⟨rfl, here⟩ := post
  exact Returns.pure ⟨date, rfl, here⟩

theorem startExit_returns {context : NodeContext} {progress : JobProgress} {row : XjobState}
    (given : context.jobProgress = some progress) (real : progress.xjobStateID ≠ 0)
    (found : s.store.xjobState? progress.xjobStateID = some row) :
    Returns (StartNodeHandler.exit env wf node context) t fun target u => target = node.toNode ∧
      ∃ runTime date state, state.isRunningState = false ∧
        Upto { s with
          store := (s.store.updateXjobState { row with runTime := runTime, jobPlanNodeState := state }).mark
            wf.jobExecutionPlan.id .doing date } u := by
  refine (checkJobProgress_returns wf here given real).bind fun _ _ post => ?_
  obtain ⟨rfl, here⟩ := post
  refine (loadXjobState_returns dao here found).bind fun _ _ post => ?_
  obtain ⟨rfl, here⟩ := post
  refine (newDate_returns here).bind fun runTime _ here => ?_
  refine Returns.bind (attempt_returns ?_ _) fun _ t post => Returns.pure ⟨rfl, post⟩
  refine (updJobState_returns dao here _).bind fun _ _ here => ?_
  refine (changeJobExecutionPlanCurrentXjobState_returns dao here _ _).conseq fun _ t post => ?_
  obtain ⟨date, here⟩ := post
  refine ⟨some runTime, date, _, ?_, here⟩
  split <;> rfl

omit dao in
variable (env wf) in
/-- A node with a job gets an event ID of its own. -/
theorem executeXJob_returns (job : node.xjobMeta.isSome = true) (id : Nat) (args : Option String) :
    Returns (executeXJob env wf node id args) t fun _ u => ∃ event k, s.store.tick ≤ k ∧
      event.eventID = env.idPrefix ++ toString (env.generateID k) ∧
      Upto { s with
        trace := s.trace ++ [.dispatched node.name id event]
        store := { s.store.dispatch event ⟨node.name, id, wf.getWorkflowKey⟩ with tick := k + 1 } } u := by
  obtain ⟨n, later, rfl⟩ := here
  obtain ⟨xjobMeta, given⟩ := Option.isSome_iff_exists.mp job
  obtain ⟨event, named, done⟩ := Store.executeXJob_ok env given wf.getWorkflowKey id .auto args
    { s.store with tick := n }
  refine ⟨(), _, ?_, event, n, later, named, n + 1, le_rfl, rfl⟩
  simp only [executeXJob, bind_apply, onStore_apply, done]
  rfl

/-- The job of an action is dispatched for its own row. -/
theorem actionEnter_returns (sound : s.store.Sound) (job : node.xjobMeta.isSome = true) :
    Returns (ActionNodeHandler.enter env wf node) t fun _ u => ∃ row event k,
      row.id = s.store.lastXjobStateID + 1 ∧ row.currentExecutorKey = wf.getWorkflowKey ∧
      row.jobPlanNodeState = .notifySuccess ∧ s.store.tick ≤ k ∧
      event.eventID = env.idPrefix ++ toString (env.generateID k) ∧
      Upto { s with
        trace := s.trace ++ [.added row.id] ++ [.dispatched node.name row.id event]
        store := { s.store.dispatch event ⟨node.name, row.id, wf.getWorkflowKey⟩ with
          tick := k + 1, xjobStates := s.store.xjobStates ++ [row], lastXjobStateID := row.id } } u := by
  refine (newDate_returns here).bind fun date _ here => ?_
  refine Returns.bind (attempt_returns (addJobState_returns dao here _) _) fun saved _ post => ?_
  obtain ⟨rfl, here⟩ := post
  refine (executeXJob_returns env wf here job _ _).bind fun _ _ post => ?_
  obtain ⟨event, k, later, named, here⟩ := post
  refine Returns.bind (attempt_returns (updJobState_returns dao here _) _) fun _ _ here => Returns.pure ?_
  obtain ⟨n, more, rfl⟩ := here
  refine ⟨{ newXjobState wf node date with id := s.store.lastXjobStateID + 1, jobPlanNodeState := .notifySuccess },
    event, k, rfl, rfl, rfl, later, named, n, more, ?_⟩
  simp only [Store.updateXjobState, Store.insertXjobState, Store.dispatch]
  rw [sound.map_newest rfl]
  rfl

/-- The job of a fail node, if it has one, is dispatched for the node's row. -/
theorem failEnter_returns (sound : s.store.Sound) :
    Returns (FailNodeHandler.enter env wf node) t fun result u => ∃ row v,
      row.id = s.store.lastXjobStateID + 1 ∧ row.currentExecutorKey = wf.getWorkflowKey ∧
      result = (false, contextOf row) ∧
      Notified env wf node row.id { s with trace := s.trace ++ [.added row.id] } v ∧
      Upto { v with
        store := { v.store with xjobStates := s.store.xjobStates ++ [row], lastXjobStateID := row.id } } u := by
  refine (newDate_returns here).bind fun date _ here => ?_
  refine (addJobState_returns dao here _).bind fun saved _ post => ?_
  obtain ⟨rfl, here⟩ := post
  -- a fail node notifies only if it has a job
  cases job : node.xjobMeta.isSome with
  | false =>
    simp only [Bool.false_eq_true, if_false]
    exact Returns.pure ⟨_, _, rfl, rfl, rfl, .silent (by simpa using job), here⟩
  | true =>
    simp only [if_true]
    obtain ⟨_, u, ran, event, k, later, named, here⟩ := executeXJob_returns env wf here job
      (s.store.lastXjobStateID + 1) wf.args
    refine Returns.bind (Q := fun notified w => notified = true ∧ w = u) ⟨true, u, ?_, rfl, rfl⟩ fun _ _ post => ?_
    · simp only [attempt, catching, bind_apply, ran, pure_apply]
    obtain ⟨rfl, rfl⟩ := post
    refine (updJobState_returns dao here _).bind fun _ _ here => Returns.pure ?_
    obtain ⟨n, more, rfl⟩ := here
    refine ⟨_, _, rfl, rfl, rfl, .sent event k later named, n, more, ?_⟩
    -- the insertion and the update fall on the same, newest row
    simp only [Store.updateXjobState, Store.insertXjobState, Store.dispatch]
    rw [sound.map_newest rfl]
    rfl

theorem failRunning_returns (x : XjobState) :
    Returns (FailNodeHandler.failRunning env x) t fun _ u => ∃ f : XjobState → XjobState,
      (∀ row, (f row).id = row.id ∧ (f row).currentExecutorKey = row.currentExecutorKey ∧
        (f row).jobPlanNodeState = .resultError) ∧
      Upto { s with store := { s.store with xjobStates := s.store.xjobStates.map fun row =>
        if x.jobPlanNodeState.isRunningState = true ∧ row.id = x.id then f row else row } } u := by
  unfold FailNodeHandler.failRunning
  cases running : x.jobPlanNodeState.isRunningState with
  | false =>
    refine Returns.pure ⟨fun row => { row with jobPlanNodeState := .resultError }, fun _ => ⟨rfl, rfl, rfl⟩, ?_⟩
    simpa using here
  | true =>
    refine (newDate_returns here).bind fun date _ here => ?_
    refine (updJobState_returns dao here _).conseq fun _ _ here => ⟨fun row => Store.XjobState.overwrite row
      { x with
        runInfo := some ("由[" ++ x.jobPlanNodeState.getStateName ++ "]自动转为[失败]" ++ orNull x.runInfo)
        runTime := some date
        jobPlanNodeState := .resultError }, fun _ => ⟨rfl, rfl, rfl⟩, ?_⟩
    simpa only [true_and, Store.updateXjobState] using here

/-- A running row of the run is still to be dealt with. -/
def Pending (key : String) (todo : List XjobState) (before after : XjobState) : Prop :=
  after.id = before.id ∧ after.currentExecutorKey = before.currentExecutorKey ∧
    (before.currentExecutorKey = key → after.jobPlanNodeState.isRunningState = true →
      ∃ x ∈ todo, x.id = after.id ∧ x.jobPlanNodeState.isRunningState = true) ∧
    (before.currentExecutorKey ≠ key → after = before)

theorem failAll_returns (sound : s.store.Sound) (key : String) :
    Returns ((s.store.xjobStatesOf key).forM (FailNodeHandler.failRunning env)) t fun _ u => ∃ g,
      (∀ row ∈ s.store.xjobStates, Store.Settles key row (g row)) ∧
      Upto { s with store := { s.store with xjobStates := s.store.xjobStates.map g } } u := by
  -- the rows still to be visited cover every row of the run that is still running
  let I (todo : List XjobState) (u : Run) : Prop := todo ⊆ s.store.xjobStatesOf key ∧ ∃ g,
    (∀ row ∈ s.store.xjobStates, Pending key todo row (g row)) ∧
    Upto { s with store := { s.store with xjobStates := s.store.xjobStates.map g } } u
  have begun : I (s.store.xjobStatesOf key) t := by
    refine ⟨fun _ member => member, id, fun row member => ⟨rfl, rfl, fun own running => ?_, fun _ => rfl⟩, ?_⟩
    · exact ⟨row, by simp [Store.xjobStatesOf, member, own], rfl, running⟩
    · simpa using here
  have turn (x : XjobState) (todo : List XjobState) (w : Run) (holds : I (x :: todo) w) :
      Returns (FailNodeHandler.failRunning env x) w fun _ => I todo := by
    obtain ⟨inside, g, pending, here⟩ := holds
    refine (failRunning_returns dao here x).conseq fun _ u post => ?_
    obtain ⟨f, same, here⟩ := post
    rw [List.map_map] at here
    refine ⟨fun y member => inside (by simp [member]), _, fun row member => ?_, here⟩
    obtain ⟨sameId, sameKey, due, aside⟩ := pending row member
    simp only [Function.comp]
    split
    next hit =>
      obtain ⟨fId, fKey, failed⟩ := same (g row)
      refine ⟨fId.trans sameId, fKey.trans sameKey, fun _ running => ?_, fun foreign => ?_⟩
      · rw [failed] at running
        cases running
      · -- ids are unique, so a row of another run is not hit
        have visited : x ∈ s.store.xjobStatesOf key := inside (by simp)
        simp only [Store.xjobStatesOf, List.mem_filter, decide_eq_true_eq] at visited
        have equal := sound.eq_of_id visited.1 member (hit.2.symm.trans sameId)
        exact absurd (equal ▸ visited.2) foreign
    next missed =>
      refine ⟨sameId, sameKey, fun own running => ?_, aside⟩
      obtain ⟨y, listed, id, alive⟩ := due own running
      rcases List.mem_cons.mp listed with rfl | later
      · exact absurd ⟨alive, id.symm⟩ missed
      · exact ⟨y, later, id, alive⟩
  refine (Returns.forM turn _ begun).conseq fun _ u post => ?_
  obtain ⟨_, g, pending, here⟩ := post
  refine ⟨g, fun row member => ?_, here⟩
  obtain ⟨sameId, sameKey, due, aside⟩ := pending row member
  refine ⟨sameId, sameKey, fun own => ?_, aside⟩
  cases running : (g row).jobPlanNodeState.isRunningState with
  | false => rfl
  | true =>
    obtain ⟨x, none_, _⟩ := due own running
    cases none_

theorem failExit_returns {context : NodeContext} {progress : JobProgress} {own : XjobState}
    (sound : s.store.Sound) (given : context.jobProgress = some progress) (real : progress.xjobStateID ≠ 0)
    (member : own ∈ s.store.xjobStates) (same : own.id = progress.xjobStateID)
    (key : own.currentExecutorKey = wf.getWorkflowKey) :
    Returns (FailNodeHandler.exit env wf context) t fun _ u => ∃ g date,
      (∀ row ∈ s.store.xjobStates, Store.Settles wf.getWorkflowKey row (g row)) ∧
      Upto { s with
        store := { s.store.mark wf.jobExecutionPlan.id .error date with
          xjobStates := s.store.xjobStates.map g } } u := by
  refine (checkJobProgress_returns wf here given real).bind fun _ _ post => ?_
  obtain ⟨rfl, here⟩ := post
  -- the exit reads its own row back, which only a sound table promises
  refine (loadXjobState_returns dao here (same ▸ sound.find member)).bind fun own _ post => ?_
  obtain ⟨rfl, here⟩ := post
  refine (newDate_returns here).bind fun runTime _ here => ?_
  refine Returns.bind (attempt_returns ?_ _) fun _ t post => Returns.pure post
  refine (updJobState_returns dao here _).bind fun _ _ here => ?_
  refine (changeJobExecutionPlanCurrentXjobState_returns dao here _ _).bind fun _ _ post => ?_
  obtain ⟨date, here⟩ := post
  refine (queryXjobStateByCurrentExecutorKey_returns dao here _).bind fun _ _ post => ?_
  obtain ⟨rfl, here⟩ := post
  -- then all rows of the run are read and the running ones among them set to failed
  have settled := failAll_returns dao here ((sound.update _).mark _ _ _) wf.getWorkflowKey
  refine settled.conseq fun _ u post => ?_
  obtain ⟨g, settles, here⟩ := post
  refine ⟨fun row => g (if row.id = own.id then Store.XjobState.overwrite row
      { own with runTime := some runTime, jobPlanNodeState := .resultSuccess } else row),
        date, fun row listed => ?_, ?_⟩
  · obtain ⟨sameId, sameKey, quiet, aside⟩ := settles (if row.id = own.id then Store.XjobState.overwrite row
      { own with runTime := some runTime, jobPlanNodeState := .resultSuccess } else row)
      (List.mem_map.mpr ⟨row, listed, rfl⟩)
    -- its own row is updated before that, so it is no longer running
    by_cases hit : row.id = own.id
    · obtain rfl := sound.eq_of_id listed member hit
      simp only [if_true] at sameId sameKey quiet ⊢
      exact ⟨sameId, sameKey, quiet, fun foreign => absurd key foreign⟩
    · simp only [hit, if_false] at sameId sameKey quiet aside ⊢
      exact ⟨sameId, sameKey, quiet, aside⟩
  · simpa only [Store.mark, Store.modifyJobPlan, Store.updateXjobState, List.map_map, Function.comp_def] using here

/-- The end node marks the plan and produces its event. -/
theorem endExit_returns {context : NodeContext} {progress : JobProgress} {row : XjobState}
    (given : context.jobProgress = some progress) (real : progress.xjobStateID ≠ 0)
    (found : s.store.xjobState? progress.xjobStateID = some row) :
    Returns (EndNodeHandler.exit env wf node context) t fun _ u => ∃ runTime date,
      Upto { s with
        store := { (s.store.updateXjobState { row with runTime := runTime, jobPlanNodeState := .resultSuccess }).mark
            wf.jobExecutionPlan.id .success date with
          producedEvents := s.store.producedEvents ++ s.store.eventOf node.jobExecutionPlanID } } u := by
  refine (checkJobProgress_returns wf here given real).bind fun _ _ post => ?_
  obtain ⟨rfl, here⟩ := post
  refine (loadXjobState_returns dao here found).bind fun _ _ post => ?_
  obtain ⟨rfl, here⟩ := post
  refine (newDate_returns here).bind fun runTime _ here => ?_
  refine Returns.bind (attempt_returns ((updJobState_returns dao here _).bind fun _ _ here =>
    changeJobExecutionPlanCurrentXjobState_returns dao here _ _) _) fun _ _ post => ?_
  obtain ⟨date, here⟩ := post
  refine (queryJobPlan_returns dao here _).bind fun plan u post => ?_
  obtain ⟨event, here⟩ := post
  -- what the end node produces is the event of the plan as stored, and marking leaves it alone
  have listed : s.store.eventOf node.jobExecutionPlanID = match plan.bind (·.event) with
      | none => []
      | some event => if isBlank (some event) then [] else [event] := by
    rw [event]
    exact (Store.eventOf_mark (s.store.updateXjobState _) _ _ _ _).symm
  rw [listed]
  cases plan with
  | none => exact Returns.pure ⟨some runTime, date, by simp only [Option.bind_none, List.append_nil]; exact here⟩
  | some plan =>
    simp only [Option.bind_some]
    cases plan.event with
    | none => exact Returns.pure ⟨some runTime, date, by simp only [List.append_nil]; exact here⟩
    | some event =>
      dsimp only
      split
      next blank => exact Returns.pure ⟨some runTime, date, by simp only [List.append_nil]; exact here⟩
      next visible =>
        obtain ⟨n, later, rfl⟩ := here
        exact ⟨none, _, rfl, some runTime, date, n, later, rfl⟩

omit dao in
theorem notify_returns (id : Nat) :
    Returns (EndNodeHandler.notify env wf node id) t fun _ u => ∃ v, Notified env wf node id s v ∧
      v.store.xjobStates = s.store.xjobStates ∧ v.store.lastXjobStateID = s.store.lastXjobStateID ∧ Upto v u := by
  unfold EndNodeHandler.notify
  cases job : node.xjobMeta.isSome with
  | false => exact Returns.pure ⟨s, .silent (by simpa using job), rfl, rfl, here⟩
  | true =>
    refine (executeXJob_returns env wf here job id wf.args).bind fun _ _ post => Returns.pure ?_
    obtain ⟨event, k, later, named, here⟩ := post
    exact ⟨_, .sent event k later named, rfl, rfl, here⟩

/-- The job of an end node, if it has one, is dispatched for the row 0. -/
theorem endEnter_returns :
    Returns (EndNodeHandler.enter env wf node) t fun result u => ∃ row v,
      row.id = s.store.lastXjobStateID + 1 ∧ row.currentExecutorKey = wf.getWorkflowKey ∧
      result = (false, contextOf row) ∧ Notified env wf node 0 s v ∧
      Upto { v with
        trace := v.trace ++ [.added row.id]
        store := { v.store with xjobStates := s.store.xjobStates ++ [row], lastXjobStateID := row.id } } u := by
  refine (newDate_returns here).bind fun date _ here => ?_
  refine (notify_returns here 0).bind fun state _ post => ?_
  obtain ⟨v, notified, sameRows, sameLast, here⟩ := post
  refine Returns.bind (attempt_returns (addJobState_returns dao here _) _) fun saved _ post => Returns.pure ?_
  obtain ⟨rfl, here⟩ := post
  simp only [sameLast, Store.insertXjobState, sameRows] at here
  exact ⟨_, v, by rw [sameLast], rfl, rfl, notified, by simpa only [sameLast] using here⟩

/-! ### Reports -/

/-- The row of a report and what it says. -/
structure Reported (s : Run) (context : NodeContext) (row : XjobState) (state : JobPlanNodeState) : Prop where
  progress : ∃ progress, context.jobProgress = some progress ∧ progress.xjobStateID = row.id ∧
    JobPlanNodeState.valueOf progress.jobPlanNodeState = some state
  result : state.isResultState = true
  real : row.id ≠ 0
  found : s.store.xjobState? row.id = some row

/-- An error that is to be answered by a retry. -/
def HasRetry (node : JobPlanNode) (row : XjobState) (state : JobPlanNodeState) : Prop :=
  state = .resultError ∧ node.errorMaxRedoTimes > 0 ∧ row.executeTimes < node.errorMaxRedoTimes

/-- What a report writes into its row. -/
structure Written (row : XjobState) (state : JobPlanNodeState) (x : XjobState) : Prop where
  id : x.id = row.id
  state : x.jobPlanNodeState = state

/-- The row is written first; then the successor is named, or the retry fails. -/
theorem actionExit_cases {context : NodeContext} {row : XjobState} {state : JobPlanNodeState}
    (reported : Reported s context row state) :
    ∃ x u, Written row state x ∧ Upto { s with store := s.store.updateXjobState x } u ∧
      ((¬ HasRetry node row state ∧
        ActionNodeHandler.exit env wf { jobPlanNode := node } context t = .ok (node.answer state) u) ∨
       (HasRetry node row state ∧
        ActionNodeHandler.exit env wf { jobPlanNode := node } context t = .error .nullPointerException u)) := by
  obtain ⟨progress, given, same, value⟩ := reported.progress
  -- the row is read, overwritten with the report and written back before anything is decided
  obtain ⟨progress, t1, checked, rfl, here⟩ :=
    checkJobProgress_returns wf here given (by rw [same]; exact reported.real)
  obtain ⟨row, t2, loaded, rfl, here⟩ := loadXjobState_returns dao here (same ▸ reported.found)
  let x : XjobState := { row with
    runTime := progress.runTime, runInfo := progress.runInfo, finishedPercent := progress.progress
    jobPlanNodeState := state }
  obtain ⟨_, u, updated, here⟩ := attempt_returns (updJobState_returns dao here x) ()
  refine ⟨x, u, ⟨rfl, rfl⟩, here, ?_⟩
  -- only what comes after the write depends on the result
  have whole : ActionNodeHandler.exit env wf { jobPlanNode := node } context t =
      (if state = .resultSuccess then pure node.okNode
       else if state = .resultError then
         if node.errorMaxRedoTimes > 0 ∧ row.executeTimes < node.errorMaxRedoTimes then throw .nullPointerException
         else pure node.errorNode
       else pure none : RunM (Option String)) u := by
    unfold ActionNodeHandler.exit
    rw [bind_ok checked]
    simp only [value, reported.result, Bool.not_true, Bool.false_eq_true, if_false]
    rw [bind_ok loaded, bind_ok updated]
    rfl
  -- a retry throws, by design, the exception the catch block of the report swallows
  by_cases retries : HasRetry node row state
  · refine .inr ⟨retries, ?_⟩
    obtain ⟨rfl, below⟩ := retries
    simp only [whole, reduceCtorEq, if_false, if_true, if_pos below, throw_apply]
  · refine .inl ⟨retries, ?_⟩
    have result := reported.result
    cases state with
    | resultSuccess => simp only [whole, if_true, pure_apply, JobPlanNode.answer]
    | resultError =>
      have above : ¬ (node.errorMaxRedoTimes > 0 ∧ row.executeTimes < node.errorMaxRedoTimes) :=
        fun below => retries ⟨rfl, below⟩
      simp only [whole, reduceCtorEq, if_false, if_true, if_neg above, pure_apply, JobPlanNode.answer]
    | dispatchFail => simp only [whole, reduceCtorEq, if_false, pure_apply, JobPlanNode.answer]
    | _ => simp [JobPlanNodeState.isResultState] at result

end Handlers

end Hella

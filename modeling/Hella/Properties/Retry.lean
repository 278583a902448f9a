import Hella.Control.Handlers

/-!
# Retrying a failed action

`ActionNodeHandler.exit` retries a failed job as long as the row's counter is below
`errorMaxRedoTimes`. `completeJobPlanNode` calls it on a handler that was created
for the call, whose `xjobContext` is still null, so the retry itself throws and the
workflow fails: `retry_fails`. `Retries` is what a retry is meant to do.
-/
namespace Hella

open Exec

/-- One retry: the workflow goes on, no node is entered, and the node's job is
dispatched once more, for the same run and row and with the arguments of an earlier
dispatch, and the row counts it. -/
structure Retries (wf : Workflow) (node : JobPlanNode) (row : XjobState) (s t : Run) : Prop where
  running : t.status = .running
  nothing_entered : ∀ name, t.trace.count (.entered name) = s.trace.count (.entered name)
  dispatched_again : ∃ acts earlier event,
    t.trace = s.trace ++ acts ∧
    acts.filter (· matches .dispatched ..) = [.dispatched node.name row.id event] ∧
    .dispatched node.name row.id earlier ∈ s.trace ∧
    event.argsValue = earlier.argsValue ∧
    t.store.jobNodeRuningInfosMap.lookup event.eventID = some ⟨node.name, row.id, wf.getWorkflowKey⟩
  counted : (t.store.xjobState? row.id).map (·.executeTimes) = some (row.executeTimes + 1)

section Throws

variable {P : Run → Prop} {α : Type} (env : Env) (wf : Workflow)

theorem checkJobProgress_throws (context : NodeContext) :
    Triple P (checkJobProgress wf context) (fun progress s => P s ∧ context.jobProgress = some progress)
      (fun e _ => e.isException = true) := by
  have key : Triple P (checkCurrentExecutorKey wf) (fun _ => P) (fun e _ => e.isException = true) := by
    unfold checkCurrentExecutorKey
    split
    · exact Triple.throw fun _ _ => rfl
    · exact Triple.pure fun _ holds => holds
  refine key.bind fun _ => ?_
  split
  next => exact Triple.throw fun _ _ => rfl
  next progress same =>
    split
    · exact Triple.throw fun _ _ => rfl
    · exact Triple.pure fun _ holds => ⟨holds, same⟩

theorem loadXjobState_throws (row : XjobState) (id : Nat) :
    Triple (fun s => s.store.xjobState? id = some row) (loadXjobState env id) (fun found _ => found = row)
      (fun e _ => e.isException = true) := by
  intro s stored
  simp only [loadXjobState, bind_apply, onStore_apply, Store.queryXjobState, Store.daoCall_apply]
  cases env.daoSucceeds s.store.tick with
  | true => simp [Store.xjobState?, show s.store.xjobStates.find? _ = _ from stored]
  | false => simp [Throwable.isException]

theorem updJobState_throws (x : XjobState) :
    Triple P (attempt (onStore (Store.updJobState env x)) ()) (fun _ _ => True)
      (fun e _ => e.isException = true) := by
  intro s _
  simp only [attempt, catching, onStore_apply, Store.updJobState, bind_apply, Store.daoCall_apply]
  cases env.daoSucceeds s.store.tick <;> simp [Throwable.isException]

/-- A failed report below the retry limit always throws. -/
theorem actionExit_throws (node : JobPlanNode) (context : NodeContext) (progress : JobProgress)
    (row : XjobState) (reported : context.jobProgress = some progress)
    (error : progress.jobPlanNodeState = JobPlanNodeState.resultError.name)
    (limit : 0 < node.errorMaxRedoTimes) (below : row.executeTimes < node.errorMaxRedoTimes) :
    Triple (fun s => s.store.xjobState? progress.xjobStateID = some row)
      (ActionNodeHandler.exit env wf { jobPlanNode := node } context) (fun _ _ => False)
      (fun e _ => e.isException = true) := by
  refine (checkJobProgress_throws wf context).bind fun given => Triple.of_imp ?_ fun _ known => known.2
  intro same
  obtain rfl : given = progress := Option.some.inj (same.symm.trans reported)
  simp only [error, JobPlanNodeState.valueOf_name]
  have load := (loadXjobState_throws env row given.xjobStateID).conseq
    (P := fun s => s.store.xjobState? given.xjobStateID = some row ∧ context.jobProgress = some given)
    (fun _ stored => stored.1) (fun _ _ post => post) (fun _ _ post => post)
  refine load.bind fun found => Triple.of_imp ?_ fun _ known => known
  rintro rfl
  refine (updJobState_throws env _).bind fun _ => ?_
  simp only [reduceCtorEq, if_false, if_true, if_pos (And.intro limit below)]
  exact Triple.bind (Q := fun _ _ => False) (Triple.throw fun _ _ => rfl) fun _ => Triple.of_false

end Throws

section Retry

variable (env : Env) (wf : Workflow) {name : String} {node : JobPlanNode} {context : NodeContext}
  {progress : JobProgress} {row : XjobState}

/-- The workflow has failed, and between the two states nothing was entered or dispatched. -/
structure FailedQuietly (s t : Run) : Prop where
  failed : t.status = .failed
  nothing_entered : ∀ name, t.trace.count (.entered name) = s.trace.count (.entered name)
  nothing_dispatched :
    t.trace.filter (· matches .dispatched ..) = s.trace.filter (· matches .dispatched ..)

theorem completeJobPlanNode_retry (found : wf.getNode name = some node) (action : node.type = .action)
    (reported : context.jobProgress = some progress)
    (error : progress.jobPlanNodeState = JobPlanNodeState.resultError.name)
    (limit : 0 < node.errorMaxRedoTimes) (below : row.executeTimes < node.errorMaxRedoTimes) (s : Run)
    (stored : s.store.xjobState? progress.xjobStateID = some row) :
    ∃ t, completeJobPlanNode env wf name context s = .ok () t ∧ t.status = .failed ∧
      t.trace = s.trace ++ [.completing name context.xjobStateID, .assigned .failed] := by
  let called (u : Run) : Prop := u.trace = s.trace ++ [.completing name context.xjobStateID]
  let done (u : Run) : Prop := u.status = .failed ∧
    u.trace = s.trace ++ [.completing name context.xjobStateID, .assigned .failed]
  have free : StoreFree called := fun _ _ holds => holds
  have exits := (StoreFree.actionExit env wf free node context).and
    (actionExit_throws env wf node context progress row reported error limit below)
  -- the exit throws after the row is written, and the catch block fails the run
  have whole : Triple (· = s) (completeJobPlanNode env wf name context) (fun _ => done)
      (fun _ _ => False) := by
    refine Triple.bind (Q := fun _ u => called u ∧ u.store.xjobState? progress.xjobStateID = some row)
      (Triple.modifying ?_) fun _ => ?_
    · rintro _ rfl
      exact ⟨rfl, stored⟩
    refine Triple.bind (Q := fun _ => done) (Triple.catching
      (F := fun e u => called u ∧ e.isException = true) ?_ ?_ ?_) fun _ => ?_
    · rw [found]
      refine createNodeHandler_bind _ _ (fun missing => nomatch missing) fun n same => ?_
      obtain rfl := Option.some.inj same
      refine Triple.bind (Q := fun _ _ => False) ?_ fun _ => Triple.of_false
      dsimp only [NodeHandler.multiExit]
      rw [action]
      exact Triple.bind (exits.conseq (fun _ pre => pre) (fun _ _ post => post.2.elim)
        fun _ _ post => post) fun _ => Triple.of_false
    · intro e _
      refine Triple.modifying fun u thrown => ⟨rfl, ?_⟩
      rw [thrown.1]
      simp
    · intro e u passed thrown
      simp [thrown.2] at passed
    -- writing the plan back is an attempt, so its failure changes nothing
    · refine Triple.bind (Q := fun _ => done) (Triple.getting fun _ holds => holds) fun _ => ?_
      split
      · intro u holds
        exact holds
      · exact Triple.pure fun _ holds => holds
  have result := whole s rfl
  split at result
  next t returned => exact ⟨t, returned, result⟩
  next => exact result.elim

theorem FailedQuietly.keeps (s : Run) (name : String) (context : NodeContext) :
    Keeps (FailedQuietly s) (completeJobPlanNode env wf name context) := by
  refine keeps_completeJobPlanNode_ended env wf name context ?_ ?_ ?_ ?_ ?_
  · intro t holds
    rw [holds.failed]
    rfl
  · exact fun t store holds => ⟨holds.failed, holds.nothing_entered, holds.nothing_dispatched⟩
  · constructor
    · intro t vars fork join paths holds
      exact ⟨holds.failed, by simpa using holds.nothing_entered, by simpa using holds.nothing_dispatched⟩
    · intro t vars fork join holds
      exact ⟨holds.failed, by simpa using holds.nothing_entered, by simpa using holds.nothing_dispatched⟩
  · intro t holds
    exact ⟨holds.failed, by simpa using holds.nothing_entered, by simpa using holds.nothing_dispatched⟩
  · refine Keeps.modifying fun t holds => ⟨rfl, ?_, ?_⟩
    · simpa using holds.nothing_entered
    · simpa using holds.nothing_dispatched

/-- A RESULT_ERROR below the retry limit is never retried: it fails the workflow,
and whatever reports for the node follow, nothing is entered or dispatched again. -/
theorem retry_fails (found : wf.getNode name = some node) (action : node.type = .action)
    (reported : context.jobProgress = some progress)
    (error : progress.jobPlanNodeState = JobPlanNodeState.resultError.name)
    (limit : 0 < node.errorMaxRedoTimes) (below : row.executeTimes < node.errorMaxRedoTimes) (s : Run)
    (stored : s.store.xjobState? progress.xjobStateID = some row) (more : List NodeContext) :
    ¬ Retries wf node row s (after (completeJobPlanNode env wf name context s)) ∧
      FailedQuietly s (after ((context :: more).forM (completeJobPlanNode env wf name) s)) := by
  obtain ⟨t, returned, failed, trace⟩ :=
    completeJobPlanNode_retry env wf found action reported error limit below s stored
  have quiet : FailedQuietly s t := ⟨failed, by simp [trace], by simp [trace]⟩
  constructor
  · intro retries
    have kept := retries.running
    simp [returned, failed] at kept
  · change FailedQuietly s (after ((completeJobPlanNode env wf name context >>=
      fun _ => more.forM (completeJobPlanNode env wf name)) s))
    rw [bind_ok returned]
    exact (Keeps.forM fun context _ => FailedQuietly.keeps env wf s name context).after quiet

end Retry

/-! ### A plan with one retry -/

namespace OneRetry

def plan : JobExecutionPlan where
  id := 1
  jobPlanNodeList :=
    [{ id := 1, jobExecutionPlanID := 1, type := .start, name := "start", executorClusterID := "c"
       toNode := some "load" },
     { id := 2, jobExecutionPlanID := 1, type := .action, name := "load", executorClusterID := "c"
       okNode := some "end", errorNode := some "fail", errorMaxRedoTimes := 1
       xjobMeta := some { mode := "local", executionContent := "load.sh", jobClassName := "shell" } },
     { id := 3, jobExecutionPlanID := 1, type := .fail, name := "fail", executorClusterID := "c" },
     { id := 4, jobExecutionPlanID := 1, type := .end_, name := "end", executorClusterID := "c" }]

def workflow : Workflow := { workflowManager := ⟨plan, rfl⟩, engineRunKey := 1000 }

def load : JobPlanNode := plan.jobPlanNodeList[1]

/-- The workflow has started and waits for the first result of `load`. -/
def waiting : Run := after (start Env.calm workflow { store := { jobPlans := [plan] } })

def progress : JobProgress :=
  { executorType := "Auto", jobPlanNodeState := "RESULT_ERROR", xjobStateID := 2 }

def row : XjobState :=
  { id := 2, jobPlanNodeID := 2, currentExecutorKey := "10001", jobPlanNodeState := .notifySuccess
    runTime := some "20140129120000" }

theorem waiting_running : waiting.status = .running ∧ waiting.store.xjobState? 2 = some row := by
  decide +kernel

theorem completed_failed :
    (after (completeJobPlanNode Env.calm workflow "load" { jobProgress := some progress } waiting)).status
      = .failed := by
  decide +kernel

end OneRetry

/-- The first error of a node that allows one retry fails the workflow. -/
theorem oneRetry_not_retried :
    OneRetry.waiting.status = .running ∧ OneRetry.row.executeTimes < OneRetry.load.errorMaxRedoTimes ∧
      ¬ Retries OneRetry.workflow OneRetry.load OneRetry.row OneRetry.waiting
        (after (completeJobPlanNode Env.calm OneRetry.workflow "load"
          { jobProgress := some OneRetry.progress } OneRetry.waiting)) := by
  refine ⟨OneRetry.waiting_running.1, by decide, fun retries => ?_⟩
  have kept := retries.running
  rw [OneRetry.completed_failed] at kept
  exact absurd kept (by decide)

theorem retry_fails_oneRetry :
    FailedQuietly OneRetry.waiting (after ([{ jobProgress := some OneRetry.progress }].forM
      (completeJobPlanNode Env.calm OneRetry.workflow "load") OneRetry.waiting)) :=
  (@retry_fails Env.calm OneRetry.workflow "load" OneRetry.load { jobProgress := some OneRetry.progress }
    OneRetry.progress OneRetry.row (by decide) rfl rfl rfl (by decide) (by decide) OneRetry.waiting
    OneRetry.waiting_running.2 []).2

end Hella

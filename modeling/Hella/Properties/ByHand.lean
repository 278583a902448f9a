import Hella.Control.Calm
import Hella.Control.Reports
import Hella.Plans.Failures
import Hella.Web.Frames

/-!
# Nodes run by hand

A workflow loads its plan with the jobs of the nodes. A node that is run by hand is read by
a query of its own, which leaves the job in the other table, so that the call never gets as
far as the dispatcher.
-/
namespace Hella

open Exec Text

/-! ### What `saveJobExecutionPlan` stores -/

namespace PlanTables

variable {t : PlanTables} {jep : PlanEntity} {id : Nat}

theorem insertPlan_row (t : PlanTables) (jep : PlanEntity) :
    { jep with id := t.lastJobExecutionPlanID + 1, jobPlanNodeList := [] } ∈ (t.insertPlan jep).jobExecutionPlans := by
  rw [insertPlan, (insertNodes_plans _ _ _).1]
  simp [insertJobExecutionPlan]

/-- The node queries of the engine find the nodes of every stored plan, without their jobs. -/
theorem jobPlanNode?_loaded {s : Store} {row : PlanEntity} {node : JobPlanNode} (reads : s.jobPlans = t.jobPlans)
    (plan : row ∈ t.jobExecutionPlans) (stored : node ∈ t.loadNodes row.id) :
    ∃ found, s.jobPlanNode? node.id = some found ∧ found.id = node.id ∧ found.xjobMeta = none := by
  have loaded : node ∈ s.jobPlans.flatMap (·.jobPlanNodeList) := by
    rw [reads, List.mem_flatMap]
    exact ⟨_, List.mem_map.mpr ⟨row, plan, rfl⟩, stored⟩
  have present : ((s.jobPlans.flatMap (·.jobPlanNodeList)).find? (·.id = node.id)).isSome := by
    rw [List.find?_isSome]
    exact ⟨node, loaded, by simp⟩
  obtain ⟨other, first⟩ := Option.isSome_iff_exists.mp present
  have same : other.id = node.id := by simpa using List.find?_some first
  exact ⟨{ other with xjobMeta := none }, by rw [Store.jobPlanNode?, first]; rfl, same, rfl⟩

end PlanTables

theorem saveJobExecutionPlan_stores {env : PlanEnv} {jep plan : PlanEntity} {s t : PlanSystem}
    (saved : JobPlanManager.saveJobExecutionPlan env jep s = .ok plan t) :
    plan.id = s.tables.lastJobExecutionPlanID + 1 ∧ t.tables = s.tables.insertPlan jep := by
  -- saving asks Quartz for nothing, so that any Quartz may be put in its place
  let untroubled : PlanEnv := { env with quartzSucceeds := fun _ => true }
  have calm : untroubled.answering.Calm := PlanEnv.calm_answering fun _ => rfl
  have imitated : Imitated (JobPlanManager.saveJobExecutionPlan untroubled jep)
      (JobPlanManager.saveJobExecutionPlan untroubled.answering jep) := saveJobExecutionPlan_imitated jep
  have imitated := imitated s plan t saved
  obtain ⟨row, u, returned, same, leaves⟩ := saveJobExecutionPlan_calm calm (s := s) jep
  rw [imitated] at returned
  cases returned
  exact ⟨by rw [same], leaves.tables⟩

/-! ### What `executeJobPlanNode` does with it -/

namespace Engine

variable {env : Env} {e : Engine} {node : JobPlanNode} {xjobMeta : XjobMeta} {args : Option String}

/-- The node has been executed: the answer is true, one row has been saved for it that does
not say that the notice failed, and the dispatcher has been handed the node's event. -/
structure Executed (e : Engine) (node : JobPlanNode) (xjobMeta : XjobMeta) (args : Option String) (answer : Bool)
    (e' : Engine) : Prop where
  answer : answer = true
  row : ∃ row, e'.store.xjobStates = e.store.xjobStates ++ [row] ∧ row.jobPlanNodeID = node.id ∧
    row.jobPlanNodeState ≠ .notifyFail
  event : ∃ event info, event = Store.executeEvent event.eventID node xjobMeta .once args ∧
    e'.store.jobEventsMap = (e.store.dispatch event info).jobEventsMap ∧
    e'.store.jobNodeRuningInfosMap = (e.store.dispatch event info).jobNodeRuningInfosMap

/-- The row of the node says that the notice failed, and nothing has been handed to the dispatcher. -/
structure NotExecuted (e : Engine) (node : JobPlanNode) (answer : Bool) (e' : Engine) : Prop where
  answer : answer = false
  row : ∃ row, e'.store.xjobStates.getLast? = some row ∧ row.jobPlanNodeID = node.id ∧
    row.jobPlanNodeState = .notifyFail
  queues : e'.store.jobEventsMap = e.store.jobEventsMap
  infos : e'.store.jobNodeRuningInfosMap = e.store.jobNodeRuningInfosMap

/-- A node that is found is found without its job, which ends in a null pointer. -/
theorem executeJobPlanNode_bare (dao : ∀ n, env.daoSucceeds n = true) {id : Nat} (positive : id ≠ 0)
    (found : e.store.jobPlanNode? id = some node) (bare : node.xjobMeta = none) (type : XjobExecutorType)
    (args : Option String) : Returns (executeJobPlanNode env id type args) e (NotExecuted e node) := by
  -- the store after each call; `n` of them have been made
  let ticked (n : Nat) : Engine := { e with store := { e.store with tick := e.store.tick + n } }
  let fresh : XjobState :=
    { jobPlanNodeID := node.id, currentExecutorKey := toString (env.generateID (e.store.tick + 1)),
      runTime := some (env.now (e.store.tick + 2)) }
  let row : XjobState := { fresh with id := e.store.lastXjobStateID + 1 }
  let saved (n : Nat) : Engine := { e with store := { e.store.insertXjobState fresh with tick := e.store.tick + n } }
  have read : onShared (Store.queryJobPlanNodeByID env id) e = .ok (some node) (ticked 1) := by
    rw [onShared_apply, Store.queryJobPlanNodeByID, if_neg positive, bind_ok (daoCall_ok dao _), ← found]
    rfl
  have added : onShared (Store.addJobState env fresh) (ticked 3) = .ok row (saved 4) := by
    rw [onShared_apply, Store.addJobState, bind_ok (daoCall_ok dao _)]
    rfl
  have thrown : onShared (Store.executeXJob env row.currentExecutorKey node row.id type args) (saved 4) =
      .error .nullPointerException (saved 5) := by
    rw [onShared_apply, Store.executeXJob_none env bare]
  have caught : catching Throwable.isException
      (do let _ ← onShared (Store.executeXJob env row.currentExecutorKey node row.id type args); return true)
      (fun _ => return false) (saved 4) = .ok false (saved 5) := by
    simp only [catching, bind_error thrown, Throwable.isException, if_true, pure_apply]
  let failed : XjobState := { row with jobPlanNodeState := .notifyFail }
  let last : Engine :=
    { e with store := { (e.store.insertXjobState fresh).updateXjobState failed with tick := e.store.tick + 6 } }
  have marked : onShared (Store.updJobState env failed) (saved 5) = .ok () last := by
    rw [onShared_apply, Store.updJobState, bind_ok (daoCall_ok dao _)]
    rfl
  refine ⟨false, last, ?_, rfl, ⟨Store.XjobState.overwrite row failed, ?_, rfl, rfl⟩, rfl, rfl⟩
  · rw [executeJobPlanNode, bind_ok read]
    refine (bind_ok (t := ticked 2) rfl).trans ((bind_ok (t := ticked 3) rfl).trans ?_)
    exact (bind_ok added).trans ((bind_ok caught).trans (bind_ok marked))
  · simp [last, failed, row, Store.updateXjobState, Store.insertXjobState]

/-- The engine reads the tables in which a plan has just been saved, and the node is one of
those that were stored for it. -/
structure Saved (planEnv : PlanEnv) (jep : PlanEntity) (node : JobPlanNode) (e : Engine) (s t : PlanSystem) : Prop where
  saved : ∃ plan, JobPlanManager.saveJobExecutionPlan planEnv jep s = .ok plan t ∧ node ∈ t.tables.loadNodes plan.id
  own : s.tables.lastJobPlanNodeID < node.id
  reads : e.store.jobPlans = t.tables.jobPlans

theorem executeJobPlanNode_saved {planEnv : PlanEnv} {jep : PlanEntity} {s t : PlanSystem}
    (saved : Saved planEnv jep node e s t) (dao : ∀ n, env.daoSucceeds n = true) (args : Option String) :
    Returns (executeJobPlanNode env node.id .once args) e (NotExecuted e node) := by
  obtain ⟨plan, returned, stored⟩ := saved.saved
  obtain ⟨key, tables⟩ := saveJobExecutionPlan_stores returned
  have row := PlanTables.insertPlan_row s.tables jep
  rw [← tables, ← key] at row
  obtain ⟨found, read, same, bare⟩ := PlanTables.jobPlanNode?_loaded saved.reads row stored
  have failed := executeJobPlanNode_bare dao (Nat.ne_zero_of_lt saved.own) read bare .once args
  apply failed.conseq
  rintro answer e' ⟨not, ⟨row, last, ofNode, state⟩, queues, infos⟩
  exact ⟨not, ⟨row, last, ofNode.trans same, state⟩, queues, infos⟩

theorem not_executed (failed : Returns (executeJobPlanNode env node.id .once args) e (NotExecuted e node)) :
    ¬ Returns (executeJobPlanNode env node.id .once args) e (Executed e node xjobMeta args) := by
  rintro ⟨answer, e', ran, executed⟩
  obtain ⟨answer', e'', ran', failed⟩ := failed
  rw [ran] at ran'
  cases ran'
  have same : false = true := failed.answer.symm.trans executed.answer
  cases same

/-- Whatever plan is saved and whichever of its nodes with a job is run by hand, with whatever
arguments and with every DAO call succeeding: the node is not executed. -/
theorem never_executed {planEnv : PlanEnv} {jep : PlanEntity} {s t : PlanSystem}
    (saved : Saved planEnv jep node e s t) (_ : node.xjobMeta = some xjobMeta)
    (dao : ∀ n, env.daoSucceeds n = true) (args : Option String) :
    ¬ Returns (executeJobPlanNode env node.id .once args) e (Executed e node xjobMeta args) ∧
      Returns (executeJobPlanNode env node.id .once args) e (NotExecuted e node) :=
  ⟨not_executed (executeJobPlanNode_saved saved dao args), executeJobPlanNode_saved saved dao args⟩

/-! ### A plan with one job -/

def backupJob : XjobMeta := { mode := "script", executionContent := "backup.sh", jobClassName := "ScriptJob" }

def backupPlan : PlanEntity :=
  { id := 0, clusterID := "engine", jepID := "1", jepName := "backup", cronType := some .event, cronExpression := "",
    createDate := "",
    jobPlanNodeList := [
      { id := 0, jobExecutionPlanID := 0, type := .action, name := "run", executorClusterID := "engine",
        xjobMeta := some backupJob }] }

/-- The node of the plan as it is stored in empty tables. -/
def backupNode : JobPlanNode :=
  { id := 1, jobExecutionPlanID := 1, type := .action, name := "run", executorClusterID := "engine",
    xjobMeta := some backupJob }

def backupTables : PlanSystem := after (JobPlanManager.saveJobExecutionPlan PlanEnv.calm backupPlan {})

def backupEngine : Engine := { store := { jobPlans := backupTables.tables.jobPlans } }

theorem backup_saved : Saved PlanEnv.calm backupPlan backupNode backupEngine {} backupTables where
  saved := ⟨{ backupPlan with id := 1 }, rfl, by decide⟩
  own := by decide
  reads := rfl

theorem never_executed_backup :
    ¬ Returns (executeJobPlanNode Env.calm 1 .once none) backupEngine
      (Executed backupEngine backupNode backupJob none) ∧
      Returns (executeJobPlanNode Env.calm 1 .once none) backupEngine (NotExecuted backupEngine backupNode) :=
  never_executed backup_saved rfl (fun _ => rfl) none

theorem backup_not_executed :
    ¬ ∀ (env : Env) (planEnv : PlanEnv) (jep : PlanEntity) (node : JobPlanNode) (xjobMeta : XjobMeta) (e : Engine)
      (s t : PlanSystem) (args : Option String), Saved planEnv jep node e s t → node.xjobMeta = some xjobMeta →
      (∀ n, env.daoSucceeds n = true) →
      Returns (executeJobPlanNode env node.id .once args) e (Executed e node xjobMeta args) := by
  intro executes
  have executed := executes Env.calm PlanEnv.calm backupPlan backupNode backupJob backupEngine {} backupTables none
    backup_saved rfl fun _ => rfl
  exact not_executed (executeJobPlanNode_saved backup_saved (fun _ => rfl) none) executed

end Engine

end Hella

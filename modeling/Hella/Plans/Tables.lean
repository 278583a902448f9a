import Hella.Engine.Store
import Mathlib.Data.List.Sort

/-!
# The plan tables

The plan, node and job-meta tables behind `JobExecutionPlanDao`, and the Quartz jobs,
which the scheduler keeps apart from them. A DAO call may fail; it takes a connection of
its own and gives it back.
-/
namespace Hella

open Exec Text

inductive CronType where
  | simple | cron | event
  deriving DecidableEq, Repr

inductive JobPlanType where
  | local_ | distributed
  deriving DecidableEq, Repr

/-- `JobExecutionPlan` with all its columns. A row has no nodes: they are in a table of
their own. -/
structure PlanEntity extends JobExecutionPlan where
  jobPlanType : Option JobPlanType := some .local_
  executePlanVersionID : Int := 0
  clusterID : String
  jepID : String
  jepName : String
  cronType : Option CronType
  cronExpression : String
  currentNode : Option String := none
  description : Option String := none
  createDate : String
  deriving DecidableEq, Repr

/-- A row of the job-meta table. -/
structure XjobMetaRow where
  id : Nat
  jobExecutionPlanID : Nat
  jobPlanNodeID : Nat
  xjobMeta : XjobMeta
  deriving DecidableEq, Repr

structure PlanTables where
  jobExecutionPlans : List PlanEntity := []
  jobPlanNodes : List JobPlanNode := []
  xjobMetas : List XjobMetaRow := []
  lastJobExecutionPlanID : Nat := 0
  lastJobPlanNodeID : Nat := 0
  lastXjobMetaID : Nat := 0

/-- A scheduled job with its `JobDataMap`. -/
structure QuartzJob where
  paused : Bool := false
  jobExecutionPlanID : Nat
  clusterID : String
  jepID : String
  jepName : String
  deriving DecidableEq, Repr

structure PlanSystem where
  /-- requests made to `PlanEnv` so far -/
  tick : Nat := 0
  tables : PlanTables := {}
  /-- the jobs under their keys -/
  quartz : JMap QuartzJob := ∅
  /-- the plans handed to `startJobPlan` by a trigger -/
  started : List Nat := []

/-- What registration reads from outside; see `Env`. -/
structure PlanEnv where
  daoSucceeds : Nat → Bool
  /-- whether the calls made to Quartz for one plan succeed -/
  quartzSucceeds : Nat → Bool
  /-- whether a trigger can be built from the expression -/
  schedules : CronType → String → Bool

abbrev PlanM := EStateM Throwable PlanSystem

namespace PlanTables

/-! ### Statements -/

/-- `SQL_INSERT_JOBEXECUTIONPLAN`. -/
def insertJobExecutionPlan (t : PlanTables) (jep : PlanEntity) : PlanTables :=
  { t with
    jobExecutionPlans :=
      t.jobExecutionPlans ++ [{ jep with id := t.lastJobExecutionPlanID + 1, jobPlanNodeList := [] }]
    lastJobExecutionPlanID := t.lastJobExecutionPlanID + 1 }

/-- `SQL_INSERT_JOBPLANNODE`. -/
def insertJobPlanNode (t : PlanTables) (jobPlanNode : JobPlanNode) : PlanTables :=
  { t with
    jobPlanNodes := t.jobPlanNodes ++ [{ jobPlanNode with id := t.lastJobPlanNodeID + 1, xjobMeta := none }]
    lastJobPlanNodeID := t.lastJobPlanNodeID + 1 }

/-- `SQL_INSERT_XJOB`. -/
def insertXjobMeta (t : PlanTables) (jobExecutionPlanID jobPlanNodeID : Nat) (xjobMeta : XjobMeta) : PlanTables :=
  { t with
    xjobMetas := t.xjobMetas ++ [⟨t.lastXjobMetaID + 1, jobExecutionPlanID, jobPlanNodeID, xjobMeta⟩]
    lastXjobMetaID := t.lastXjobMetaID + 1 }

/-- `SQL_DEL_JOBEXECUTIONPLAN`. -/
def deleteJobExecutionPlan (t : PlanTables) (id : Nat) : PlanTables :=
  { t with jobExecutionPlans := t.jobExecutionPlans.filter (·.id ≠ id) }

/-- `SQL_DEL_JOBPLANNODE`. -/
def deleteJobPlanNode (t : PlanTables) (jobExecutionPlanID : Nat) : PlanTables :=
  { t with jobPlanNodes := t.jobPlanNodes.filter (·.jobExecutionPlanID ≠ jobExecutionPlanID) }

/-- `SQL_DEL_XJOB`. -/
def deleteXjobMeta (t : PlanTables) (jobExecutionPlanID : Nat) : PlanTables :=
  { t with xjobMetas := t.xjobMetas.filter (·.jobExecutionPlanID ≠ jobExecutionPlanID) }

/-- A condition that is null, zero or blank is left out; the newest row comes first. The
identifiers are pasted into the statement, and have no quote or backslash; the database
compares them as they are. -/
def selectJobExecutionPlan (t : PlanTables) (id : Nat) (clusterID jepID : Option String) (state : Option PlanState) :
    List PlanEntity :=
  (t.jobExecutionPlans.filter fun row =>
    (id = 0 ∨ row.id = id) ∧ (isBlank clusterID = true ∨ some row.clusterID = clusterID) ∧
      (isBlank jepID = true ∨ some row.jepID = jepID) ∧ (state = none ∨ some row.state = state)).insertionSort
    fun a b => b.id ≤ a.id

def updateState (t : PlanTables) (id : Nat) (clusterID : Option String) (state : PlanState) : PlanTables :=
  { t with jobExecutionPlans := t.jobExecutionPlans.map fun row =>
    if (id = 0 ∨ row.id = id) ∧ (isBlank clusterID = true ∨ some row.clusterID = clusterID) then
      { row with state := state }
    else row }

end PlanTables

namespace PlanSystem

def request : PlanM Nat := modifyGet fun s => (s.tick, { s with tick := s.tick + 1 })

def daoCall (env : PlanEnv) : PlanM Unit := do
  if env.daoSucceeds (← request) then pure () else throw .daoException

/-- A DAO call that changes the tables. -/
def update (env : PlanEnv) (statement : PlanTables → PlanTables) : PlanM Unit := do
  daoCall env
  modify fun s => { s with tables := statement s.tables }

end PlanSystem

/-! ### `JobExecutionPlanDao` -/

namespace JobExecutionPlanDao

open PlanSystem

variable (env : PlanEnv)

/-- The entity gets the generated key. -/
def save (jep : PlanEntity) : PlanM PlanEntity := do
  let id := (← get).tables.lastJobExecutionPlanID + 1
  update env (·.insertJobExecutionPlan jep)
  return { jep with id := id }

def saveJobPlanNode (jobPlanNode : JobPlanNode) : PlanM JobPlanNode := do
  let id := (← get).tables.lastJobPlanNodeID + 1
  update env (·.insertJobPlanNode jobPlanNode)
  return { jobPlanNode with id := id }

def saveXjobMeta (jobExecutionPlanID jobPlanNodeID : Nat) (xjobMeta : XjobMeta) : PlanM Unit :=
  update env (·.insertXjobMeta jobExecutionPlanID jobPlanNodeID xjobMeta)

def delJobExecutionPlan (id : Nat) : PlanM Unit := update env (·.deleteJobExecutionPlan id)

def delJobPlanNode (jobExecutionPlanID : Nat) : PlanM Unit := update env (·.deleteJobPlanNode jobExecutionPlanID)

def delXjobMeta (jobExecutionPlanID : Nat) : PlanM Unit := update env (·.deleteXjobMeta jobExecutionPlanID)

def queryJobPlan (clusterID jepID : String) (state : Option PlanState) : PlanM (List PlanEntity) := do
  daoCall env
  return (← get).tables.selectJobExecutionPlan 0 (some clusterID) (some jepID) state

def queryJobPlanByID (id : Nat) : PlanM (Option PlanEntity) := do
  if id = 0 then return none
  else
    daoCall env
    return ((← get).tables.selectJobExecutionPlan id none none none).head?

def updateJobPlanState (id : Nat) (clusterID : Option String) (state : PlanState) : PlanM Unit :=
  update env (·.updateState id clusterID state)

end JobExecutionPlanDao

end Hella

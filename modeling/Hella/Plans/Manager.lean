import Hella.Plans.Tables

/-!
# `DefaultJobPlanBuilder` and the plan operations of `DefaultJobPlanManager`

The database and Quartz are written one after the other. A submission that throws is
answered with false; its alarm is not modelled.
-/
namespace Hella

open Exec Text

/-- The job key of a plan: `getQJobName` and `getQJobGroup` are the same text. -/
def PlanEntity.qJobName (jep : PlanEntity) : String :=
  jep.clusterID ++ "|" ++ toString jep.executePlanVersionID ++ "|" ++ jep.jepID ++ "|" ++ jep.jepName

/-- The job `AbstractQjobBuilder` makes for a plan. -/
def PlanEntity.quartzJob (jep : PlanEntity) : QuartzJob :=
  { jobExecutionPlanID := jep.id, clusterID := jep.clusterID, jepID := jep.jepID, jepName := jep.jepName }

/-- Pausing or resuming a key without a job does nothing. -/
def setPaused (paused : Bool) (key : String) (jobs : JMap QuartzJob) : JMap QuartzJob :=
  match jobs.lookup key with
  | none => jobs
  | some job => jobs.insert key { job with paused := paused }

namespace JobPlanBuilder

open PlanSystem

variable (env : PlanEnv)

/-- One plan after the other; a SchedulerException ends the loop with false. -/
def onEach (change : String → JMap QuartzJob → JMap QuartzJob) : List PlanEntity → PlanM Bool
  | [] => return true
  | jp :: jps => do
    if env.quartzSucceeds (← request) then
      modify fun s => { s with quartz := change jp.qJobName s.quartz }
      onEach change jps
    else return false

def onJobs (change : String → JMap QuartzJob → JMap QuartzJob) (jps : List PlanEntity) : PlanM Bool := do
  if jps.isEmpty then return false
  else onEach env change jps

def deleteJobPlan (jps : List PlanEntity) : PlanM Bool := onJobs env (fun key jobs => jobs.erase key) jps

def pauseJob (jps : List PlanEntity) : PlanM Bool := onJobs env (setPaused true) jps

def resumeJob (jps : List PlanEntity) : PlanM Bool := onJobs env (setPaused false) jps

/-- The builders of simple and cron plans schedule a job, which fails on a key that is
taken; the one of event plans supports no trigger. -/
def buildJobPlan (jobPlan : PlanEntity) : PlanM Bool := do
  match jobPlan.cronType with
  | none => return false
  | some .event => return false
  | some type =>
    if env.schedules type jobPlan.cronExpression then
      if env.quartzSucceeds (← request) then
        if (← get).quartz.keys.contains jobPlan.qJobName then return false
        else
          modify fun s => { s with quartz := s.quartz.insert jobPlan.qJobName jobPlan.quartzJob }
          return true
      else return false
    else return false

end JobPlanBuilder

/-- `JobExecutionPlanSubmissionContext`. -/
structure JobExecutionPlanSubmissionContext where
  clusterId : String
  jobExecutionPlans : List PlanEntity

namespace JobPlanManager

open PlanSystem

variable (env : PlanEnv)

/-! ### Registration -/

def deleteJobPlan (jobExecutionPlanID : Nat) : PlanM Unit := do
  JobExecutionPlanDao.delJobExecutionPlan env jobExecutionPlanID
  JobExecutionPlanDao.delJobPlanNode env jobExecutionPlanID
  JobExecutionPlanDao.delXjobMeta env jobExecutionPlanID

/-- One node with its job, if it has one. -/
def saveNode (jobExecutionPlanID : Nat) (jobPlanNode : JobPlanNode) : PlanM Unit := do
  let saved ← JobExecutionPlanDao.saveJobPlanNode env { jobPlanNode with jobExecutionPlanID := jobExecutionPlanID }
  match saved.xjobMeta with
  | none => pure ()
  | some xjobMeta => JobExecutionPlanDao.saveXjobMeta env jobExecutionPlanID saved.id xjobMeta

def saveJobExecutionPlan (jobExecutionPlan : PlanEntity) : PlanM PlanEntity := do
  let saved ← JobExecutionPlanDao.save env jobExecutionPlan
  saved.jobPlanNodeList.forM (saveNode env saved.id)
  return saved

/-- A distributed plan is scheduled where its start node is. -/
def isLocal (clusterId : String) (jep : PlanEntity) : Bool :=
  jep.jobPlanType != some .distributed ||
    jep.jobPlanNodeList.any fun node => node.type == .start && node.executorClusterID == clusterId

/-- What is stored of a submitted plan is deleted. -/
def clearJobPlan (clusterId jepID : String) : PlanM Unit := do
  match (← JobExecutionPlanDao.queryJobPlan env clusterId jepID none).head? with
  | none => pure ()
  | some jobExecutionPlan => deleteJobPlan env jobExecutionPlan.id

/-- One turn of the loop of `saveJobPlan`. -/
def replaceJobPlan (clusterId : String) (jep : PlanEntity) : PlanM PlanEntity := do
  clearJobPlan env clusterId jep.jepID
  saveJobExecutionPlan env jep

/-- The loop of `saveJobPlan`; the answer is the plans to be scheduled. -/
def saveJobPlans (clusterId : String) : List PlanEntity → PlanM (List PlanEntity)
  | [] => return []
  | jep :: jeps => do
    let saved ← replaceJobPlan env clusterId jep
    let rest ← saveJobPlans clusterId jeps
    return if isLocal clusterId saved then saved :: rest else rest

/-- `none` is null, which a submission without plans leads to. -/
def saveJobPlan (context : JobExecutionPlanSubmissionContext) : PlanM (Option (List PlanEntity)) := do
  if context.jobExecutionPlans.isEmpty then return none
  else return some (← saveJobPlans env context.clusterId context.jobExecutionPlans)

/-- Neither a failed deletion nor a failed build is more than an alarm. -/
def buildJobPlan : List PlanEntity → PlanM Unit
  | [] => pure ()
  | jp :: jps => do
    let _ ← JobPlanBuilder.deleteJobPlan env [jp]
    let _ ← JobPlanBuilder.buildJobPlan env jp
    buildJobPlan jps

/-- `DBPools.roolback`. Nothing calls `openTransaction`, so every connection is in
auto-commit mode: each statement has been committed on its own, and the rollback of such a
connection is an SQLException, which is only printed. -/
def roolback : PlanM Unit := pure ()

def registerJobExecutionPlanSubmissionContext (context : JobExecutionPlanSubmissionContext) : PlanM Bool := do
  if isBlank (some context.clusterId) then return false
  else
    catching Throwable.isException
      (do
        match ← saveJobPlan env context with
        | none => throw .nullPointerException
        | some buildJobPlanList =>
          buildJobPlan env buildJobPlanList
          return true)
      fun _ => do
        roolback
        return false

/-! ### Pausing and resuming -/

def pauseJobExecutionPlan (jobExecutionPlan : PlanEntity) : PlanM Bool :=
  catching Throwable.isException
    (do
      let rs ← JobPlanBuilder.pauseJob env [jobExecutionPlan]
      if rs then JobExecutionPlanDao.updateJobPlanState env jobExecutionPlan.id none .disable
      return rs)
    fun _ => return false

/-- The rows of the plan that are able, one after the other. -/
def pauseJobExecutionPlans (clusterID jepID : String) : PlanM Bool := do
  let list ← catching Throwable.isException (JobExecutionPlanDao.queryJobPlan env clusterID jepID (some .able))
    fun _ => return []
  list.forM fun jp => do
    let _ ← pauseJobExecutionPlan env jp
  return false

def resumeJobExecutionPlan (id : Nat) : PlanM Bool :=
  catching Throwable.isException
    (do
      match ← JobExecutionPlanDao.queryJobPlanByID env id with
      | none => return false
      | some jobExecutionPlan =>
        let rs ← JobPlanBuilder.resumeJob env [jobExecutionPlan]
        if rs then JobExecutionPlanDao.updateJobPlanState env id none .able
        return rs)
    fun _ => return false

def resumeJobExecutionPlans (clusterID jepID : String) : PlanM Bool := do
  let found ← catching Throwable.isException (JobExecutionPlanDao.queryJobPlan env clusterID jepID none)
    fun _ => return []
  match found with
  | [] => return false
  | jobExecutionPlan :: _ => resumeJobExecutionPlan env jobExecutionPlan.id

/-- The Quartz job of a row is deleted, not paused. -/
def disableJobExecutionPlan (jps : PlanEntity) : PlanM Unit := do
  if ← JobPlanBuilder.deleteJobPlan env [jps] then
    JobExecutionPlanDao.updateJobPlanState env jps.id (some jps.clusterID) .disable

def disableJobExecutionPlans (jobExecutionPlanID : Nat) : PlanM Bool := do
  match ← JobExecutionPlanDao.queryJobPlanByID env jobExecutionPlanID with
  | none => pure ()
  | some jps => disableJobExecutionPlan env jps
  return false

def disableJobExecutionPlansOf (clusterID jepID : String) : PlanM Bool := do
  (← JobExecutionPlanDao.queryJobPlan env clusterID jepID none).forM (disableJobExecutionPlan env)
  return false

/-! ### Deletion -/

def deleteRows : List PlanEntity → PlanM Bool
  | [] => return true
  | jps :: rest => do
    let deleted ← catching Throwable.isException (do deleteJobPlan env jps.id; return true) fun _ => return false
    return (← deleteRows rest) && deleted

def deleteJobExecutionPlan (clusterID jepID : String) : PlanM Bool := do
  let list ← catching Throwable.isException (JobExecutionPlanDao.queryJobPlan env clusterID jepID none)
    fun _ => return []
  if list.isEmpty then return false
  else if ← JobPlanBuilder.deleteJobPlan env list then deleteRows env list
  else return false

def deleteJobExecutionPlanByID (jobExecutionPlanID : Nat) : PlanM Bool := do
  match ← JobExecutionPlanDao.queryJobPlanByID env jobExecutionPlanID with
  | none => return false
  | some jobExecutionPlan =>
    if ← JobPlanBuilder.deleteJobPlan env [jobExecutionPlan] then deleteRows env [jobExecutionPlan]
    else return false

/-! ### `SystemJob` -/

/-- Loading a plan and starting its workflow writes neither its state nor Quartz. -/
def startJobPlan (jobExecutionPlanID : Nat) : PlanM Unit :=
  modify fun s => { s with started := s.started ++ [jobExecutionPlanID] }

/-- A trigger has fired for the plan. A plan that is not able is not started but disabled. -/
def publishEvent (jobExecutionPlanID : Nat) : PlanM Unit := do
  match ← JobExecutionPlanDao.queryJobPlanByID env jobExecutionPlanID with
  | none => startJobPlan jobExecutionPlanID
  | some jobExecutionPlan =>
    if jobExecutionPlan.state = .disable then
      let _ ← disableJobExecutionPlans env jobExecutionPlanID
    else startJobPlan jobExecutionPlanID

end JobPlanManager

end Hella

import Hella.Web.Requests

/-!
# `JobPlanServiceImpl` and `SysServiceImpl`

The calls the actions make, with `changeJobExecutionPlanCronExpression` of
`DefaultJobPlanManager` and the subscription table. A key that is not positive belongs to no
row, so a negative one is looked up as zero.
-/
namespace Hella

open Exec Text WebSystem

namespace JobPlanService

variable (app : WebApp) (env : WebEnv)

/-! ### Plans -/

/-- The row, its nodes and their jobs are read with one query each. -/
def loadJobExecutionPlan (id : Nat) : PlanM (Option PlanEntity) := do
  match ← JobExecutionPlanDao.queryJobPlanByID env.plans id with
  | none => return none
  | some jep =>
    PlanSystem.daoCall env.plans
    PlanSystem.daoCall env.plans
    return some { jep with jobPlanNodeList := (← get).tables.loadNodes id }

def pauseJob (jobExecutionPlanID : Int) : WebM Bool := onPlans do
  let found ← catching Throwable.isException (loadJobExecutionPlan env jobExecutionPlanID.toNat) fun _ => return none
  match found with
  | none => return false
  | some jep => JobPlanManager.pauseJobExecutionPlan env.plans jep

def resumeJob (jobExecutionPlanID : Int) : WebM Bool :=
  onPlans (JobPlanManager.resumeJobExecutionPlan env.plans jobExecutionPlanID.toNat)

def queryJobPlanState (jepID : Int) : WebM (Option PlanState) := do
  return (← onPlans (JobExecutionPlanDao.queryJobPlanByID env.plans jepID.toNat)).map (·.state)

def delJobExecutionPlan (jobExecutionPlanID : Int) : WebM Bool :=
  onPlans (JobPlanManager.deleteJobExecutionPlanByID env.plans jobExecutionPlanID.toNat)

/-- `DefaultJobPlanBuilder.updateJob`. A key without a job has no trigger, which ends in a
null pointer; whatever is thrown makes the answer false. -/
def updateJob (qJobName : String) (cronType : CronType) (cronExpression : String) : WebM Bool := do
  match cronType, (← get).plans.quartz.lookup qJobName with
  | .event, _ => return false
  | _, none => return false
  | _, some job =>
    if env.reschedules job cronType cronExpression then
      modify fun s => { s with rescheduled := s.rescheduled.insert qJobName (cronType, cronExpression) }
      return true
    else return false

/-- The row is written before Quartz is asked. -/
def changeJobExecutionPlanCronExpression (jobExecutionPlanID : Int) (cronType : CronType) (cronExpression : String) :
    WebM Unit := do
  match ← onPlans (JobExecutionPlanDao.queryJobPlanByID env.plans jobExecutionPlanID.toNat) with
  | none => pure ()
  | some jep =>
    onPlans (PlanSystem.update env.plans
      (·.updateJobPlanCronExpression jobExecutionPlanID.toNat cronType cronExpression))
    if ← updateJob env jep.qJobName cronType cronExpression then pure ()
    else throw (.exception "Fail to update job cron express for quartz!")

/-- The count is not asked for when there are no ids. -/
def isJobPlansExist (ids : List String) : WebM Bool := do
  if ids.isEmpty then return false
  else
    onPlans (PlanSystem.daoCall env.plans)
    match app.isJobPlansExist ids ((← get).plans.tables.jobExecutionPlans.map (·.jepID)) with
    | none => throw .daoException
    | some exist => return exist

def submitJobPlan (clusterID content : String) : WebM Bool := do
  match app.jobPlans clusterID content with
  | none => throw (.exception "IOException")
  | some plans =>
    let createDate := env.engine.now (← request)
    if ← isJobPlansExist app env (plans.map (·.jepID)) then return false
    else
      onPlans (JobPlanManager.registerJobExecutionPlanSubmissionContext env.plans
        ⟨clusterID, plans.map ({ · with createDate := createDate })⟩)

/-! ### Workflows -/

def executeQJob (jobExecutionPlanID : Int) : WebM Bool :=
  catching Throwable.isException
    (do
      onEngine (Engine.startJobPlan env.engine jobExecutionPlanID.toNat none)
      return true)
    fun _ => return false

def executeJobPlanNode (jobPlanNodeID : Int) (args : Option String) : WebM Bool := do
  if jobPlanNodeID ≤ 0 then return false
  else
    catching Throwable.isException (onEngine (Engine.executeJobPlanNode env.engine jobPlanNodeID.toNat .once args))
      fun _ => return false

end JobPlanService

/-! ### Subscriptions -/

namespace SysService

variable (env : WebEnv)

/-- `JobPlanSubscribeDao`: the call takes a connection like that of any other DAO. -/
def daoCall : WebM Unit := onPlans (PlanSystem.daoCall env.plans)

def addJobPlanSubscribe (clusterID : String) (userEmail userPhoneNumber : Option String) : WebM Unit := do
  if isBlank (some clusterID) then pure ()
  else
    daoCall env
    modify fun s => { s with
      jobPlanSubscribes := s.jobPlanSubscribes ++
        [{ id := s.lastJobPlanSubscribeID.succPNat, clusterID := clusterID, userEmail := userEmail
           userPhoneNumber := userPhoneNumber }]
      lastJobPlanSubscribeID := s.lastJobPlanSubscribeID + 1 }

/-- The condition `id IN(0,..)`. -/
def isIn (ids : List Int) (row : JobPlanSubscribe) : Bool := (0 :: ids).contains (row.id : Int)

/-- The answer is whether as many rows were deleted as there are ids. -/
def deleteJobPlanSubscribeByID (ids : List Int) : WebM Bool := do
  if ids.isEmpty then return false
  else
    catching Throwable.isException
      (do
        daoCall env
        let rs := ((← get).jobPlanSubscribes.filter (isIn ids)).length
        modify fun s => { s with jobPlanSubscribes := s.jobPlanSubscribes.filter (! isIn ids ·) }
        return rs == ids.length)
      fun _ => return false

def changeJobPlanSubscribeState (ids : List Int) (state : Bool) : WebM Unit := do
  if ids.isEmpty then pure ()
  else
    daoCall env
    modify fun s => { s with
      jobPlanSubscribes := s.jobPlanSubscribes.map fun row =>
        if isIn ids row then { row with state := state } else row }

end SysService

end Hella

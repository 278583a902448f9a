import Hella.Engine.NodeHandlers
import Hella.Plans.Catalogue

/-!
# Firing

`QuartzJob.execute` with `SystemJob.publishEvent` and the `startJobPlan` it calls. The answer is
the manager of the instance that is started, if one is; what its start does is not part of the plan
tables. Neither are the log entries, nor what happens between two attempts.
-/
namespace Hella

open Exec

namespace SystemJob

variable (env : PlanEnv)

/-- A plan that cannot be found is only a warning. -/
def startJobPlan (jobExecutionPlanID : Nat) : PlanM (Option LiteWorkflowManager) := do
  match ← JobExecutionPlanDao.loadJobExecutionPlan env jobExecutionPlanID with
  | none => return none
  | some jobExecutionPlan =>
    match accepted : addNode jobExecutionPlan.jobPlanNodeList [] false with
    | .error e => throw e
    | .ok () =>
      modify fun s => { s with started := s.started ++ [jobExecutionPlanID] }
      return some ⟨jobExecutionPlan.toJobExecutionPlan, accepted⟩

def publishEvent (jobExecutionPlanID : Nat) : PlanM (Option LiteWorkflowManager) := do
  let jobExecutionPlan ← JobExecutionPlanDao.queryJobPlanByID env jobExecutionPlanID
  if jobExecutionPlan.map (·.state) = some .disable then
    let _ ← JobPlanManager.disableJobExecutionPlans env jobExecutionPlanID
    return none
  else catching Throwable.isException (startJobPlan env jobExecutionPlanID) fun _ => return none

end SystemJob

namespace QuartzJob

variable (env : PlanEnv)

/-- With so many attempts left. -/
def tries (job : QuartzJob) : Nat → PlanM (Option LiteWorkflowManager)
  | 0 => return none
  | n + 1 => catching Throwable.isException (SystemJob.publishEvent env job.jobExecutionPlanID) fun _ => job.tries n

/-- `RETRY_COUNT` is 3. -/
def execute (job : QuartzJob) : PlanM (Option LiteWorkflowManager) := job.tries env 3

end QuartzJob

end Hella

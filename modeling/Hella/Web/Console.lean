import Hella.Web.Actions

/-!
# The console in its engine

What reaches the plans besides requests: triggers that fire, reports and the sweep for timeouts.
One is worked off after the other, in any order. A request comes with the session it belongs to.
-/
namespace Hella

open Exec WebSystem

inductive ConsoleAction where
  | request (session : HttpSession) (req : HttpServletRequest)
  | fires (jobExecutionPlanID : Nat)
  | reports (executorClusterID : String) (jobProgress : JobProgress)
  | sweeps

namespace ConsoleAction

variable (app : WebApp) (env : WebEnv)

/-- `SystemJob.publishEvent`: a plan that is not able is disabled instead of started. -/
def publishEvent (jobExecutionPlanID : Nat) : WebM Unit := do
  let jobExecutionPlan ← onPlans (JobExecutionPlanDao.queryJobPlanByID env.plans jobExecutionPlanID)
  if jobExecutionPlan.map (·.state) = some .disable then
    let _ ← onPlans (JobPlanManager.disableJobExecutionPlans env.plans jobExecutionPlanID)
  else
    catching Throwable.isException (onEngine (Engine.startJobPlan env.engine jobExecutionPlanID none)) fun _ => pure ()

/-- `QuartzJob.execute`, with so many attempts left. -/
def tries (jobExecutionPlanID : Nat) : Nat → WebM Unit
  | 0 => pure ()
  | n + 1 => catching Throwable.isException (publishEvent env jobExecutionPlanID) fun _ => tries jobExecutionPlanID n

def run : ConsoleAction → WebM Unit
  | .request session req => do
    modify fun s => { s with session := session }
    handle app env req
  | .fires id => tries env id 3
  | .reports cluster report => onEngine (Engine.handlejobProgress env.engine cluster report)
  | .sweeps => onEngine (Engine.autoTimeOutHandlejobProgress env.engine)

end ConsoleAction

def ConsoleStep (app : WebApp) (env : WebEnv) (s : WebSystem) (action : ConsoleAction) (t : WebSystem) : Prop :=
  t = after (action.run app env s)

end Hella

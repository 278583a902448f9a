import Hella.Plans.Manager
import Hella.Web.Requests

/-!
# Jobs and triggers in Quartz

`DefaultJobPlanBuilder` with the two tables of the scheduler behind it. A job and its
trigger have the same key, the texts `getQJobName` and `getQJobGroup`; the job's data are what
`AbstractQjobBuilder` puts into its map. Quartz makes each of its calls in a transaction of
its own, so that a call which throws has changed nothing.
-/
namespace Hella

open Exec Text

inductive Schedule where
  | cron (cronExpression : String)
  /-- again and again after so many milliseconds -/
  | simple (repeatInterval : Int)
  deriving DecidableEq, Repr

structure Trigger where
  schedule : Schedule
  paused : Bool := false
  deriving DecidableEq, Repr

/-- A job's data map. -/
structure JobDetail where
  jobExecutionPlanID : Nat
  clusterID : String
  jepID : String
  jepName : String
  deriving DecidableEq, Repr

structure Quartz where
  /-- calls made to Quartz so far -/
  tick : Nat := 0
  jobs : JMap JobDetail := ∅
  triggers : JMap Trigger := ∅

/-- What the scheduler decides by itself; see `Env`. -/
structure QuartzEnv where
  /-- whether a call gets through to the scheduler's database -/
  succeeds : Nat → Bool
  /-- whether an expression is a cron expression -/
  parses : String → Bool
  /-- whether a trigger with a cron expression has a time to fire at -/
  fires : Nat → String → Bool

/-- Every call gets through and every expression is in order. -/
def QuartzEnv.calm : QuartzEnv := ⟨fun _ => true, fun _ => true, fun _ _ => true⟩

abbrev QuartzM := EStateM Throwable Quartz

namespace Quartz

variable (env : QuartzEnv)

def schedulerException : Throwable := .exception "SchedulerException"

def request : QuartzM Nat := modifyGet fun s => (s.tick, { s with tick := s.tick + 1 })

/-- A call that has nothing to check. -/
def call (change : Quartz → Quartz) : QuartzM Unit := do
  if env.succeeds (← request) then modify change else throw schedulerException

/-- `Trigger.validate` and `computeFirstFireTime`. -/
def admits (n : Nat) : Schedule → Bool
  | .cron cronExpression => env.fires n cronExpression
  | .simple repeatInterval => decide (0 < repeatInterval)

def setPaused (paused : Bool) (key : String) (s : Quartz) : Quartz :=
  match s.triggers.lookup key with
  | none => s
  | some trigger => { s with triggers := s.triggers.insert key { trigger with paused := paused } }

/-- The job of a removed trigger goes too: no job is durable. -/
def unscheduleJob (key : String) (s : Quartz) : Quartz :=
  match s.triggers.lookup key with
  | none => s
  | some _ => { s with jobs := s.jobs.erase key, triggers := s.triggers.erase key }

def deleteJob (key : String) (s : Quartz) : Quartz :=
  { s with jobs := s.jobs.erase key, triggers := s.triggers.erase key }

/-- A key that is taken is an ObjectAlreadyExistsException. -/
def scheduleJob (key : String) (job : JobDetail) (schedule : Schedule) : QuartzM Unit := do
  let n ← request
  if env.succeeds n && admits env n schedule then
    let s ← get
    if key ∈ s.jobs ∨ key ∈ s.triggers then throw schedulerException
    else
      modify fun s =>
        { s with jobs := s.jobs.insert key job, triggers := s.triggers.insert key { schedule := schedule } }
  else throw schedulerException

def getTrigger (key : String) : QuartzM (Option Trigger) := do
  if env.succeeds (← request) then return (← get).triggers.lookup key else throw schedulerException

/-- The new trigger takes the place of the old one and is not paused. Without an old one the
answer is null. -/
def rescheduleJob (key : String) (schedule : Schedule) : QuartzM Unit := do
  let n ← request
  if env.succeeds n && admits env n schedule then
    modify fun s =>
      match s.triggers.lookup key with
      | none => s
      | some _ => { s with triggers := s.triggers.insert key { schedule := schedule } }
  else throw schedulerException

/-! ### `DefaultJobPlanBuilder` -/

/-- `setJobDataMap`. -/
def jobDetail (jep : PlanEntity) : JobDetail := ⟨jep.id, jep.clusterID, jep.jepID, jep.jepName⟩

/-- The triggers of `CronQjobBuilder`, `SimpleQjobBuilder` and `EventQjobBuilder`. -/
def newQjobTrigger (cronType : CronType) (cronExpression : String) : Except Throwable Schedule :=
  match cronType with
  | .cron => if env.parses cronExpression then .ok (.cron cronExpression) else .error (.exception "ParseException")
  | .simple =>
    match integerValueOf cronExpression with
    | none => .error .numberFormatException
    | some seconds => if seconds < 0 then .error .illegalArgumentException else .ok (.simple (seconds * 1000))
  | .event => .error (.exception "UnsupportedOperationException")

/-- Whatever is thrown makes the answer false. -/
def guarded (body : QuartzM Unit) : QuartzM Bool :=
  catching Throwable.isException (do body; return true) fun _ => return false

def buildJobPlan (jobPlan : PlanEntity) : QuartzM Bool :=
  match jobPlan.cronType with
  | none => return false
  | some cronType => guarded do
    match newQjobTrigger env cronType jobPlan.cronExpression with
    | .error e => throw e
    | .ok schedule => scheduleJob env jobPlan.qJobName (jobDetail jobPlan) schedule

/-- The loop over plans; the first failure ends it with false. -/
def onEach (step : PlanEntity → QuartzM Unit) : List PlanEntity → QuartzM Bool
  | [] => return true
  | jp :: jps => do
    if ← guarded (step jp) then onEach step jps else return false

def onPlans (step : PlanEntity → QuartzM Unit) (jps : List PlanEntity) : QuartzM Bool :=
  if jps.isEmpty then return false else onEach step jps

/-- Stop the trigger, remove it, delete the job. -/
def delete (jp : PlanEntity) : QuartzM Unit := do
  call env (setPaused true jp.qJobName)
  call env (unscheduleJob jp.qJobName)
  call env (deleteJob jp.qJobName)

/-- Pausing a job pauses its trigger, and then the trigger is paused once more. -/
def pause (jp : PlanEntity) : QuartzM Unit := do
  call env (setPaused true jp.qJobName)
  call env (setPaused true jp.qJobName)

def resume (jp : PlanEntity) : QuartzM Unit := do
  call env (setPaused false jp.qJobName)
  call env (setPaused false jp.qJobName)

def deleteJobPlan (jps : List PlanEntity) : QuartzM Bool := onPlans (delete env) jps

def pauseJob (jps : List PlanEntity) : QuartzM Bool := onPlans (pause env) jps

def resumeJob (jps : List PlanEntity) : QuartzM Bool := onPlans (resume env) jps

/-- A product of two `long` values. -/
def wrap (n : Int) : Int := n.bmod (2 ^ 64)

/-- The schedule `updateJob` sets on the trigger it has read. No trigger is a null pointer, and
one of the other class cannot be cast. -/
def newSchedule (cronType : CronType) (cronExpression : String) (old : Option Trigger) : Except Throwable Schedule :=
  match cronType, old.map Trigger.schedule with
  | .event, _ => .error (.exception "It does not support this cronType")
  | _, none => .error .nullPointerException
  | .cron, some (.cron _) =>
    if env.parses cronExpression then .ok (.cron cronExpression) else .error (.exception "ParseException")
  | .simple, some (.simple _) =>
    match parseLong cronExpression with
    | none => .error .numberFormatException
    | some seconds =>
      if wrap (seconds * 1000) < 0 then .error .illegalArgumentException else .ok (.simple (wrap (seconds * 1000)))
  | _, some _ => .error (.exception "ClassCastException")

def updateJob (qJobName : String) (cronType : CronType) (cronExpression : String) : QuartzM Bool :=
  if cronType = .event then return false
  else guarded do
    match newSchedule env cronType cronExpression (← getTrigger env qJobName) with
    | .error e => throw e
    | .ok schedule => rescheduleJob env qJobName schedule

end Quartz

/-! ### `changeJobExecutionPlanCronExpression` -/

/-- The plan tables and the scheduler's, which are in different databases. -/
structure Scheduling where
  plans : PlanSystem := {}
  quartz : Quartz := {}

namespace Scheduling

variable (env : PlanEnv) (quartzEnv : QuartzEnv)

abbrev SchedulingM := EStateM Throwable Scheduling

def onPlans {α : Type} (body : PlanM α) : SchedulingM α := zoom plans (fun s t => { s with plans := t }) body

def onQuartz {α : Type} (body : QuartzM α) : SchedulingM α := zoom quartz (fun s t => { s with quartz := t }) body

/-- The second half of the operation: an answer of false is thrown. -/
def updateQuartzJob (jobExecutionPlan : PlanEntity) (cronType : CronType) (cronExpression : String) :
    SchedulingM Unit := do
  let rs ← onQuartz (Quartz.updateJob quartzEnv jobExecutionPlan.qJobName cronType cronExpression)
  if rs then pure () else throw (.exception "Fail to update job cron express for quartz!")

/-- The row is written before Quartz is asked. -/
def changeJobExecutionPlanCronExpression (jobExecutionPlanID : Nat) (cronType : CronType) (cronExpression : String) :
    SchedulingM Unit := do
  match ← onPlans (JobExecutionPlanDao.queryJobPlanByID env jobExecutionPlanID) with
  | none => pure ()
  | some jobExecutionPlan =>
    onPlans (PlanSystem.update env (·.updateJobPlanCronExpression jobExecutionPlanID cronType cronExpression))
    updateQuartzJob quartzEnv jobExecutionPlan cronType cronExpression

end Scheduling

end Hella

import Hella.Plans.Failures
import Hella.Plans.Triggers

/-!
# Changing a schedule

`changeJobExecutionPlanCronExpression` writes the plan row and then asks Quartz, which may
refuse. Nothing takes the row back, so that the two agree with what the caller is told only
where Quartz takes the change and keeps the interval it was given.
-/
namespace Hella

open Exec Text

/-! ### The plan row -/

namespace PlanTables

/-- The row with the new type and expression. -/
def rescheduled (cronType : CronType) (cronExpression : String) (row : PlanEntity) : PlanEntity :=
  { row with cronType := some cronType, cronExpression := cronExpression }

end PlanTables

/-! ### The trigger -/

/-- The trigger fires as the type and the expression say, the number of a simple expression being
the seconds between two firings. -/
def Schedule.Carries (cronType : CronType) (cronExpression : String) : Schedule → Prop
  | .cron expression => cronType = .cron ∧ expression = cronExpression
  | .simple repeatInterval =>
    cronType = .simple ∧ ∃ seconds, parseLong cronExpression = some seconds ∧ repeatInterval = seconds * 1000

namespace Quartz

/-- The trigger that is there has the class of the new type, and the expression is one for it. -/
def Fits (env : QuartzEnv) (n : Nat) (cronType : CronType) (cronExpression : String) (old : Option Trigger) : Prop :=
  match cronType, old.map Trigger.schedule with
  | .cron, some (.cron _) => env.parses cronExpression = true ∧ env.fires n cronExpression = true
  | .simple, some (.simple _) => ∃ seconds, parseLong cronExpression = some seconds ∧ 0 < wrap (seconds * 1000)
  | _, _ => False

/-- Quartz takes the change: it can be reached twice, and the change fits. -/
structure Takes (env : QuartzEnv) (s : Quartz) (key : String) (cronType : CronType)
  (cronExpression : String) : Prop where
  reads : env.succeeds s.tick = true
  writes : env.succeeds (s.tick + 1) = true
  fits : Fits env (s.tick + 1) cronType cronExpression (s.triggers.lookup key)

variable {env : QuartzEnv} {cronType : CronType} {cronExpression key : String} {old : Option Trigger}
  {n : Nat} {s : Quartz}

/-- Whatever the builder stumbles over is an exception, and it only makes the answer false. -/
theorem isException_of_newSchedule {e : Throwable} (thrown : newSchedule env cronType cronExpression old = .error e) :
    e.isException = true := by
  unfold newSchedule at thrown
  split at thrown
  · cases thrown; rfl
  · cases thrown; rfl
  · split at thrown
    · cases thrown
    · cases thrown; rfl
  · split at thrown
    · cases thrown; rfl
    · split at thrown
      · cases thrown; rfl
      · cases thrown
  · cases thrown; rfl

theorem guarded_error {body : QuartzM Unit} {e : Throwable} {t : Quartz} (thrown : body s = .error e t)
    (caught : e.isException = true) : guarded body s = .ok false t := by
  simp [guarded, catching, bind_error thrown, caught]

theorem guarded_ok {body : QuartzM Unit} {t : Quartz} (returned : body s = .ok () t) : guarded body s = .ok true t := by
  simp [guarded, catching, bind_ok returned]

end Quartz

/-! ### The operation -/

namespace Scheduling

variable {env : PlanEnv} {quartzEnv : QuartzEnv} {s : Scheduling} {id : Nat} {cronType : CronType}
  {cronExpression : String} {row : PlanEntity}

def Carries (cronType : CronType) (cronExpression : String) (row : PlanEntity) : Prop :=
  row.cronType = some cronType ∧ row.cronExpression = cronExpression

/-- The row cannot be read or written; or Quartz takes the change, and a simple expression is a
number of seconds whose milliseconds fit a `long`; or Quartz refuses a change that is none. -/
def Settled (env : PlanEnv) (quartzEnv : QuartzEnv) (row : PlanEntity) (cronType : CronType) (cronExpression : String)
    (s : Scheduling) : Prop :=
  env.daoSucceeds s.plans.tick = false ∨ env.daoSucceeds (s.plans.tick + 1) = false ∨
    (Quartz.Takes quartzEnv s.quartz row.qJobName cronType cronExpression ∧
      (cronType = .simple → ∀ seconds, parseLong cronExpression = some seconds →
        0 < seconds ∧ seconds * 1000 < 2 ^ 63)) ∨
    (¬ Quartz.Takes quartzEnv s.quartz row.qJobName cronType cronExpression ∧ Carries cronType cronExpression row)

def everyMinute : PlanEntity :=
  { id := 1, clusterID := "engine", jepID := "1", jepName := "poll", cronType := some .simple, cronExpression := "60",
    jobPlanNodeList := [], createDate := "" }

def polling : Scheduling :=
  { plans := { tables := { jobExecutionPlans := [everyMinute], lastJobExecutionPlanID := 1 } }
    quartz :=
      { jobs := AList.insert everyMinute.qJobName (Quartz.jobDetail everyMinute) ∅
        triggers := AList.insert everyMinute.qJobName { schedule := .simple 60000 } ∅ } }

end Scheduling

end Hella

import Hella.Lib.Simulation
import Hella.Properties.Agreement
import Hella.Properties.Identity
import Hella.Properties.Reschedule

/-!
# The scheduler's two tables are one

Seen from outside, Quartz holds a single table: what is known of a key is its job and whether
its trigger is paused. Every call of `DefaultJobPlanBuilder` is a step of a machine on this table.
The steps of a call that fails are less than atomic: the loop over the plans ends within a turn,
and a plan whose deletion failed may be left paused. Between the calls Quartz removes triggers that
have fired for the last time, and their jobs with them.
-/
namespace Hella

open Exec Runs Text

/-! ### The machine on one table -/

/-- What `deleteJobPlan`, `pauseJob` and `resumeJob` do to each of their plans. -/
inductive PlanChange where
  | delete | pause | resume
  deriving DecidableEq

namespace PlanChange

def apply : PlanChange → String → JMap QuartzJob → JMap QuartzJob
  | delete, key, jobs => jobs.erase key
  | pause, key, jobs => setPaused true key jobs
  | resume, key, jobs => setPaused false key jobs

/-- How far a turn that ends with an exception can have come. -/
inductive Interrupted (key : String) (jobs : JMap QuartzJob) : PlanChange → JMap QuartzJob → Prop where
  | before (change : PlanChange) : Interrupted key jobs change jobs
  | after (change : PlanChange) : Interrupted key jobs change (change.apply key jobs)
  /-- the trigger was stopped but not removed -/
  | stopped : Interrupted key jobs delete (setPaused true key jobs)

/-- The loop over the plans and its answer. -/
inductive Loop (change : PlanChange) : List PlanEntity → JMap QuartzJob → Bool → JMap QuartzJob → Prop where
  | done (jobs : JMap QuartzJob) : Loop change [] jobs true jobs
  | turn {jp : PlanEntity} {jps : List PlanEntity} {jobs jobs' : JMap QuartzJob} {answer : Bool}
      (rest : Loop change jps (change.apply jp.qJobName jobs) answer jobs') : Loop change (jp :: jps) jobs answer jobs'
  | failed {jp : PlanEntity} {jps : List PlanEntity} {jobs jobs' : JMap QuartzJob}
      (interrupted : Interrupted jp.qJobName jobs change jobs') : Loop change (jp :: jps) jobs false jobs'

end PlanChange

/-- The operations of `DefaultJobPlanBuilder`. -/
inductive SchedulerCall where
  | build (jobPlan : PlanEntity)
  | each (change : PlanChange) (jps : List PlanEntity)
  | update (qJobName : String) (cronType : CronType) (cronExpression : String)

/-- A call with its answer. -/
inductive MapStep : JMap QuartzJob → SchedulerCall × Bool → JMap QuartzJob → Prop where
  | built {jobs : JMap QuartzJob} {jobPlan : PlanEntity} (free : jobPlan.qJobName ∉ jobs) :
      MapStep jobs (.build jobPlan, true) (jobs.insert jobPlan.qJobName jobPlan.quartzJob)
  | notBuilt {jobs : JMap QuartzJob} {jobPlan : PlanEntity} : MapStep jobs (.build jobPlan, false) jobs
  | changed {jobs jobs' : JMap QuartzJob} {change : PlanChange} {jps : List PlanEntity}
    {answer : Bool} (some : jps ≠ [])
      (loop : change.Loop jps jobs answer jobs') : MapStep jobs (.each change jps, answer) jobs'
  | unchanged {jobs : JMap QuartzJob} {change : PlanChange} : MapStep jobs (.each change [], false) jobs
  | updated {jobs : JMap QuartzJob} {key : String} {cronType : CronType} {cronExpression : String}
    (there : key ∈ jobs) :
      MapStep jobs (.update key cronType cronExpression, true) (setPaused false key jobs)
  | notUpdated {jobs : JMap QuartzJob} {key : String} {cronType : CronType} {cronExpression : String} :
      MapStep jobs (.update key cronType cronExpression, false) jobs

/-- What happens at the scheduler: a call, or a trigger has fired for the last time. -/
inductive SchedulerEvent where
  | call (asked : SchedulerCall)
  | completes (qJobName : String)

/-- Calls are answered. -/
inductive TableStep : JMap QuartzJob → SchedulerEvent × Option Bool → JMap QuartzJob → Prop where
  | answers {jobs jobs' : JMap QuartzJob} {call : SchedulerCall} {answer : Bool}
    (step : MapStep jobs (call, answer) jobs') :
      TableStep jobs (.call call, some answer) jobs'
  | removes {jobs : JMap QuartzJob} {key : String} : TableStep jobs (.completes key, none) (jobs.erase key)

/-! ### The two tables -/

def SchedulerCall.run (env : QuartzEnv) : SchedulerCall → QuartzM Bool
  | build jobPlan => Quartz.buildJobPlan env jobPlan
  | each .delete jps => Quartz.deleteJobPlan env jps
  | each .pause jps => Quartz.pauseJob env jps
  | each .resume jps => Quartz.resumeJob env jps
  | update qJobName cronType cronExpression => Quartz.updateJob env qJobName cronType cronExpression

/-- Quartz removes a trigger that will not fire again. No job is durable, so its job goes too. -/
def SchedulerEvent.run (env : QuartzEnv) : SchedulerEvent → QuartzM (Option Bool)
  | call asked => return some (← asked.run env)
  | completes qJobName => do
    modify (Quartz.unscheduleJob qJobName)
    return none

/-- What a job detail and the state of its trigger show. -/
def JobDetail.shown (job : JobDetail) (paused : Bool) : QuartzJob :=
  { paused := paused, jobExecutionPlanID := job.jobExecutionPlanID, clusterID := job.clusterID, jepID := job.jepID,
    jepName := job.jepName }

namespace Quartz

/-- What is known of a key. -/
def shows (q : Quartz) (key : String) : Option QuartzJob :=
  (q.jobs.lookup key).bind fun job => (q.triggers.lookup key).map fun trigger => job.shown trigger.paused

/-- Jobs and triggers come in pairs, and the one table shows what the two hold. -/
structure Refines (q : Quartz) (jobs : JMap QuartzJob) : Prop where
  paired : ∀ key, key ∈ q.jobs ↔ key ∈ q.triggers
  shown : ∀ key, jobs.lookup key = q.shows key

variable {env : QuartzEnv} {key : String} {q t : Quartz} {jobs jobs' : JMap QuartzJob}

theorem refines_empty : Refines {} ∅ where
  paired _ := Iff.rfl
  shown _ := rfl

theorem Refines.congr (refines : q.Refines jobs) (same : ∀ key, jobs'.lookup key = jobs.lookup key) :
    q.Refines jobs' where
  paired := refines.paired
  shown key := (same key).trans (refines.shown key)

theorem Elsewhere.shows (elsewhere : Elsewhere key q t) {k : String} (other : k ≠ key) : t.shows k = q.shows k := by
  rw [Quartz.shows, Quartz.shows, elsewhere.jobs k other, elsewhere.triggers k other]

theorem Elsewhere.refl (key : String) (q : Quartz) : Elsewhere key q q := ⟨fun _ _ => rfl, fun _ _ => rfl⟩

/-- What changes at one key is to be looked at there. -/
theorem Refines.at (refines : q.Refines jobs) (elsewhere : Elsewhere key q t)
    (frame : ∀ k, k ≠ key → jobs'.lookup k = jobs.lookup k) (paired : key ∈ t.jobs ↔ key ∈ t.triggers)
    (shown : jobs'.lookup key = t.shows key) : t.Refines jobs' where
  paired k := by
    by_cases here : k = key
    · exact here ▸ paired
    · rw [← AList.lookup_isSome, ← AList.lookup_isSome, elsewhere.jobs k here, elsewhere.triggers k here,
        AList.lookup_isSome, AList.lookup_isSome]
      exact refines.paired k
  shown k := by
    by_cases here : k = key
    · exact here ▸ shown
    · rw [frame k here, elsewhere.shows here]
      exact refines.shown k

theorem Refines.setPaused (refines : q.Refines jobs) (paused : Bool) (key : String) :
    (q.setPaused paused key).Refines (Hella.setPaused paused key jobs) := by
  apply refines.at ((Elsewhere.refl key q).setPaused paused) fun k other => lookup_setPaused_ne paused other
  · have paired := refines.paired key
    cases found : q.triggers.lookup key with
    | none => simpa [Quartz.setPaused, found] using paired
    | some trigger =>
      have present : key ∈ q.triggers := AList.lookup_isSome.mp (by rw [found]; rfl)
      simpa [Quartz.setPaused, found] using paired.mpr present
  · rw [lookup_setPaused_self, refines.shown key]
    cases found : q.triggers.lookup key with
    | none => simp [Quartz.setPaused, Quartz.shows, found]
    | some trigger =>
      cases here : q.jobs.lookup key <;> simp [Quartz.setPaused, Quartz.shows, found, here, JobDetail.shown]

theorem Refines.deleteJob (refines : q.Refines jobs) (key : String) : (q.deleteJob key).Refines (jobs.erase key) := by
  apply refines.at (Elsewhere.refl key q).deleteJob fun k other => AList.lookup_erase_ne other
  · simp [Quartz.deleteJob]
  · simp [Quartz.deleteJob, Quartz.shows]

/-- Without a trigger there is no job. -/
theorem Refines.unscheduleJob (refines : q.Refines jobs) (key : String) :
    (q.unscheduleJob key).Refines (jobs.erase key) := by
  cases found : q.triggers.lookup key with
  | some trigger =>
    have same : q.unscheduleJob key = q.deleteJob key := by rw [Quartz.unscheduleJob, found, Quartz.deleteJob]
    exact same ▸ refines.deleteJob key
  | none =>
    have absent : key ∉ jobs := by
      rw [← AList.lookup_eq_none, refines.shown key, Quartz.shows, found]
      cases q.jobs.lookup key <;> rfl
    simp only [Quartz.unscheduleJob, found]
    apply refines.congr
    intro k
    by_cases here : k = key
    · rw [here, AList.lookup_erase, AList.lookup_eq_none.mpr absent]
    · exact AList.lookup_erase_ne here

theorem Refines.mem (refines : q.Refines jobs) : key ∈ jobs ↔ key ∈ q.jobs ∧ key ∈ q.triggers := by
  rw [← AList.lookup_isSome, refines.shown key, Quartz.shows]
  cases found : q.jobs.lookup key <;> cases here : q.triggers.lookup key <;>
    simp [← AList.lookup_isSome, found, here]

theorem Refines.insert (refines : q.Refines jobs) (key : String) (job : JobDetail) (schedule : Schedule) :
    ({ q with jobs := q.jobs.insert key job, triggers := q.triggers.insert key { schedule := schedule } } :
      Quartz).Refines
      (jobs.insert key (job.shown false)) := by
  apply refines.at _ fun k (other : k ≠ key) => AList.lookup_insert_ne other
  · simp
  · simp [Quartz.shows]
  · exact ⟨fun k other => AList.lookup_insert_ne other, fun k other => AList.lookup_insert_ne other⟩

/-- A new trigger in the place of the old one is not paused. -/
theorem Refines.reschedule (refines : q.Refines jobs) (present : key ∈ q.triggers) (schedule : Schedule) :
    ({ q with triggers := q.triggers.insert key { schedule := schedule } } : Quartz).Refines
      (Hella.setPaused false key jobs) := by
  apply refines.at ((Elsewhere.refl key q).setTrigger _) fun k other => lookup_setPaused_ne false other
  · simpa using (refines.paired key).mpr present
  · rw [lookup_setPaused_self, refines.shown key]
    obtain ⟨trigger, found⟩ := Option.isSome_iff_exists.mp (AList.lookup_isSome.mpr present)
    cases here : q.jobs.lookup key <;> simp [Quartz.shows, found, here, JobDetail.shown]

/-! ### The calls -/

theorem request_rule : Triple (Refines · jobs) request (fun _ q => q.Refines jobs)
    fun e q => e.isException = true ∧ q.Refines jobs :=
  fun _ refines => ⟨refines.paired, refines.shown⟩

theorem call_rule {change : Quartz → Quartz} (changes : ∀ q : Quartz, q.Refines jobs → (change q).Refines jobs') :
    Triple (Refines · jobs) (call env change) (fun _ q => q.Refines jobs') fun e q =>
      e.isException = true ∧ q.Refines jobs := by
  apply request_rule.bind
  intro n
  split
  · exact Triple.modifying changes
  · exact Triple.throw fun q refines => ⟨rfl, refines⟩

open PlanChange (Interrupted)

/-- The exceptional end of a turn. -/
def Broken (change : PlanChange) (key : String) (jobs : JMap QuartzJob) (e : Throwable) (q : Quartz) : Prop :=
  e.isException = true ∧ ∃ jobs', Interrupted key jobs change jobs' ∧ q.Refines jobs'

theorem delete_rule (jp : PlanEntity) :
    Triple (Refines · jobs) (delete env jp) (fun _ q => q.Refines (jobs.erase jp.qJobName))
      (Broken .delete jp.qJobName jobs) := by
  -- what is erased was paused before
  have erased (k : String) : ((Hella.setPaused true jp.qJobName jobs).erase jp.qJobName).lookup k =
      (jobs.erase jp.qJobName).lookup k := by
    by_cases here : k = jp.qJobName
    · rw [here, AList.lookup_erase, AList.lookup_erase]
    · rw [AList.lookup_erase_ne here, AList.lookup_erase_ne here, lookup_setPaused_ne true here]
  have twice (k : String) : ((jobs.erase jp.qJobName).erase jp.qJobName).lookup k =
    (jobs.erase jp.qJobName).lookup k := by
    by_cases here : k = jp.qJobName
    · rw [here, AList.lookup_erase, AList.lookup_erase]
    · exact AList.lookup_erase_ne here
  have pausing := (@call_rule env jobs _ (setPaused true jp.qJobName) fun q refines => refines.setPaused true _)
  have unscheduling := @call_rule env (Hella.setPaused true jp.qJobName jobs) (jobs.erase jp.qJobName)
    (unscheduleJob jp.qJobName) fun q refines => (refines.unscheduleJob _).congr fun k => (erased k).symm
  have deleting := @call_rule env (jobs.erase jp.qJobName) (jobs.erase jp.qJobName) (deleteJob jp.qJobName)
    fun q refines => (refines.deleteJob _).congr fun k => (twice k).symm
  refine (pausing.conseq (fun _ => id) (fun _ _ => id) fun e q broken => ⟨broken.1, jobs, .before _, broken.2⟩).bind
    fun _ => ?_
  refine (unscheduling.conseq (fun _ => id) (fun _ _ => id) fun e q broken => ⟨broken.1, _, .stopped, broken.2⟩).bind
    fun _ => ?_
  exact deleting.conseq (fun _ => id) (fun _ _ => id) fun e q broken => ⟨broken.1, _, .after .delete, broken.2⟩

/-- Pausing and resuming are two calls to the same effect. -/
theorem paused_rule {change : PlanChange} (paused : Bool) (key : String)
    (effect : ∀ jobs, change.apply key jobs = Hella.setPaused paused key jobs) :
    Triple (Refines · jobs)
      (do
        call env (setPaused paused key)
        call env (setPaused paused key))
      (fun _ q => q.Refines (change.apply key jobs)) (Broken change key jobs) := by
  have twice (k : String) : (change.apply key jobs).lookup k =
      (Hella.setPaused paused key (change.apply key jobs)).lookup k := by
    rw [effect]
    by_cases here : k = key
    · subst here
      simp only [lookup_setPaused_self]
      cases jobs.lookup k <;> rfl
    · simp only [lookup_setPaused_ne paused here]
  have first := @call_rule env jobs (change.apply key jobs) (setPaused paused key)
    fun q refines => effect jobs ▸ refines.setPaused paused key
  have second := @call_rule env (change.apply key jobs) (change.apply key jobs) (setPaused paused key)
    fun q refines => (refines.setPaused paused key).congr twice
  refine (first.conseq (fun _ => id) (fun _ _ => id) fun e q broken => ⟨broken.1, jobs, .before _, broken.2⟩).bind
    fun _ => ?_
  exact second.conseq (fun _ => id) (fun _ _ => id) fun e q broken => ⟨broken.1, _, .after change, broken.2⟩

/-- A turn of one of the three loops. -/
def turn (env : QuartzEnv) : PlanChange → PlanEntity → QuartzM Unit
  | .delete => delete env
  | .pause => pause env
  | .resume => resume env

theorem turn_rule (change : PlanChange) (jp : PlanEntity) :
    Triple (Refines · jobs) (turn env change jp) (fun _ q => q.Refines (change.apply jp.qJobName jobs))
      (Broken change jp.qJobName jobs) := by
  cases change with
  | delete => exact delete_rule jp
  | pause => exact paused_rule true jp.qJobName fun _ => rfl
  | resume => exact paused_rule false jp.qJobName fun _ => rfl

/-- A body that can only throw exceptions is answered. -/
theorem guarded_answers {body : QuartzM Unit} {P Q E : Quartz → Prop} {s : Quartz}
    (triple : Triple P body (fun _ => Q) fun e s => e.isException = true ∧ E s) (pre : P s) :
    Returns (guarded body) s fun answer t => (answer = true ∧ Q t) ∨ (answer = false ∧ E t) := by
  cases ended : body s with
  | ok a t => exact ⟨true, t, guarded_ok ended, .inl ⟨rfl, triple.ok pre ended⟩⟩
  | error e t =>
    obtain ⟨caught, holds⟩ := triple.error pre ended
    exact ⟨false, t, guarded_error ended caught, .inr ⟨rfl, holds⟩⟩

theorem onEach_answers (change : PlanChange) (jps : List PlanEntity) {jobs : JMap QuartzJob} {q : Quartz}
    (refines : q.Refines jobs) :
    Returns (onEach (turn env change) jps) q fun answer t =>
      ∃ jobs', change.Loop jps jobs answer jobs' ∧ t.Refines jobs' := by
  induction jps generalizing jobs q with
  | nil => exact .pure ⟨jobs, .done jobs, refines⟩
  | cons jp jps ih =>
    apply (guarded_answers (turn_rule change jp) refines).bind
    rintro answer t (⟨rfl, done⟩ | ⟨rfl, jobs', interrupted, broken⟩)
    · exact (ih done).conseq fun answer u ⟨jobs', loop, related⟩ => ⟨jobs', .turn loop, related⟩
    · exact .pure ⟨jobs', .failed interrupted, broken⟩

/-! ### Every call is a step of the one table -/

theorem each_answers (change : PlanChange) (jps : List PlanEntity) (refines : q.Refines jobs) :
    Returns ((SchedulerCall.each change jps).run env) q fun answer t =>
      ∃ jobs', MapStep jobs (.each change jps, answer) jobs' ∧ t.Refines jobs' := by
  have same : (SchedulerCall.each change jps).run env = onPlans (turn env change) jps := by cases change <;> rfl
  rw [same, onPlans]
  cases jps with
  | nil => exact .pure ⟨jobs, .unchanged, refines⟩
  | cons jp jps =>
    exact (onEach_answers change (jp :: jps) refines).conseq fun answer t ⟨jobs', loop, related⟩ =>
      ⟨jobs', .changed (List.cons_ne_nil jp jps) loop, related⟩

theorem isException_of_newQjobTrigger {cronType : CronType} {cronExpression : String} {e : Throwable}
    (thrown : newQjobTrigger env cronType cronExpression = .error e) : e.isException = true := by
  unfold newQjobTrigger at thrown
  split at thrown
  · split at thrown
    · cases thrown
    · cases thrown; rfl
  · split at thrown
    · cases thrown; rfl
    · split at thrown
      · cases thrown; rfl
      · cases thrown
  · cases thrown; rfl

theorem scheduleJob_rule (key : String) (job : JobDetail) (schedule : Schedule) :
    Triple (Refines · jobs) (scheduleJob env key job schedule)
      (fun _ q => key ∉ jobs ∧ q.Refines (jobs.insert key (job.shown false)))
      fun e q => e.isException = true ∧ q.Refines jobs := by
  apply request_rule.bind
  intro n
  split
  · have reading : Triple (Refines · jobs) (get : QuartzM Quartz) (fun s q => s = q ∧ q.Refines jobs)
        fun e q => e.isException = true ∧ q.Refines jobs := Triple.getting fun q refines => ⟨rfl, refines⟩
    apply reading.bind
    intro s
    split
    · exact Triple.throw fun q holds => ⟨rfl, holds.2⟩
    next free =>
      apply Triple.modifying
      rintro q ⟨rfl, refines⟩
      rw [not_or] at free
      exact ⟨fun member => free.1 (refines.mem.mp member).1, refines.insert key job schedule⟩
  · exact Triple.throw fun q refines => ⟨rfl, refines⟩

theorem build_answers (jobPlan : PlanEntity) (refines : q.Refines jobs) :
    Returns ((SchedulerCall.build jobPlan).run env) q fun answer t =>
      ∃ jobs', MapStep jobs (.build jobPlan, answer) jobs' ∧ t.Refines jobs' := by
  have refused : MapStep jobs (.build jobPlan, false) jobs := .notBuilt
  simp only [SchedulerCall.run, buildJobPlan]
  cases jobPlan.cronType with
  | none => exact .pure ⟨jobs, refused, refines⟩
  | some cronType =>
    simp only
    cases read : newQjobTrigger env cronType jobPlan.cronExpression with
    | error e =>
      have thrown : (throw e : QuartzM Unit) q = .error e q := rfl
      exact ⟨false, q, guarded_error thrown (isException_of_newQjobTrigger read), jobs, refused, refines⟩
    | ok schedule =>
      apply (guarded_answers (scheduleJob_rule jobPlan.qJobName (jobDetail jobPlan) schedule) refines).conseq
      rintro answer t (⟨rfl, free, done⟩ | ⟨rfl, same⟩)
      · exact ⟨_, .built free, done⟩
      · exact ⟨jobs, refused, same⟩

theorem rescheduleJob_rule (key : String) (schedule : Schedule) :
    Triple (fun q => key ∈ q.triggers ∧ q.Refines jobs) (rescheduleJob env key schedule)
      (fun _ q => key ∈ jobs ∧ q.Refines (Hella.setPaused false key jobs))
      fun e q => e.isException = true ∧ q.Refines jobs := by
  have requesting : Triple (fun q => key ∈ q.triggers ∧ q.Refines jobs) request
      (fun _ q => key ∈ q.triggers ∧ q.Refines jobs) fun e q => e.isException = true ∧ q.Refines jobs :=
    fun _ holds => ⟨holds.1, holds.2.paired, holds.2.shown⟩
  apply requesting.bind
  intro n
  split
  · apply Triple.modifying
    rintro q ⟨present, refines⟩
    obtain ⟨trigger, found⟩ := Option.isSome_iff_exists.mp (AList.lookup_isSome.mpr present)
    simp only [found]
    exact ⟨refines.mem.mpr ⟨(refines.paired key).mpr present, present⟩, refines.reschedule present schedule⟩
  · exact Triple.throw fun q holds => ⟨rfl, holds.2⟩

theorem getTrigger_rule (key : String) :
    Triple (Refines · jobs) (getTrigger env key) (fun old q => q.triggers.lookup key = old ∧ q.Refines jobs)
      fun e q => e.isException = true ∧ q.Refines jobs := by
  apply request_rule.bind
  intro n
  split
  · have reading : Triple (Refines · jobs) (get : QuartzM Quartz) (fun s q => s = q ∧ q.Refines jobs)
        fun e q => e.isException = true ∧ q.Refines jobs := Triple.getting fun q refines => ⟨rfl, refines⟩
    apply reading.bind
    intro s
    apply Triple.pure
    rintro q ⟨rfl, refines⟩
    exact ⟨rfl, refines⟩
  · exact Triple.throw fun q refines => ⟨rfl, refines⟩

/-- Only a trigger that is there can be given a new schedule. -/
theorem present_of_newSchedule {cronType : CronType} {cronExpression : String} {old : Option Trigger}
    {schedule : Schedule} (read : newSchedule env cronType cronExpression old = .ok schedule) : old.isSome := by
  cases old with
  | some trigger => rfl
  | none => cases cronType <;> simp [newSchedule] at read

theorem update_answers (key : String) (cronType : CronType) (cronExpression : String) (refines : q.Refines jobs) :
    Returns ((SchedulerCall.update key cronType cronExpression).run env) q fun answer t =>
      ∃ jobs', MapStep jobs (.update key cronType cronExpression, answer) jobs' ∧ t.Refines jobs' := by
  have refused : MapStep jobs (.update key cronType cronExpression, false) jobs := .notUpdated
  simp only [SchedulerCall.run, updateJob]
  split
  · exact .pure ⟨jobs, refused, refines⟩
  · refine (@guarded_answers _ (Refines · jobs) (fun q => key ∈ jobs ∧ q.Refines (Hella.setPaused false key jobs))
      (Refines · jobs) q ?_ refines).conseq ?_
    · apply (getTrigger_rule key).bind
      intro old
      cases read : newSchedule env cronType cronExpression old with
      | error e => exact Triple.throw fun q holds => ⟨isException_of_newSchedule read, holds.2⟩
      | ok schedule =>
        apply (rescheduleJob_rule key schedule).conseq _ (fun _ _ => id) fun _ _ => id
        rintro q ⟨rfl, refines⟩
        exact ⟨AList.lookup_isSome.mp (present_of_newSchedule read), refines⟩
    · rintro answer t (⟨rfl, there, done⟩ | ⟨rfl, same⟩)
      · exact ⟨_, .updated there, done⟩
      · exact ⟨jobs, refused, same⟩

theorem run_answers (call : SchedulerCall) (q : Quartz) (jobs : JMap QuartzJob) (refines : q.Refines jobs) :
    Returns (call.run env) q fun answer t => ∃ jobs', MapStep jobs (call, answer) jobs' ∧ t.Refines jobs' := by
  cases call with
  | build jobPlan => exact build_answers jobPlan refines
  | each change jps => exact each_answers change jps refines
  | update key cronType cronExpression => exact update_answers key cronType cronExpression refines

theorem event_answers (event : SchedulerEvent) (q : Quartz) (jobs : JMap QuartzJob) (refines : q.Refines jobs) :
    Returns (event.run env) q fun answer t => ∃ jobs', TableStep jobs (event, answer) jobs' ∧ t.Refines jobs' := by
  cases event with
  | call asked =>
    apply (run_answers asked q jobs refines).bind
    rintro answer t ⟨jobs', step, related⟩
    exact .pure ⟨jobs', .answers step, related⟩
  | completes key =>
    have removed : Returns (modify (unscheduleJob key) : QuartzM PUnit) q fun _ t => t.Refines (jobs.erase key) :=
      .modifying (refines.unscheduleJob key)
    exact removed.bind fun _ t related => .pure ⟨_, .removes, related⟩

/-- One after the other. -/
def runAll (env : QuartzEnv) (events : List SchedulerEvent) : QuartzM (List (Option Bool)) := events.mapM (·.run env)

theorem runAll_answers (events : List SchedulerEvent) (refines : q.Refines jobs) :
    Returns (runAll env events) q fun answers t =>
      answers.length = events.length ∧ ∃ jobs', Path TableStep jobs (events.zip answers) jobs' ∧ t.Refines jobs' :=
  Returns.mapM event_answers events refines

/-- From empty tables on, whatever fails and whatever Quartz removes between the calls, all calls are answered,
and as the machine on one table answers them; what the two tables hold in the end is what its table holds. -/
theorem one_table (env : QuartzEnv) (events : List SchedulerEvent) :
    Returns (runAll env events) {} fun answers q =>
      answers.length = events.length ∧ ∃ jobs, Path TableStep ∅ (events.zip answers) jobs ∧ q.Refines jobs :=
  runAll_answers events refines_empty

end Quartz

/-! ### What is scheduled -/

/-- The job with this key has these data. -/
def Holding (key : String) (job : JobDetail) (jobs : JMap QuartzJob) : Prop :=
  ∃ paused, jobs.lookup key = some (job.shown paused)

section Holding

variable {key k : String} {job : JobDetail} {jobs jobs' : JMap QuartzJob} {change : PlanChange} {jps : List PlanEntity}
  {answer : Bool}

theorem JobDetail.shown_inj {one other : JobDetail} {a b : Bool} : one.shown a = other.shown b ↔
    one = other ∧ a = b := by
  cases one
  cases other
  simp only [JobDetail.shown, QuartzJob.mk.injEq, JobDetail.mk.injEq]
  exact and_comm

theorem holding_setPaused (paused : Bool) : Holding key job (setPaused paused k jobs) ↔ Holding key job jobs := by
  by_cases here : key = k
  · subst here
    simp only [Holding, lookup_setPaused_self, Option.map_eq_some_iff]
    constructor
    · rintro ⟨_, old, found, same⟩
      refine ⟨old.paused, found.trans (congrArg some ?_)⟩
      cases old
      cases job
      simp only [JobDetail.shown, QuartzJob.mk.injEq] at same ⊢
      exact ⟨trivial, same.2⟩
    · rintro ⟨old, found⟩
      exact ⟨paused, _, found, rfl⟩
  · rw [Holding, Holding, lookup_setPaused_ne paused here]

theorem holding_erase : Holding key job (jobs.erase k) ↔ key ≠ k ∧ Holding key job jobs := by
  by_cases here : key = k
  · subst here
    simp [Holding, AList.lookup_erase]
  · simp [Holding, AList.lookup_erase_ne here, here]

theorem holding_insert {jobPlan : PlanEntity} : Holding key job (jobs.insert jobPlan.qJobName jobPlan.quartzJob) ↔
    if key = jobPlan.qJobName then job = Quartz.jobDetail jobPlan else Holding key job jobs := by
  split
  next here =>
    subst here
    have shown : jobPlan.quartzJob = (Quartz.jobDetail jobPlan).shown false := rfl
    simp only [Holding, AList.lookup_insert, shown, Option.some.injEq, JobDetail.shown_inj]
    exact ⟨fun ⟨_, same, _⟩ => same.symm, fun same => ⟨false, same.symm, rfl⟩⟩
  next here => rw [Holding, Holding, AList.lookup_insert_ne here]

/-- A change brings no data that were not there. -/
theorem PlanChange.holding_before (change : PlanChange) (holding : Holding key job (change.apply k jobs)) :
    Holding key job jobs := by
  cases change with
  | delete => exact (holding_erase.mp holding).2
  | pause => exact (holding_setPaused true).mp holding
  | resume => exact (holding_setPaused false).mp holding

/-- Only a deletion takes something away, and only at its key. -/
theorem PlanChange.holding_after (spared : change = .delete → key ≠ k) (holding : Holding key job jobs) :
    Holding key job (change.apply k jobs) := by
  cases change with
  | delete => exact holding_erase.mpr ⟨spared rfl, holding⟩
  | pause => exact (holding_setPaused true).mpr holding
  | resume => exact (holding_setPaused false).mpr holding

namespace PlanChange

theorem Interrupted.holding_before (interrupted : Interrupted k jobs change jobs') (holding : Holding key job jobs') :
    Holding key job jobs := by
  cases interrupted with
  | before => exact holding
  | after => exact PlanChange.holding_before _ holding
  | stopped => exact (holding_setPaused true).mp holding

theorem Interrupted.holding_after (interrupted : Interrupted k jobs change jobs') (spared : change = .delete → key ≠ k)
    (holding : Holding key job jobs) : Holding key job jobs' := by
  cases interrupted with
  | before => exact holding
  | after => exact PlanChange.holding_after spared holding
  | stopped => exact (holding_setPaused true).mpr holding

theorem Loop.holding_before (loop : Loop change jps jobs answer jobs') (holding : Holding key job jobs') :
    Holding key job jobs := by
  induction loop with
  | done => exact holding
  | turn _ ih => exact PlanChange.holding_before _ (ih holding)
  | failed interrupted => exact interrupted.holding_before holding

theorem Loop.holding_after (loop : Loop change jps jobs answer jobs')
    (spared : change = .delete → ∀ jp ∈ jps, jp.qJobName ≠ key) (holding : Holding key job jobs) :
    Holding key job jobs' := by
  induction loop with
  | done => exact holding
  | turn _ ih =>
    apply ih fun deleting jp member => spared deleting jp (List.mem_cons_of_mem _ member)
    exact PlanChange.holding_after (fun deleting => (spared deleting _ List.mem_cons_self).symm) holding
  | failed interrupted =>
    exact interrupted.holding_after (fun deleting => (spared deleting _ List.mem_cons_self).symm) holding

/-- What a deletion that succeeds has come past is gone. -/
theorem Loop.deleted {jp : PlanEntity} (loop : Loop .delete jps jobs answer jobs') (succeeded : answer = true)
    (member : jp ∈ jps) : ¬ Holding jp.qJobName job jobs' := by
  induction loop with
  | done => cases member
  | turn rest ih =>
    rcases List.mem_cons.mp member with rfl | later
    · intro holding
      exact (holding_erase.mp (rest.holding_before holding)).1 rfl
    · exact ih succeeded later
  | failed => cases succeeded

end PlanChange

/-- The calls that leave the job of a key alone. -/
def SchedulerCall.Spares (key : String) : SchedulerCall → Prop
  | build _ => True
  | each change jps => change = .delete → ∀ jp ∈ jps, jp.qJobName ≠ key
  | update _ _ _ => True

/-- No deletion of the key is asked for, and its trigger goes on. -/
def SchedulerEvent.Spares (key : String) : SchedulerEvent → Prop
  | call asked => asked.Spares key
  | completes qJobName => qJobName ≠ key

namespace MapStep

variable {call : SchedulerCall}

theorem keeps_holding (step : MapStep jobs (call, answer) jobs') (spares : call.Spares key)
    (holding : Holding key job jobs) : Holding key job jobs' := by
  cases step with
  | built free =>
    rw [holding_insert, if_neg]
    · exact holding
    · rintro rfl
      obtain ⟨paused, found⟩ := holding
      exact free (AList.lookup_isSome.mp (by rw [found]; rfl))
  | changed _ loop => exact loop.holding_after spares holding
  | updated => exact (holding_setPaused false).mpr holding
  | notBuilt => exact holding
  | unchanged => exact holding
  | notUpdated => exact holding

theorem brings_holding (step : MapStep jobs (call, answer) jobs') (missing : ¬ Holding key job jobs)
    (holding : Holding key job jobs') :
    ∃ jobPlan : PlanEntity, call = .build jobPlan ∧ answer = true ∧ jobPlan.qJobName = key ∧
      job = Quartz.jobDetail jobPlan := by
  cases step with
  | @built jobPlan free =>
    rw [holding_insert] at holding
    split at holding
    next here => exact ⟨jobPlan, rfl, rfl, here.symm, holding⟩
    next => exact absurd holding missing
  | changed _ loop => exact absurd (loop.holding_before holding) missing
  | updated => exact absurd ((holding_setPaused false).mp holding) missing
  | notBuilt => exact absurd holding missing
  | unchanged => exact absurd holding missing
  | notUpdated => exact absurd holding missing

end MapStep

namespace TableStep

variable {event : SchedulerEvent} {answer : Option Bool}

theorem keeps_holding (step : TableStep jobs (event, answer) jobs') (spares : event.Spares key)
    (holding : Holding key job jobs) : Holding key job jobs' := by
  cases step with
  | answers step => exact step.keeps_holding spares holding
  | removes => exact holding_erase.mpr ⟨Ne.symm spares, holding⟩

theorem brings_holding (step : TableStep jobs (event, answer) jobs') (missing : ¬ Holding key job jobs)
    (holding : Holding key job jobs') : ∃ jobPlan : PlanEntity, event = .call (.build jobPlan) ∧ answer = some true ∧
      jobPlan.qJobName = key ∧ job = Quartz.jobDetail jobPlan := by
  cases step with
  | answers step =>
    obtain ⟨jobPlan, rfl, rfl, named, data⟩ := step.brings_holding missing holding
    exact ⟨jobPlan, rfl, rfl, named, data⟩
  | removes => exact absurd (holding_erase.mp holding).2 missing

end TableStep

end Holding

namespace Quartz

theorem Refines.holding {q : Quartz} {jobs : JMap QuartzJob} {key : String} {job : JobDetail}
    (refines : q.Refines jobs) : q.jobs.lookup key = some job ↔ Holding key job jobs := by
  constructor
  · intro found
    have present : key ∈ q.triggers := (refines.paired key).mp (AList.lookup_isSome.mp (by rw [found]; rfl))
    obtain ⟨trigger, there⟩ := Option.isSome_iff_exists.mp (AList.lookup_isSome.mpr present)
    exact ⟨trigger.paused, by rw [refines.shown key, shows, found, there]; rfl⟩
  · rintro ⟨paused, found⟩
    rw [refines.shown key, shows] at found
    obtain ⟨other, here, shown⟩ := Option.bind_eq_some_iff.mp found
    obtain ⟨trigger, -, same⟩ := Option.map_eq_some_iff.mp shown
    rw [here, (JobDetail.shown_inj.mp same).1]

/-- A job is in the scheduler if a build with its data succeeded and since then no deletion of its key has been
asked for and its trigger has not fired for the last time; and it is there only if such a build succeeded and
since then no deletion of its key has succeeded, nor has its trigger fired for the last time. -/
theorem scheduled (env : QuartzEnv) (events : List SchedulerEvent) :
    Returns (runAll env events) {} fun answers q =>
      (∀ before jobPlan after, events.zip answers = before ++ (.call (.build jobPlan), some true) :: after →
        (∀ label ∈ after, label.1.Spares jobPlan.qJobName) →
          q.jobs.lookup jobPlan.qJobName = some (jobDetail jobPlan)) ∧
      ∀ key job, q.jobs.lookup key = some job →
        ∃ before jobPlan after, events.zip answers = before ++ (.call (.build jobPlan), some true) :: after ∧
          jobPlan.qJobName = key ∧ jobDetail jobPlan = job ∧ (.completes key, none) ∉ after ∧
            ∀ jps, (.call (.each .delete jps), some true) ∈ after → ∀ jp ∈ jps, jp.qJobName ≠ key := by
  apply (runAll_answers events refines_empty).conseq
  rintro answers q ⟨-, jobs, path, refines⟩
  constructor
  · intro before jobPlan after same spared
    rw [same] at path
    obtain ⟨_, -, rest⟩ := path.split
    cases rest with
    | cons built rest =>
      rw [refines.holding]
      apply rest.invariant (I := Holding jobPlan.qJobName (jobDetail jobPlan))
      · intro label member s t holding step
        exact step.keeps_holding (spared label member) holding
      · cases built with
        | answers built =>
          cases built with
          | built free => exact holding_insert.mpr (by rw [if_pos rfl])
  · intro key job found
    have nowhere : ¬ Holding key job ∅ := by
      rintro ⟨paused, found⟩
      cases found
    have holding := refines.holding.mp found
    rcases path.throughout_or (I := Holding key job) holding with always |
      ⟨before, label, after, u, v, same, -, missing, step, always⟩
    · exact absurd (Path.Throughout.first always holding) nowhere
    · obtain ⟨jobPlan, built, succeeded, named, data⟩ :=
        TableStep.brings_holding step missing (Path.Throughout.first always holding)
      refine ⟨before, jobPlan, after, ?_, named, data.symm, ?_, ?_⟩
      · rw [same, ← built, ← succeeded]
      -- the job was held before and after every later step
      · intro member
        obtain ⟨s, t, step, -, kept⟩ := Path.step_of_mem always member
        cases step with
        | removes => exact (holding_erase.mp kept).1 rfl
      · intro jps member jp inside here
        obtain ⟨s, t, step, -, kept⟩ := Path.step_of_mem always member
        cases step with
        | answers step =>
          cases step with
          | changed _ loop => exact loop.deleted rfl inside (here ▸ kept)

end Quartz

end Hella

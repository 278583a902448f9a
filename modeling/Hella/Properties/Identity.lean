import Hella.Lib.Numerals
import Hella.Plans.Triggers

/-!
# The identity of a plan in Quartz

A plan's job and trigger have one key, in which four fields stand between bars. The key tells
plans apart as long as no bar goes over from one field to the next.
-/
namespace Hella

open Exec Text

namespace PlanEntity

/-- The four fields the key is made of. -/
def identity (jep : PlanEntity) : String × Int × String × String :=
  (jep.clusterID, jep.executePlanVersionID, jep.jepID, jep.jepName)

/-- The fields behind the cluster, as they stand in the key. -/
def afterCluster (jep : PlanEntity) : String :=
  toString jep.executePlanVersionID ++ "|" ++ (jep.jepID ++ "|" ++ jep.jepName)

/-- What is the end of one field in the one plan is the beginning of the next in the other: the
id takes over the beginning of the name, or the cluster that of everything behind it. -/
def Shifts (a b : PlanEntity) : Prop :=
  (a.clusterID = b.clusterID ∧ a.executePlanVersionID = b.executePlanVersionID ∧
    ∃ u, b.jepID = a.jepID ++ "|" ++ u ∧ a.jepName = u ++ "|" ++ b.jepName) ∨
  ∃ u, b.clusterID = a.clusterID ++ "|" ++ u ∧ a.afterCluster = u ++ "|" ++ b.afterCluster

theorem qJobName_eq (jep : PlanEntity) : jep.qJobName = jep.clusterID ++ "|" ++ jep.afterCluster := by
  simp [qJobName, afterCluster, String.append_assoc]

theorem bar_not_mem_toString (n : Int) : '|' ∉ (toString n).toList := by
  have digits (m : Nat) : '|' ∉ (toString m).toList := fun member => absurd (isDigit_of_mem_toString member) (by decide)
  cases n with
  | ofNat m => exact digits m
  | negSucc m =>
    rw [toList_negSucc, List.mem_cons, not_or]
    exact ⟨by decide, digits (m + 1)⟩

theorem afterCluster_eq_iff (a b : PlanEntity) :
    a.afterCluster = b.afterCluster ↔ a.executePlanVersionID = b.executePlanVersionID ∧
      ((a.jepID = b.jepID ∧ a.jepName = b.jepName) ∨
        ∃ u, (b.jepID = a.jepID ++ "|" ++ u ∧ a.jepName = u ++ "|" ++ b.jepName) ∨
          (a.jepID = b.jepID ++ "|" ++ u ∧ b.jepName = u ++ "|" ++ a.jepName)) := by
  have bar : "|".toList = ['|'] := by decide
  rw [afterCluster, afterCluster,
    separated_eq_iff_plain bar (bar_not_mem_toString _) (bar_not_mem_toString _), separated_eq_iff bar]
  have versions : toString a.executePlanVersionID = toString b.executePlanVersionID ↔
      a.executePlanVersionID = b.executePlanVersionID := by
    constructor
    · exact fun same => toString_int_inj (by rw [same])
    · exact fun same => by rw [same]
  rw [versions]

/-- Two plans have one key exactly when they agree in the four fields or one shifts into the other. -/
theorem qJobName_eq_iff (a b : PlanEntity) :
    a.qJobName = b.qJobName ↔ a.identity = b.identity ∨ Shifts a b ∨ Shifts b a := by
  have bar : "|".toList = ['|'] := by decide
  rw [qJobName_eq, qJobName_eq, separated_eq_iff bar, afterCluster_eq_iff]
  simp only [identity, Shifts, Prod.mk.injEq]
  constructor
  · rintro (⟨cluster, version, same | ⟨u, shift | shift⟩⟩ | ⟨u, shift | shift⟩)
    · exact .inl ⟨cluster, version, same.1, same.2⟩
    · exact .inr (.inl (.inl ⟨cluster, version, u, shift⟩))
    · exact .inr (.inr (.inl ⟨cluster.symm, version.symm, u, shift⟩))
    · exact .inr (.inl (.inr ⟨u, shift⟩))
    · exact .inr (.inr (.inr ⟨u, shift⟩))
  · rintro (⟨cluster, version, id, name⟩ | (⟨cluster, version, u, shift⟩ | ⟨u, shift⟩) |
      (⟨cluster, version, u, shift⟩ | ⟨u, shift⟩))
    · exact .inl ⟨cluster, version, .inl ⟨id, name⟩⟩
    · exact .inl ⟨cluster, version, .inr ⟨u, .inl shift⟩⟩
    · exact .inr ⟨u, .inl shift⟩
    · exact .inl ⟨cluster.symm, version.symm, .inr ⟨u, .inr shift⟩⟩
    · exact .inr ⟨u, .inr shift⟩

end PlanEntity

/-! ### The operations of the builder -/

namespace Quartz

/-- The operations `DefaultJobPlanBuilder` offers for a plan. -/
inductive BuilderCall where
  | build | delete | pause | resume
  | update (cronType : CronType) (cronExpression : String)

def BuilderCall.run (env : QuartzEnv) (jep : PlanEntity) : BuilderCall → QuartzM Bool
  | build => buildJobPlan env jep
  | delete => deleteJobPlan env [jep]
  | pause => pauseJob env [jep]
  | resume => resumeJob env [jep]
  | update cronType cronExpression => updateJob env jep.qJobName cronType cronExpression

/-- Nothing but what has the key has changed. -/
structure Elsewhere (key : String) (s t : Quartz) : Prop where
  jobs : ∀ k, k ≠ key → t.jobs.lookup k = s.jobs.lookup k
  triggers : ∀ k, k ≠ key → t.triggers.lookup k = s.triggers.lookup k

section Frame

variable {env : QuartzEnv} {key : String} {s t : Quartz}

theorem Elsewhere.setPaused (same : Elsewhere key s t) (paused : Bool) : Elsewhere key s (t.setPaused paused key) := by
  unfold Quartz.setPaused
  cases t.triggers.lookup key with
  | none => exact same
  | some trigger =>
    refine ⟨same.jobs, ?_⟩
    intro k other
    rw [← same.triggers k other]
    exact AList.lookup_insert_ne other

theorem Elsewhere.deleteJob (same : Elsewhere key s t) : Elsewhere key s (t.deleteJob key) := by
  constructor
  · intro k other
    rw [← same.jobs k other]
    exact AList.lookup_erase_ne other
  · intro k other
    rw [← same.triggers k other]
    exact AList.lookup_erase_ne other

theorem Elsewhere.unscheduleJob (same : Elsewhere key s t) : Elsewhere key s (t.unscheduleJob key) := by
  unfold Quartz.unscheduleJob
  cases t.triggers.lookup key with
  | none => exact same
  | some trigger => exact same.deleteJob

theorem keeps_request : Keeps (Elsewhere key s) request := fun _ same => ⟨same.jobs, same.triggers⟩

theorem keeps_call {change : Quartz → Quartz} (frame : ∀ t, Elsewhere key s t → Elsewhere key s (change t)) :
    Keeps (Elsewhere key s) (call env change) := by
  apply keeps_request.bind
  intro n
  split
  · exact Keeps.modifying frame
  · exact Keeps.throw _

theorem keeps_getTrigger (k : String) : Keeps (Elsewhere key s) (getTrigger env k) := by
  apply keeps_request.bind
  intro n
  split
  · exact Keeps.getting.bind fun _ => Keeps.pure _
  · exact Keeps.throw _

theorem Elsewhere.setTrigger (same : Elsewhere key s t) (trigger : Trigger) :
    Elsewhere key s { t with triggers := t.triggers.insert key trigger } := by
  refine ⟨same.jobs, ?_⟩
  intro k other
  rw [← same.triggers k other]
  exact AList.lookup_insert_ne other

theorem keeps_scheduleJob (job : JobDetail) (schedule : Schedule) :
    Keeps (Elsewhere key s) (scheduleJob env key job schedule) := by
  apply keeps_request.bind
  intro n
  split
  · apply Keeps.getting.bind
    intro now
    split
    · exact Keeps.throw _
    · apply Keeps.modifying
      intro t same
      refine ⟨?_, (same.setTrigger { schedule := schedule }).triggers⟩
      intro k other
      rw [← same.jobs k other]
      exact AList.lookup_insert_ne other
  · exact Keeps.throw _

theorem keeps_rescheduleJob (schedule : Schedule) : Keeps (Elsewhere key s) (rescheduleJob env key schedule) := by
  apply keeps_request.bind
  intro n
  split
  · apply Keeps.modifying
    intro t same
    split
    · exact same
    · exact same.setTrigger _
  · exact Keeps.throw _

theorem keeps_guarded {body : QuartzM Unit} (keeps : Keeps (Elsewhere key s) body) :
    Keeps (Elsewhere key s) (guarded body) :=
  Keeps.catching (keeps.bind fun _ => Keeps.pure _) fun _ _ => Keeps.pure _

/-- A call on one plan is its step, guarded. -/
theorem keeps_onPlans {step : PlanEntity → QuartzM Unit} {jep : PlanEntity}
    (keeps : Keeps (Elsewhere key s) (step jep)) : Keeps (Elsewhere key s) (onPlans step [jep]) := by
  apply (keeps_guarded keeps).bind
  intro done
  cases done with
  | true => exact Keeps.pure _
  | false => exact Keeps.pure _

theorem keeps_setPaused (paused : Bool) : Keeps (Elsewhere key s) (call env (setPaused paused key)) :=
  keeps_call fun _ same => same.setPaused paused

/-- Every operation on a plan changes what has the plan's key and nothing else. -/
theorem keeps_run (call : BuilderCall) (jep : PlanEntity) (s : Quartz) :
    Keeps (Elsewhere jep.qJobName s) (call.run env jep) := by
  -- every call names the job and the trigger by the key of the plan
  cases call with
  | build =>
    simp only [BuilderCall.run, buildJobPlan]
    cases jep.cronType with
    | none => exact Keeps.pure _
    | some cronType =>
      apply keeps_guarded
      cases newQjobTrigger env cronType jep.cronExpression with
      | error e => exact Keeps.throw e
      | ok schedule => exact keeps_scheduleJob _ schedule
  | delete =>
    apply keeps_onPlans
    refine (keeps_setPaused true).bind fun _ => ?_
    refine (keeps_call fun _ same => same.unscheduleJob).bind fun _ => ?_
    exact keeps_call fun _ same => same.deleteJob
  | pause => exact keeps_onPlans ((keeps_setPaused true).bind fun _ => keeps_setPaused true)
  | resume => exact keeps_onPlans ((keeps_setPaused false).bind fun _ => keeps_setPaused false)
  | update cronType cronExpression =>
    simp only [BuilderCall.run, updateJob]
    split
    · exact Keeps.pure _
    · apply keeps_guarded
      apply (keeps_getTrigger _).bind
      intro old
      cases newSchedule env cronType cronExpression old with
      | error e => exact Keeps.throw e
      | ok schedule => exact keeps_rescheduleJob schedule

end Frame

/-- No operation on the one plan, whatever fails in it, changes the job or the trigger of the
other. -/
def Undisturbed (a b : PlanEntity) : Prop :=
  ∀ (env : QuartzEnv) (call : BuilderCall) (s : Quartz),
    (after (call.run env a s)).jobs.lookup b.qJobName = s.jobs.lookup b.qJobName ∧
      (after (call.run env a s)).triggers.lookup b.qJobName = s.triggers.lookup b.qJobName

theorem undisturbed_iff_key (a b : PlanEntity) : Undisturbed a b ↔ a.qJobName ≠ b.qJobName := by
  constructor
  · intro undisturbed same
    -- with one key for both plans the deletion of the one removes the job of the other
    let s : Quartz := { jobs := AList.insert b.qJobName (jobDetail b) ∅ }
    have kept := (undisturbed .calm .delete s).1
    have deleted : (after (BuilderCall.run .calm a .delete s)).jobs = s.jobs.erase a.qJobName := rfl
    rw [deleted, same, AList.lookup_erase, AList.lookup_insert] at kept
    cases kept
  · intro other env call s
    have elsewhere : Elsewhere a.qJobName s (after (call.run env a s)) :=
      (keeps_run call a s).after ⟨fun _ _ => rfl, fun _ _ => rfl⟩
    exact ⟨elsewhere.jobs _ other.symm, elsewhere.triggers _ other.symm⟩

/-- The operations on a plan leave a different plan alone exactly when neither of the two shifts
into the other. -/
theorem undisturbed_iff (a b : PlanEntity) (different : a.identity ≠ b.identity) :
    Undisturbed a b ↔ ¬ a.Shifts b ∧ ¬ b.Shifts a := by
  rw [undisturbed_iff_key, ne_eq, PlanEntity.qJobName_eq_iff, not_or, not_or]
  constructor
  · exact fun apart => apart.2
  · exact fun apart => ⟨different, apart⟩

def cleanUp : PlanEntity :=
  { id := 1, clusterID := "c", jepID := "1", jepName := "x|0|2|y", cronType := some .cron, cronExpression := "",
    jobPlanNodeList := [], createDate := "" }

def report : PlanEntity :=
  { id := 2, clusterID := "c|0|1|x", jepID := "2", jepName := "y", cronType := some .cron, cronExpression := "",
    jobPlanNodeList := [], createDate := "" }

theorem undisturbed_iff_report : ¬ Undisturbed cleanUp report := by
  rw [undisturbed_iff cleanUp report (by decide)]
  intro apart
  exact apart.1 (.inr ⟨"0|1|x", by decide, by decide⟩)

/-- Both plans have the key `c|0|1|x|0|2|y`. -/
theorem disturbed_report : ¬ ∀ a b : PlanEntity, a.identity ≠ b.identity → Undisturbed a b := by
  intro undisturbed
  have apart := (undisturbed_iff_key cleanUp report).mp (undisturbed cleanUp report (by decide))
  exact apart (by decide)

end Quartz

end Hella

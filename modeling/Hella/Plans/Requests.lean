import Hella.Plans.Consistency
import Hella.Lib.Runs

/-!
# Runs of the plan manager

The requests made to `IJobPlanManager`, one after the other, in any order.
-/
namespace Hella

open Exec Runs Text

/-- A firing reaches `publishEvent` when its thread gets to run, whatever has happened to
the plan since the trigger. -/
inductive PlanRequest where
  | register (context : JobExecutionPlanSubmissionContext)
  | pause (jobExecutionPlan : PlanEntity)
  | pauseOf (clusterID jepID : String)
  | resume (id : Nat)
  | resumeOf (clusterID jepID : String)
  | disable (jobExecutionPlanID : Nat)
  | disableOf (clusterID jepID : String)
  | delete (clusterID jepID : String)
  | deleteByID (jobExecutionPlanID : Nat)
  | publishEvent (jobExecutionPlanID : Nat)

/-- The call made for a request; the answers are not looked at. -/
def PlanRequest.run (env : PlanEnv) : PlanRequest → PlanM Unit
  | .register context => discard (JobPlanManager.registerJobExecutionPlanSubmissionContext env context)
  | .pause jobExecutionPlan => discard (JobPlanManager.pauseJobExecutionPlan env jobExecutionPlan)
  | .pauseOf clusterID jepID => discard (JobPlanManager.pauseJobExecutionPlans env clusterID jepID)
  | .resume id => discard (JobPlanManager.resumeJobExecutionPlan env id)
  | .resumeOf clusterID jepID => discard (JobPlanManager.resumeJobExecutionPlans env clusterID jepID)
  | .disable id => discard (JobPlanManager.disableJobExecutionPlans env id)
  | .disableOf clusterID jepID => discard (JobPlanManager.disableJobExecutionPlansOf env clusterID jepID)
  | .delete clusterID jepID => discard (JobPlanManager.deleteJobExecutionPlan env clusterID jepID)
  | .deleteByID id => discard (JobPlanManager.deleteJobExecutionPlanByID env id)
  | .publishEvent id => JobPlanManager.publishEvent env id

/-- The runs of the manager from the states described. -/
def planSystem (env : PlanEnv) (initial : PlanSystem → Prop) : System PlanSystem PlanRequest :=
  ⟨initial, fun s request t => t = after (request.run env s)⟩

/-- A submission as the parser builds it, with identifiers that are not blank. -/
structure JobExecutionPlanSubmissionContext.WellFormed (context : JobExecutionPlanSubmissionContext) : Prop where
  clusterId : isBlank (some context.clusterId) = false
  clusterIDs : ∀ jep ∈ context.jobExecutionPlans, jep.clusterID = context.clusterId
  jepIDs : ∀ jep ∈ context.jobExecutionPlans, isBlank (some jep.jepID) = false

/-- A start node of the cluster `c`. -/
def JobPlanNode.plain : JobPlanNode :=
  { id := 0, jobExecutionPlanID := 0, name := "start", type := .start, executorClusterID := "c", toNode := some "end" }

/-- A plan of the cluster that has only this node. -/
def PlanEntity.plain (jepID jepName : String) : PlanEntity where
  id := 0
  jobPlanNodeList := [.plain]
  clusterID := "c"
  jepID := jepID
  jepName := jepName
  cronType := some .cron
  cronExpression := "0 0 1 * * ?"
  createDate := "2014-01-29 18:06:40"

theorem plain_wellFormed (jepNames : List String) :
    JobExecutionPlanSubmissionContext.WellFormed ⟨"c", jepNames.map (.plain "p")⟩ := by
  constructor
  · change isBlank (some "c") = false
    decide
  · simp [PlanEntity.plain]
  · intro jep member
    obtain ⟨jepName, -, rfl⟩ := List.mem_map.mp member
    change isBlank (some "p") = false
    decide

/-- There are no rows; the counters may have any value. -/
structure PlanTables.Empty (t : PlanTables) : Prop where
  jobExecutionPlans : t.jobExecutionPlans = []
  jobPlanNodes : t.jobPlanNodes = []
  xjobMetas : t.xjobMetas = []

theorem PlanTables.Empty.consistent {t : PlanTables} (empty : t.Empty) : t.Consistent := by
  obtain ⟨plans, nodes, metas⟩ := empty
  refine ⟨⟨⟨?_, ?_, ?_, ?_⟩, ?_⟩, ?_, ?_⟩ <;> simp [plans, nodes, metas]

section Steps

variable {env : PlanEnv} {s : PlanSystem} {context : JobExecutionPlanSubmissionContext}

theorem returns_discard {α : Type} {x : PlanM α} {Q : PlanSystem → Prop} (returns : Returns x s fun _ => Q) :
    Q (after ((discard x : PlanM Unit) s)) := by
  rw [after_discard]
  exact returns.after

/-- A submission without plans ends in a null pointer and is answered with false. -/
theorem register_empty (none_ : context.jobExecutionPlans = []) :
    Returns (JobPlanManager.registerJobExecutionPlanSubmissionContext env context) s fun answer t =>
      answer = false ∧ s.Leaves s.tables s.quartz t := by
  unfold JobPlanManager.registerJobExecutionPlanSubmissionContext JobPlanManager.saveJobPlan
  rw [none_]
  split
  · exact .pure ⟨rfl, rfl, rfl, rfl⟩
  · exact .caught (e := .nullPointerException) (t := s) rfl rfl ⟨false, s, rfl, rfl, rfl, rfl, rfl⟩

/-- A submission replaces its plans one after the other, and builds those to be scheduled. -/
theorem registers (calm : env.Calm) (named : isBlank (some context.clusterId) = false) :
    Returns (JobPlanManager.registerJobExecutionPlanSubmissionContext env context) s fun _ =>
      s.Leaves (context.jobExecutionPlans.foldl (PlanTables.replacePlan context.clusterId) s.tables)
        ((s.tables.toBuild context.clusterId context.jobExecutionPlans).foldl env.rebuild s.quartz) := by
  by_cases none_ : context.jobExecutionPlans = []
  · apply (register_empty none_).conseq
    intro answer t left_
    rw [none_]
    exact left_.2
  · exact (register_calm calm named none_).conseq fun _ _ left_ => left_.2

end Steps

end Hella

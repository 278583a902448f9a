import Hella.Plans.Manager

/-!
# What the plan operations do when nothing fails

With DAO and Quartz calls that succeed each operation returns, and what it leaves in the
tables and in Quartz is a function of what it found.
-/
namespace Hella

open Exec Text

/-- Every DAO call and every call made to Quartz succeeds. -/
structure PlanEnv.Calm (env : PlanEnv) : Prop where
  dao : ∀ n, env.daoSucceeds n = true
  quartz : ∀ n, env.quartzSucceeds n = true

/-- Nothing fails, and every expression is a schedule. -/
def PlanEnv.calm : PlanEnv := ⟨fun _ => true, fun _ => true, fun _ _ => true⟩

theorem PlanEnv.calm_calm : PlanEnv.calm.Calm := ⟨fun _ => rfl, fun _ => rfl⟩

/-! ### The tables -/

namespace PlanTables

/-- The three deletions of a plan. -/
def deletePlan (t : PlanTables) (id : Nat) : PlanTables :=
  ((t.deleteJobExecutionPlan id).deleteJobPlanNode id).deleteXjobMeta id

/-- A node and its job are stored for a plan. -/
def insertNode (jobExecutionPlanID : Nat) (t : PlanTables) (node : JobPlanNode) : PlanTables :=
  let stored := t.insertJobPlanNode { node with jobExecutionPlanID := jobExecutionPlanID }
  match node.xjobMeta with
  | none => stored
  | some xjobMeta => stored.insertXjobMeta jobExecutionPlanID (t.lastJobPlanNodeID + 1) xjobMeta

def insertPlan (t : PlanTables) (jep : PlanEntity) : PlanTables :=
  jep.jobPlanNodeList.foldl (insertNode (t.lastJobExecutionPlanID + 1)) (t.insertJobExecutionPlan jep)

/-- The stored plan a submitted one replaces. -/
def stored? (t : PlanTables) (clusterID jepID : String) : Option PlanEntity :=
  (t.selectJobExecutionPlan 0 (some clusterID) (some jepID) none).head?

/-- The tables when the old rows of a plan are gone. -/
def cleared (t : PlanTables) (clusterID jepID : String) : PlanTables :=
  match t.stored? clusterID jepID with
  | none => t
  | some old => t.deletePlan old.id

def replacePlan (clusterId : String) (t : PlanTables) (jep : PlanEntity) : PlanTables :=
  (t.cleared clusterId jep.jepID).insertPlan jep

def byID? (t : PlanTables) (id : Nat) : Option PlanEntity :=
  if id = 0 then none else (t.selectJobExecutionPlan id none none none).head?

/-- The plans of a submission that are to be scheduled, with their new keys. -/
def toBuild (clusterId : String) : PlanTables → List PlanEntity → List PlanEntity
  | _, [] => []
  | t, jep :: jeps =>
    let saved := { jep with id := (t.cleared clusterId jep.jepID).lastJobExecutionPlanID + 1 }
    let rest := toBuild clusterId (t.replacePlan clusterId jep) jeps
    if JobPlanManager.isLocal clusterId saved then saved :: rest else rest

end PlanTables

/-! ### Quartz -/

/-- Whether a builder makes a trigger for the plan. -/
def PlanEnv.builds (env : PlanEnv) (jep : PlanEntity) : Bool :=
  match jep.cronType with
  | none => false
  | some .event => false
  | some type => env.schedules type jep.cronExpression

/-- The old job under the key of a plan gives way to the new one. -/
def PlanEnv.rebuild (env : PlanEnv) (jobs : JMap QuartzJob) (jep : PlanEntity) : JMap QuartzJob :=
  if env.builds jep then (jobs.erase jep.qJobName).insert jep.qJobName jep.quartzJob
  else jobs.erase jep.qJobName

/-! ### The operations -/

/-- The system apart from the number of requests it has made. -/
structure PlanSystem.Leaves (s : PlanSystem) (tables : PlanTables) (quartz : JMap QuartzJob)
  (t : PlanSystem) : Prop where
  tables : t.tables = tables
  quartz : t.quartz = quartz
  started : t.started = s.started

theorem PlanSystem.Leaves.trans {s t u : PlanSystem} {tables tables' : PlanTables} {quartz quartz' : JMap QuartzJob}
    (first : s.Leaves tables quartz t) (second : t.Leaves tables' quartz' u) : s.Leaves tables' quartz' u :=
  ⟨second.tables, second.quartz, second.started.trans first.started⟩

section Operations

variable {env : PlanEnv} (calm : env.Calm) {s : PlanSystem}
include calm

theorem daoCall_calm (s : PlanSystem) : PlanSystem.daoCall env s = .ok () { s with tick := s.tick + 1 } := by
  change (if env.daoSucceeds s.tick then pure () else throw .daoException : PlanM Unit) _ = _
  rw [calm.dao, if_pos rfl]
  rfl

theorem updates (statement : PlanTables → PlanTables) :
    Returns (PlanSystem.update env statement) s fun _ => s.Leaves (statement s.tables) s.quartz :=
  ⟨_, _, bind_ok (daoCall_calm calm s), rfl, rfl, rfl⟩

/-! ### Registration -/

theorem queryJobPlan_calm (clusterID jepID : String) (state : Option PlanState) :
    Returns (JobExecutionPlanDao.queryJobPlan env clusterID jepID state) s fun list t =>
      list = s.tables.selectJobExecutionPlan 0 (some clusterID) (some jepID) state ∧ s.Leaves s.tables s.quartz t :=
  ⟨_, _, bind_ok (daoCall_calm calm s), rfl, rfl, rfl, rfl⟩

theorem queryJobPlanByID_calm (id : Nat) :
    Returns (JobExecutionPlanDao.queryJobPlanByID env id) s fun found t =>
      found = s.tables.byID? id ∧ s.Leaves s.tables s.quartz t := by
  unfold JobExecutionPlanDao.queryJobPlanByID PlanTables.byID?
  split
  · exact .pure ⟨rfl, rfl, rfl, rfl⟩
  · exact ⟨_, _, bind_ok (daoCall_calm calm s), rfl, rfl, rfl, rfl⟩

theorem save_calm (jep : PlanEntity) :
    Returns (JobExecutionPlanDao.save env jep) s fun saved t =>
      saved = { jep with id := s.tables.lastJobExecutionPlanID + 1 } ∧
        s.Leaves (s.tables.insertJobExecutionPlan jep) s.quartz t :=
  .reading ((updates calm _).bind fun _ _ left_ => .pure ⟨rfl, left_⟩)

theorem saveJobPlanNode_calm (node : JobPlanNode) :
    Returns (JobExecutionPlanDao.saveJobPlanNode env node) s fun saved t =>
      saved = { node with id := s.tables.lastJobPlanNodeID + 1 } ∧
        s.Leaves (s.tables.insertJobPlanNode node) s.quartz t :=
  .reading ((updates calm _).bind fun _ _ left_ => .pure ⟨rfl, left_⟩)

theorem saveNode_calm (id : Nat) (node : JobPlanNode) :
    Returns (JobPlanManager.saveNode env id node) s fun _ => s.Leaves (s.tables.insertNode id node) s.quartz := by
  refine (saveJobPlanNode_calm calm _).bind fun saved t ⟨same, left_⟩ => ?_
  subst same
  dsimp only
  unfold PlanTables.insertNode
  cases node.xjobMeta with
  | none => exact .pure left_
  | some xjobMeta =>
    refine (updates calm _).conseq fun _ u left' => left_.trans ?_
    rw [left_.tables, left_.quartz] at left'
    exact left'

theorem saveNodes_calm (id : Nat) (nodes : List JobPlanNode) :
    Returns (nodes.forM (JobPlanManager.saveNode env id)) s fun _ =>
      s.Leaves (nodes.foldl (PlanTables.insertNode id) s.tables) s.quartz := by
  induction nodes generalizing s with
  | nil => exact .pure ⟨rfl, rfl, rfl⟩
  | cons node nodes ih =>
    refine (saveNode_calm calm id node).bind fun _ t left_ => ih.conseq fun _ u left' => left_.trans ?_
    rw [left_.tables, left_.quartz] at left'
    exact left'

theorem saveJobExecutionPlan_calm (jep : PlanEntity) :
    Returns (JobPlanManager.saveJobExecutionPlan env jep) s fun saved t =>
      saved = { jep with id := s.tables.lastJobExecutionPlanID + 1 } ∧
        s.Leaves (s.tables.insertPlan jep) s.quartz t := by
  refine (save_calm calm jep).bind fun saved t ⟨same, left_⟩ => ?_
  subst same
  refine (saveNodes_calm calm _ _).bind fun _ u left' => .pure ⟨rfl, left_.trans ?_⟩
  rw [left_.tables, left_.quartz] at left'
  exact left'

theorem deleteJobPlan_calm (id : Nat) :
    Returns (JobPlanManager.deleteJobPlan env id) s fun _ => s.Leaves (s.tables.deletePlan id) s.quartz := by
  refine (updates calm _).bind fun _ t left₁ => (updates calm _).bind fun _ u left₂ =>
    (updates calm _).conseq fun _ v left₃ => ?_
  rw [left₁.tables, left₁.quartz] at left₂
  rw [left₂.tables, left₂.quartz] at left₃
  exact (left₁.trans left₂).trans left₃

theorem clearJobPlan_calm (clusterId jepID : String) :
    Returns (JobPlanManager.clearJobPlan env clusterId jepID) s fun _ =>
      s.Leaves (s.tables.cleared clusterId jepID) s.quartz := by
  refine (queryJobPlan_calm calm clusterId jepID none).bind fun list t ⟨same, left_⟩ => ?_
  subst same
  unfold PlanTables.cleared PlanTables.stored?
  cases (s.tables.selectJobExecutionPlan 0 (some clusterId) (some jepID) none).head? with
  | none => exact .pure left_
  | some old =>
    refine (deleteJobPlan_calm calm old.id).conseq fun _ u left' => left_.trans ?_
    rw [left_.tables, left_.quartz] at left'
    exact left'

theorem replaceJobPlan_calm (clusterId : String) (jep : PlanEntity) :
    Returns (JobPlanManager.replaceJobPlan env clusterId jep) s fun saved t =>
      saved = { jep with id := (s.tables.cleared clusterId jep.jepID).lastJobExecutionPlanID + 1 } ∧
        s.Leaves (s.tables.replacePlan clusterId jep) s.quartz t := by
  refine (clearJobPlan_calm calm clusterId jep.jepID).bind fun _ t left_ => ?_
  refine (saveJobExecutionPlan_calm calm jep).conseq fun saved u ⟨same, left'⟩ => ?_
  rw [left_.tables] at same
  rw [left_.tables, left_.quartz] at left'
  exact ⟨same, left_.trans left'⟩

theorem saveJobPlans_calm (clusterId : String) (jeps : List PlanEntity) :
    Returns (JobPlanManager.saveJobPlans env clusterId jeps) s fun list t =>
      list = s.tables.toBuild clusterId jeps ∧
        s.Leaves (jeps.foldl (PlanTables.replacePlan clusterId) s.tables) s.quartz t := by
  induction jeps generalizing s with
  | nil => exact .pure ⟨rfl, rfl, rfl, rfl⟩
  | cons jep jeps ih =>
    refine (replaceJobPlan_calm calm clusterId jep).bind fun saved t ⟨same, left_⟩ => ?_
    refine ih.bind fun list u ⟨built, left'⟩ => .pure ⟨?_, ?_⟩
    · rw [built, same, left_.tables]
      rfl
    · rw [left_.tables, left_.quartz] at left'
      exact left_.trans left'

/-! ### Quartz -/

theorem onEach_calm (change : String → JMap QuartzJob → JMap QuartzJob) (jps : List PlanEntity) :
    Returns (JobPlanBuilder.onEach env change jps) s fun rs t =>
      rs = true ∧ s.Leaves s.tables (jps.foldl (fun jobs jp => change jp.qJobName jobs) s.quartz) t := by
  induction jps generalizing s with
  | nil => exact .pure ⟨rfl, rfl, rfl, rfl⟩
  | cons jp jps ih =>
    obtain ⟨rs, t, returned, same, left_⟩ := @ih { s with tick := s.tick + 1, quartz := change jp.qJobName s.quartz }
    refine ⟨rs, t, ?_, same, left_.tables, left_.quartz, left_.started⟩
    change (if env.quartzSucceeds s.tick then _ else _ : PlanM Bool) _ = _
    rw [calm.quartz, if_pos rfl]
    exact returned

theorem onJob_calm (change : String → JMap QuartzJob → JMap QuartzJob) (jp : PlanEntity) :
    Returns (JobPlanBuilder.onJobs env change [jp]) s fun rs t =>
      rs = true ∧ s.Leaves s.tables (change jp.qJobName s.quartz) t :=
  onEach_calm calm change [jp]

/-- A plan is built under a key that has no job. -/
theorem build_calm (jp : PlanEntity) (free : jp.qJobName ∉ s.quartz) :
    Returns (JobPlanBuilder.buildJobPlan env jp) s fun _ =>
      s.Leaves s.tables (if env.builds jp then s.quartz.insert jp.qJobName jp.quartzJob else s.quartz) := by
  have scheduled : ∀ type, Returns (do
      if env.schedules type jp.cronExpression then
        if env.quartzSucceeds (← PlanSystem.request) then
          if (← get).quartz.keys.contains jp.qJobName then return false
          else
            modify fun s => { s with quartz := s.quartz.insert jp.qJobName jp.quartzJob }
            return true
        else return false
      else return false : PlanM Bool) s fun _ => s.Leaves s.tables
        (if env.schedules type jp.cronExpression then s.quartz.insert jp.qJobName jp.quartzJob else s.quartz) := by
    intro type
    split
    -- the key is free, so the scheduler takes the job the first time
    · have absent : s.quartz.keys.contains jp.qJobName = false := by simpa [AList.mem_keys] using free
      refine ⟨true, { s with tick := s.tick + 1, quartz := s.quartz.insert jp.qJobName jp.quartzJob },
        ?_, rfl, rfl, rfl⟩
      change (if env.quartzSucceeds s.tick then _ else _ : PlanM Bool) _ = _
      rw [calm.quartz, if_pos rfl]
      change (if s.quartz.keys.contains jp.qJobName then _ else _ : PlanM Bool) _ = _
      rw [absent]
      rfl
    · exact .pure ⟨rfl, rfl, rfl⟩
  unfold JobPlanBuilder.buildJobPlan PlanEnv.builds
  -- a plan that waits for an event is left to the event
  match jp.cronType with
  | none => exact .pure ⟨rfl, rfl, rfl⟩
  | some .event => exact .pure ⟨rfl, rfl, rfl⟩
  | some .simple => exact scheduled .simple
  | some .cron => exact scheduled .cron

theorem buildJobPlan_calm (jps : List PlanEntity) :
    Returns (JobPlanManager.buildJobPlan env jps) s fun _ =>
      s.Leaves s.tables (jps.foldl env.rebuild s.quartz) := by
  induction jps generalizing s with
  | nil => exact .pure ⟨rfl, rfl, rfl⟩
  | cons jp jps ih =>
    refine (onJob_calm calm (fun key jobs => jobs.erase key) jp).bind fun _ t ⟨_, left₁⟩ => ?_
    have free : jp.qJobName ∉ t.quartz := by
      rw [left₁.quartz, AList.mem_erase]
      exact fun member => member.1 rfl
    refine (build_calm calm jp free).bind fun _ u left₂ => ih.conseq fun _ v left₃ => ?_
    rw [left₁.tables, left₁.quartz] at left₂
    rw [left₂.tables, left₂.quartz] at left₃
    exact (left₁.trans left₂).trans left₃

/-- A submission with plans is stored and scheduled. -/
theorem register_calm {context : JobExecutionPlanSubmissionContext} (named : isBlank (some context.clusterId) = false)
    (plans : context.jobExecutionPlans ≠ []) :
    Returns (JobPlanManager.registerJobExecutionPlanSubmissionContext env context) s fun answer t =>
      answer = true ∧ s.Leaves (context.jobExecutionPlans.foldl (PlanTables.replacePlan context.clusterId) s.tables)
        ((s.tables.toBuild context.clusterId context.jobExecutionPlans).foldl env.rebuild s.quartz) t := by
  unfold JobPlanManager.registerJobExecutionPlanSubmissionContext JobPlanManager.saveJobPlan
  rw [named, if_neg Bool.false_ne_true]
  have some_ : context.jobExecutionPlans.isEmpty = false := by simpa using plans
  rw [some_, if_neg Bool.false_ne_true]
  apply Returns.catching
  refine .bind (.bind (saveJobPlans_calm calm context.clusterId context.jobExecutionPlans) (R := fun list t =>
    list = some (s.tables.toBuild context.clusterId context.jobExecutionPlans) ∧
      s.Leaves (context.jobExecutionPlans.foldl (PlanTables.replacePlan context.clusterId) s.tables) s.quartz t)
    fun list t ⟨same, left_⟩ => .pure ⟨congrArg some same, left_⟩) fun list t ⟨same, left_⟩ => ?_
  subst same
  refine (buildJobPlan_calm calm _).bind fun _ u left' => .pure ⟨rfl, left_.trans ?_⟩
  rw [left_.tables, left_.quartz] at left'
  exact left'

/-! ### The other operations -/

theorem updateState_calm (id : Nat) (clusterID : Option String) (state : PlanState) :
    Returns (JobExecutionPlanDao.updateJobPlanState env id clusterID state) s fun _ =>
      s.Leaves (s.tables.updateState id clusterID state) s.quartz := updates calm _

theorem pauseJobExecutionPlan_calm (jep : PlanEntity) :
    Returns (JobPlanManager.pauseJobExecutionPlan env jep) s fun _ =>
      s.Leaves (s.tables.updateState jep.id none .disable) (setPaused true jep.qJobName s.quartz) := by
  apply Returns.catching
  refine (onJob_calm calm (setPaused true) jep).bind fun rs t ⟨same, left_⟩ => ?_
  subst same
  refine (updateState_calm calm jep.id none .disable).bind fun _ u left' => .pure (left_.trans ?_)
  rw [left_.tables, left_.quartz] at left'
  exact left'

theorem resumeJobExecutionPlan_calm (id : Nat) :
    Returns (JobPlanManager.resumeJobExecutionPlan env id) s fun _ =>
      match s.tables.byID? id with
      | none => s.Leaves s.tables s.quartz
      | some jep => s.Leaves (s.tables.updateState id none .able) (setPaused false jep.qJobName s.quartz) := by
  apply Returns.catching
  refine (queryJobPlanByID_calm calm id).bind fun found t ⟨same, left_⟩ => ?_
  subst same
  cases s.tables.byID? id with
  | none => exact .pure left_
  | some jep =>
    refine (onJob_calm calm (setPaused false) jep).bind fun rs u ⟨same, left₁⟩ => ?_
    subst same
    refine (updateState_calm calm id none .able).bind fun _ v left₂ => .pure ?_
    rw [left_.tables, left_.quartz] at left₁
    rw [left₁.tables, left₁.quartz] at left₂
    exact (left_.trans left₁).trans left₂

theorem disableJobExecutionPlan_calm (jep : PlanEntity) :
    Returns (JobPlanManager.disableJobExecutionPlan env jep) s fun _ =>
      s.Leaves (s.tables.updateState jep.id (some jep.clusterID) .disable) (s.quartz.erase jep.qJobName) := by
  refine (onJob_calm calm (fun key jobs => jobs.erase key) jep).bind fun rs t ⟨same, left_⟩ => ?_
  subst same
  refine (updateState_calm calm jep.id (some jep.clusterID) .disable).conseq fun _ u left' => left_.trans ?_
  rw [left_.tables, left_.quartz] at left'
  exact left'

theorem disableJobExecutionPlans_calm (id : Nat) :
    Returns (JobPlanManager.disableJobExecutionPlans env id) s fun _ =>
      match s.tables.byID? id with
      | none => s.Leaves s.tables s.quartz
      | some jep =>
        s.Leaves (s.tables.updateState jep.id (some jep.clusterID) .disable) (s.quartz.erase jep.qJobName) := by
  refine (queryJobPlanByID_calm calm id).bind fun found t ⟨same, left_⟩ => ?_
  subst same
  cases s.tables.byID? id with
  | none => exact .pure left_
  | some jep =>
    refine (disableJobExecutionPlan_calm calm jep).bind fun _ u left' => .pure (left_.trans ?_)
    rw [left_.tables, left_.quartz] at left'
    exact left'

theorem deleteRows_calm (rows : List PlanEntity) :
    Returns (JobPlanManager.deleteRows env rows) s fun answer t =>
      answer = true ∧ s.Leaves (rows.foldl (fun t row => t.deletePlan row.id) s.tables) s.quartz t := by
  induction rows generalizing s with
  | nil => exact .pure ⟨rfl, rfl, rfl, rfl⟩
  | cons row rows ih =>
    refine .bind (Returns.catching (Q := fun deleted t =>
      deleted = true ∧ s.Leaves (s.tables.deletePlan row.id) s.quartz t)
      ((deleteJobPlan_calm calm row.id).bind fun _ t left_ => .pure ⟨rfl, left_⟩)) fun deleted t ⟨same, left_⟩ => ?_
    subst same
    refine ih.bind fun answer u ⟨same, left'⟩ => .pure ⟨by rw [same]; rfl, left_.trans ?_⟩
    rw [left_.tables, left_.quartz] at left'
    exact left'

theorem deleteJobExecutionPlan_calm (clusterID jepID : String) :
    Returns (JobPlanManager.deleteJobExecutionPlan env clusterID jepID) s fun _ =>
      let rows := s.tables.selectJobExecutionPlan 0 (some clusterID) (some jepID) none
      s.Leaves (rows.foldl (fun t row => t.deletePlan row.id) s.tables)
        (rows.foldl (fun jobs row => jobs.erase row.qJobName) s.quartz) := by
  refine .bind (Returns.catching (queryJobPlan_calm calm clusterID jepID none)) fun list t ⟨same, left_⟩ => ?_
  subst same
  dsimp only
  split
  next none_ =>
    rw [List.isEmpty_iff.mp none_]
    exact .pure left_
  next some_ =>
    -- the jobs go first, and the rows only if they all went
    have removed : Returns (JobPlanBuilder.deleteJobPlan env
        (s.tables.selectJobExecutionPlan 0 (some clusterID) (some jepID) none)) t fun rs u => rs = true ∧
        t.Leaves t.tables ((s.tables.selectJobExecutionPlan 0 (some clusterID) (some jepID) none).foldl
          (fun jobs row => jobs.erase row.qJobName) t.quartz) u := by
      unfold JobPlanBuilder.deleteJobPlan JobPlanBuilder.onJobs
      rw [if_neg some_]
      exact onEach_calm calm _ _
    refine removed.bind fun rs u ⟨same, left₁⟩ => ?_
    subst same
    refine (deleteRows_calm calm _).conseq fun _ v ⟨_, left₂⟩ => ?_
    rw [left_.tables, left_.quartz] at left₁
    rw [left₁.tables, left₁.quartz] at left₂
    exact (left_.trans left₁).trans left₂

theorem deleteJobExecutionPlanByID_calm (id : Nat) :
    Returns (JobPlanManager.deleteJobExecutionPlanByID env id) s fun _ =>
      match s.tables.byID? id with
      | none => s.Leaves s.tables s.quartz
      | some jep => s.Leaves (s.tables.deletePlan jep.id) (s.quartz.erase jep.qJobName) := by
  refine (queryJobPlanByID_calm calm id).bind fun found t ⟨same, left_⟩ => ?_
  subst same
  cases s.tables.byID? id with
  | none => exact .pure left_
  | some jep =>
    refine (onJob_calm calm (fun key jobs => jobs.erase key) jep).bind fun rs u ⟨same, left₁⟩ => ?_
    subst same
    refine (deleteRows_calm calm [jep]).conseq fun _ v ⟨_, left₂⟩ => ?_
    rw [left_.tables, left_.quartz] at left₁
    rw [left₁.tables, left₁.quartz] at left₂
    exact (left_.trans left₁).trans left₂

end Operations

end Hella

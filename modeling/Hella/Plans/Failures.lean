import Hella.Plans.Requests

/-!
# Submissions whose DAO calls may fail

A call that fails changes nothing, so that what a submission leaves is what the calls
before it have done. A submission that is answered with true has met no failure.
-/
namespace Hella

open Exec Text

variable {env : PlanEnv} {s t : PlanSystem} {context : JobExecutionPlanSubmissionContext}
  {clusterID clusterId jepID : String} {id : Nat} {jep : PlanEntity}

/-! ### Single calls -/

theorem daoCall_succeeds (succeeds : env.daoSucceeds s.tick = true) :
    PlanSystem.daoCall env s = .ok () { s with tick := s.tick + 1 } := by
  change (if env.daoSucceeds s.tick then pure () else throw .daoException : PlanM Unit) _ = _
  rw [succeeds]
  rfl

theorem daoCall_error (fails : env.daoSucceeds s.tick = false) :
    PlanSystem.daoCall env s = .error .daoException { s with tick := s.tick + 1 } := by
  change (if env.daoSucceeds s.tick then pure () else throw .daoException : PlanM Unit) _ = _
  rw [fails]
  rfl

theorem update_ok (statement : PlanTables → PlanTables) (succeeds : env.daoSucceeds s.tick = true) :
    PlanSystem.update env statement s = .ok () { s with tick := s.tick + 1, tables := statement s.tables } :=
  bind_ok (daoCall_succeeds succeeds)

theorem update_error (statement : PlanTables → PlanTables) (fails : env.daoSucceeds s.tick = false) :
    PlanSystem.update env statement s = .error .daoException { s with tick := s.tick + 1 } :=
  bind_error (daoCall_error fails)

/-- A statement is carried out or not. -/
theorem update_triple {P : PlanTables → Prop} {Q : PlanTables → Prop} (statement : PlanTables → PlanTables)
    (holds : ∀ tables, P tables → Q (statement tables)) :
    Triple (fun s => P s.tables) (PlanSystem.update env statement) (fun _ s => Q s.tables) fun _ s => P s.tables := by
  intro s before
  cases succeeds : env.daoSucceeds s.tick with
  | true =>
    rw [update_ok statement succeeds]
    exact holds s.tables before
  | false =>
    rw [update_error statement succeeds]
    exact before

theorem keeps_update {I : PlanTables → Prop} (statement : PlanTables → PlanTables)
    (holds : ∀ tables, I tables → I (statement tables)) :
    Keeps (fun s => I s.tables) (PlanSystem.update env statement) := update_triple statement holds

/-! ### A submission that is answered with true -/

/-- The same world with a database that always answers. -/
def PlanEnv.answering (env : PlanEnv) : PlanEnv := { env with daoSucceeds := fun _ => true }

theorem PlanEnv.calm_answering (quartz : ∀ n, env.quartzSucceeds n = true) : env.answering.Calm :=
  ⟨fun _ => rfl, quartz⟩

theorem daoCall_imitated : Imitated (PlanSystem.daoCall env) (PlanSystem.daoCall env.answering) := by
  intro s a t returned
  cases succeeds : env.daoSucceeds s.tick with
  | true =>
    rw [daoCall_succeeds succeeds] at returned
    cases returned
    exact daoCall_succeeds rfl
  | false =>
    rw [daoCall_error succeeds] at returned
    cases returned

theorem update_imitated (statement : PlanTables → PlanTables) :
    Imitated (PlanSystem.update env statement) (PlanSystem.update env.answering statement) :=
  daoCall_imitated.bind fun _ => .refl _

theorem deleteJobPlan_imitated (id : Nat) :
    Imitated (JobPlanManager.deleteJobPlan env id) (JobPlanManager.deleteJobPlan env.answering id) :=
  (update_imitated _).bind fun _ => (update_imitated _).bind fun _ => update_imitated _

theorem clearJobPlan_imitated (clusterId jepID : String) :
    Imitated (JobPlanManager.clearJobPlan env clusterId jepID)
      (JobPlanManager.clearJobPlan env.answering clusterId jepID) := by
  apply (daoCall_imitated.bind fun _ => .refl _).bind
  intro list
  cases list.head? with
  | none => exact .refl _
  | some old => exact deleteJobPlan_imitated old.id

theorem saveNode_imitated (id : Nat) (node : JobPlanNode) :
    Imitated (JobPlanManager.saveNode env id node) (JobPlanManager.saveNode env.answering id node) := by
  refine .bind (.bind (.refl _) fun _ => (update_imitated _).bind fun _ => .refl _) fun saved => ?_
  cases saved.xjobMeta with
  | none => exact .refl _
  | some xjobMeta => exact update_imitated _

theorem saveJobExecutionPlan_imitated (jep : PlanEntity) :
    Imitated (JobPlanManager.saveJobExecutionPlan env jep) (JobPlanManager.saveJobExecutionPlan env.answering jep) :=
  .bind (.bind (.refl _) fun _ => (update_imitated _).bind fun _ => .refl _) fun saved =>
    .bind (.forM (saveNode_imitated saved.id) _) fun _ => .refl _

theorem saveJobPlans_imitated (clusterId : String) (jeps : List PlanEntity) :
    Imitated (JobPlanManager.saveJobPlans env clusterId jeps)
      (JobPlanManager.saveJobPlans env.answering clusterId jeps) := by
  induction jeps with
  | nil => exact .refl _
  | cons jep jeps ih =>
    have replaced : Imitated (JobPlanManager.replaceJobPlan env clusterId jep)
        (JobPlanManager.replaceJobPlan env.answering clusterId jep) :=
      (clearJobPlan_imitated clusterId jep.jepID).bind fun _ => saveJobExecutionPlan_imitated jep
    exact replaced.bind fun _ => ih.bind fun _ => .refl _

theorem onEach_answering (change : String → JMap QuartzJob → JMap QuartzJob) (jps : List PlanEntity) :
    JobPlanBuilder.onEach env.answering change jps = JobPlanBuilder.onEach env change jps := by
  induction jps with
  | nil => rfl
  | cons jp jps ih =>
    unfold JobPlanBuilder.onEach
    rw [ih]
    rfl

/-- The builds make no DAO calls. -/
theorem buildJobPlan_answering (jps : List PlanEntity) :
    JobPlanManager.buildJobPlan env.answering jps = JobPlanManager.buildJobPlan env jps := by
  induction jps with
  | nil => rfl
  | cons jp jps ih =>
    unfold JobPlanManager.buildJobPlan JobPlanBuilder.deleteJobPlan JobPlanBuilder.onJobs
    rw [ih, onEach_answering]
    rfl

theorem saveJobPlan_imitated (context : JobExecutionPlanSubmissionContext) :
    Imitated (JobPlanManager.saveJobPlan env context) (JobPlanManager.saveJobPlan env.answering context) := by
  unfold JobPlanManager.saveJobPlan
  split
  · exact .refl _
  · exact (saveJobPlans_imitated _ _).bind fun _ => .refl _

/-- The handler answers with false, and it is entered after a failure only. -/
theorem register_true (returned : JobPlanManager.registerJobExecutionPlanSubmissionContext env context s = .ok true t) :
    JobPlanManager.registerJobExecutionPlanSubmissionContext env.answering context s = .ok true t := by
  unfold JobPlanManager.registerJobExecutionPlanSubmissionContext at returned ⊢
  split at returned
  · cases returned
  next named =>
    rw [if_neg named]
    apply catching_ok
    rcases catching_returns returned with ended | ⟨e, u, thrown, inside, handled⟩
    · refine (saveJobPlan_imitated context).bind ?_ _ _ _ ended
      intro list
      cases list with
      | none => exact .throw _
      | some jps =>
        dsimp only
        rw [buildJobPlan_answering]
        exact .refl _
    · cases handled

/-! ### What a submission keeps, also when it fails -/

theorem keeps_request {J : PlanSystem → Prop} (counts : ∀ s, J s → J { s with tick := s.tick + 1 }) :
    Keeps J PlanSystem.request := fun s holds => counts s holds

theorem keeps_onEach {J : PlanSystem → Prop} (change : String → JMap QuartzJob → JMap QuartzJob)
    (counts : ∀ s, J s → J { s with tick := s.tick + 1 })
    (changes : ∀ s key, J s → J { s with quartz := change key s.quartz })
    (jps : List PlanEntity) : Keeps J (JobPlanBuilder.onEach env change jps) := by
  induction jps with
  | nil => exact .pure _
  | cons jp jps ih =>
    apply (keeps_request counts).bind
    intro n
    split
    · exact .bind (.modifying fun s holds => changes s _ holds) fun _ => ih
    · exact .pure _

theorem keeps_onJobs {J : PlanSystem → Prop} (change : String → JMap QuartzJob → JMap QuartzJob)
    (counts : ∀ s, J s → J { s with tick := s.tick + 1 })
    (changes : ∀ s key, J s → J { s with quartz := change key s.quartz })
    (jps : List PlanEntity) : Keeps J (JobPlanBuilder.onJobs env change jps) := by
  unfold JobPlanBuilder.onJobs
  split
  · exact .pure _
  · exact keeps_onEach change counts changes jps

theorem keeps_build {I : PlanTables → Prop} (jp : PlanEntity) :
    Keeps (fun s => I s.tables) (JobPlanBuilder.buildJobPlan env jp) := by
  unfold JobPlanBuilder.buildJobPlan
  split
  · exact .pure _
  · exact .pure _
  · split
    · apply (keeps_request fun _ holds => holds).bind
      intro n
      split
      · apply Keeps.getting.bind
        intro s
        split
        · exact .pure _
        · exact .bind (.modifying fun _ holds => holds) fun _ => .pure _
      · exact .pure _
    · exact .pure _

/-- Quartz is apart from the tables. -/
theorem keeps_buildJobPlan {I : PlanTables → Prop} (jps : List PlanEntity) :
    Keeps (fun s => I s.tables) (JobPlanManager.buildJobPlan env jps) := by
  induction jps with
  | nil => exact .pure _
  | cons jp jps ih =>
    have erases : Keeps (fun s => I s.tables) (JobPlanBuilder.deleteJobPlan env [jp]) :=
      keeps_onEach _ (fun _ holds => holds) (fun _ _ holds => holds) [jp]
    exact erases.bind fun _ => (keeps_build jp).bind fun _ => ih

/-- The nodes of a plan are stored under its ID, which has been generated. -/
theorem keeps_saveNode {I : PlanTables → Prop} (node : JobPlanNode)
    (node_ : ∀ t, I t → id ≤ t.lastJobExecutionPlanID → I (t.insertJobPlanNode { node with jobExecutionPlanID := id }))
    (meta_ : ∀ t nodeID xjobMeta, I t → id ≤ t.lastJobExecutionPlanID → I (t.insertXjobMeta id nodeID xjobMeta)) :
    Keeps (fun s => I s.tables ∧ id ≤ s.tables.lastJobExecutionPlanID) (JobPlanManager.saveNode env id node) := by
  have stores : Keeps (fun s => I s.tables ∧ id ≤ s.tables.lastJobExecutionPlanID)
      (PlanSystem.update env (·.insertJobPlanNode { node with jobExecutionPlanID := id })) :=
    keeps_update (I := fun t => I t ∧ id ≤ t.lastJobExecutionPlanID) _ fun t holds => ⟨node_ t holds.1 holds.2, holds.2⟩
  refine .bind (.bind .getting fun _ => stores.bind fun _ => .pure _) fun saved => ?_
  split
  · exact .pure _
  · exact keeps_update (I := fun t => I t ∧ id ≤ t.lastJobExecutionPlanID) _ fun t holds =>
      ⟨meta_ t _ _ holds.1 holds.2, holds.2⟩

/-- What an insertion establishes, the nodes keep. -/
theorem saveJobExecutionPlan_triple {P I E : PlanTables → Prop} (stores : ∀ t, P t → I (t.insertJobExecutionPlan jep))
    (fails : ∀ t, P t → E t) (weaker : ∀ t, I t → E t)
    (node_ : ∀ t id (node : JobPlanNode), I t → id ≤ t.lastJobExecutionPlanID →
      I (t.insertJobPlanNode { node with jobExecutionPlanID := id }))
    (meta_ : ∀ t id nodeID xjobMeta, I t → id ≤ t.lastJobExecutionPlanID → I (t.insertXjobMeta id nodeID xjobMeta)) :
    Triple (fun s => P s.tables) (JobPlanManager.saveJobExecutionPlan env jep) (fun _ s => I s.tables)
      fun _ s => E s.tables := by
  have saves : Triple (fun s => P s.tables) (JobExecutionPlanDao.save env jep)
      (fun saved s => I s.tables ∧ saved.id ≤ s.tables.lastJobExecutionPlanID) fun _ s => E s.tables := by
    intro s before
    -- the key of the new row is known before the call
    have written : JobExecutionPlanDao.save env jep s = (do
        PlanSystem.update env (·.insertJobExecutionPlan jep)
        return { jep with id := s.tables.lastJobExecutionPlanID + 1 }) s := rfl
    rw [written]
    cases succeeds : env.daoSucceeds s.tick with
    | true =>
      rw [bind_ok (update_ok _ succeeds)]
      exact ⟨stores s.tables before, Nat.le_refl _⟩
    | false =>
      rw [bind_error (update_error _ succeeds)]
      exact fails s.tables before
  -- the nodes follow; where they end the row of the plan is there in any case
  refine saves.bind fun saved => ?_
  apply (Keeps.bind (Keeps.forM fun node _ => keeps_saveNode node (fun t => node_ t _ node) fun t => meta_ t _)
    fun _ => .pure saved).conseq
  · exact fun _ holds => holds
  · exact fun _ _ holds => holds.1
  · exact fun _ _ holds => weaker _ holds.1

theorem saveJobExecutionPlan_keyed :
    Triple (fun s => s.tables.Keyed ∧ s.tables.Free jep.key) (JobPlanManager.saveJobExecutionPlan env jep)
      (fun _ s => s.tables.Keyed) fun _ s => s.tables.Keyed :=
  saveJobExecutionPlan_triple (P := fun t => t.Keyed ∧ t.Free jep.key) (I := PlanTables.Keyed) (E := PlanTables.Keyed)
    (fun _ before => before.1.insertJobExecutionPlan before.2) (fun _ before => before.1) (fun _ keyed => keyed)
    (fun _ _ node keyed bound => ⟨keyed.toNumbered.insertJobPlanNode bound node, keyed.keys⟩)
    fun _ _ _ _ keyed bound => ⟨keyed.toNumbered.insertXjobMeta bound _ _, keyed.keys⟩

/-- What the deletion of the plan row establishes, the other two deletions keep. -/
theorem deleteJobPlan_triple {P Q E : PlanTables → Prop} (plan_ : ∀ t, P t → Q (t.deleteJobExecutionPlan id))
    (node_ : ∀ t, Q t → Q (t.deleteJobPlanNode id)) (meta_ : ∀ t, Q t → Q (t.deleteXjobMeta id))
    (before : ∀ t, P t → E t) (between : ∀ t, Q t → E t) :
    Triple (fun s => P s.tables) (JobPlanManager.deleteJobPlan env id) (fun _ s => Q s.tables)
      fun _ s => E s.tables := by
  refine .bind (Q := fun _ s => Q s.tables) ?_ fun _ => .bind (Q := fun _ s => Q s.tables) ?_ fun _ => ?_
  · exact (update_triple (P := P) (Q := Q) _ plan_).conseq (fun _ holds => holds) (fun _ _ holds => holds)
      fun _ _ holds => before _ holds
  · exact (keeps_update (I := Q) _ node_).conseq (fun _ holds => holds) (fun _ _ holds => holds)
      fun _ _ holds => between _ holds
  · exact (keeps_update (I := Q) _ meta_).conseq (fun _ holds => holds) (fun _ _ holds => holds)
      fun _ _ holds => between _ holds

theorem clearJobPlan_keyed (named : isBlank (some clusterId) = false) (named' : isBlank (some jepID) = false) :
    Triple (fun s => s.tables.Keyed) (JobPlanManager.clearJobPlan env clusterId jepID)
      (fun _ s => s.tables.Keyed ∧ s.tables.Free (clusterId, jepID)) fun _ s => s.tables.Keyed := by
  have queries : Triple (fun s => s.tables.Keyed) (JobExecutionPlanDao.queryJobPlan env clusterId jepID none)
      (fun list s => s.tables.Keyed ∧ list.head? = s.tables.stored? clusterId jepID) fun _ s => s.tables.Keyed := by
    intro s keyed
    cases succeeds : env.daoSucceeds s.tick with
    | true =>
      have found := bind_ok (f := fun _ => do
        return (← get).tables.selectJobExecutionPlan 0 (some clusterId) (some jepID) none) (daoCall_succeeds succeeds)
      unfold JobExecutionPlanDao.queryJobPlan
      rw [found]
      exact ⟨keyed, rfl⟩
    | false =>
      unfold JobExecutionPlanDao.queryJobPlan
      rw [bind_error (daoCall_error succeeds)]
      exact keyed
  refine queries.bind fun list => ?_
  -- without an old row the key is free already
  cases found : list.head? with
  | none =>
    exact .pure fun s ⟨keyed, absent⟩ => ⟨keyed, PlanTables.free_of_stored?_none named named' absent.symm⟩
  | some old =>
    have deletes : Triple (fun s => s.tables.Keyed ∧ s.tables.stored? clusterId jepID = some old)
        (JobPlanManager.deleteJobPlan env old.id) (fun _ s => s.tables.Keyed ∧ s.tables.Free (clusterId, jepID))
        fun _ s => s.tables.Keyed := by
      apply deleteJobPlan_triple (P := fun t => t.Keyed ∧ t.stored? clusterId jepID = some old)
        (Q := fun t => t.Keyed ∧ t.Free (clusterId, jepID)) (E := PlanTables.Keyed)
      -- the row goes with the first deletion, so the key is free even if the other two fail
      · exact fun t ⟨keyed, stored⟩ =>
          ⟨keyed.fewer (PlanTables.fewer_deleteJobExecutionPlan _ _), keyed.free_deleted named named' stored⟩
      · exact fun t ⟨keyed, free⟩ => ⟨keyed.fewer (PlanTables.fewer_deleteJobPlanNode _ _), free⟩
      · exact fun t ⟨keyed, free⟩ => ⟨keyed.fewer (PlanTables.fewer_deleteXjobMeta _ _), free⟩
      · exact fun _ holds => holds.1
      · exact fun _ holds => holds.1
    exact deletes.conseq (fun s ⟨keyed, stored⟩ => ⟨keyed, stored.symm⟩) (fun _ _ holds => holds)
      fun _ _ holds => holds

theorem keeps_saveJobPlans (jeps : List PlanEntity) (named : isBlank (some clusterId) = false)
    (own : ∀ jep ∈ jeps, jep.clusterID = clusterId) (named' : ∀ jep ∈ jeps, isBlank (some jep.jepID) = false) :
    Keeps (fun s => s.tables.Keyed) (JobPlanManager.saveJobPlans env clusterId jeps) := by
  induction jeps with
  | nil => exact .pure _
  | cons jep jeps ih =>
    have replaced : Keeps (fun s => s.tables.Keyed) (JobPlanManager.replaceJobPlan env clusterId jep) := by
      apply Triple.bind (clearJobPlan_keyed named (named' jep (by simp)))
      intro _
      rw [← own jep (by simp)]
      exact saveJobExecutionPlan_keyed
    refine replaced.bind fun saved => .bind ?_ fun rest => .pure _
    exact ih (fun other member => own other (by simp [member])) fun other member => named' other (by simp [member])

/-- The rollback of a submission that fails does nothing. -/
theorem keeps_register_of {I : PlanTables → Prop} (saves : isBlank (some context.clusterId) = false →
      Keeps (fun s => I s.tables) (JobPlanManager.saveJobPlans env context.clusterId context.jobExecutionPlans)) :
    Keeps (fun s => I s.tables) (JobPlanManager.registerJobExecutionPlanSubmissionContext env context) := by
  unfold JobPlanManager.registerJobExecutionPlanSubmissionContext
  split
  · exact .pure _
  next named =>
    apply Keeps.catching
    · apply Keeps.bind (x := JobPlanManager.saveJobPlan env context)
      · unfold JobPlanManager.saveJobPlan
        split
        · exact .pure _
        · exact (saves (by simpa using named)).bind fun _ => .pure _
      · intro list
        cases list with
        | none => exact .throw _
        | some jps => exact (keeps_buildJobPlan jps).bind fun _ => .pure _
    · exact fun _ _ => .pure _

/-- The keys of the plans are distinct however a submission ends. -/
theorem keeps_register (wellFormed : context.WellFormed) :
    Keeps (fun s => s.tables.Keyed) (JobPlanManager.registerJobExecutionPlanSubmissionContext env context) :=
  keeps_register_of fun named => keeps_saveJobPlans _ named wellFormed.clusterIDs wellFormed.jepIDs

/-! ### What other requests keep -/

theorem keeps_daoCall {J : PlanSystem → Prop} (counts : ∀ s, J s → J { s with tick := s.tick + 1 }) :
    Keeps J (PlanSystem.daoCall env) := by
  apply (keeps_request counts).bind
  intro n
  split
  · exact .pure _
  · exact .throw _

theorem keeps_queryJobPlan {I : PlanTables → Prop} (clusterID jepID : String) (state : Option PlanState) :
    Keeps (fun s => I s.tables) (JobExecutionPlanDao.queryJobPlan env clusterID jepID state) :=
  (keeps_daoCall fun _ holds => holds).bind fun _ => Keeps.getting.bind fun _ => .pure _

namespace PlanSystem

/-- Kept by all that the manager does but storing, scheduling and deleting plans. -/
structure Enduring (J : PlanSystem → Prop) : Prop where
  counts : ∀ s, J s → J { s with tick := s.tick + 1 }
  started : ∀ s ids, J s → J { s with started := ids }
  erase : ∀ s key, J s → J { s with quartz := s.quartz.erase key }
  setPaused : ∀ s paused key, J s → J { s with quartz := Hella.setPaused paused key s.quartz }
  updateState : ∀ s id clusterID state, J s → J { s with tables := s.tables.updateState id clusterID state }

/-- Kept by deletions as well. -/
structure Receding (J : PlanSystem → Prop) : Prop extends Enduring J where
  fewer : ∀ s u, J s → s.tables.Fewer u → J { s with tables := u }

/-- What is said of the tables only. -/
theorem Enduring.ofTables {I : PlanTables → Prop}
    (states : ∀ t id clusterID state, I t → I (t.updateState id clusterID state)) : Enduring fun s => I s.tables :=
  ⟨fun _ holds => holds, fun _ _ holds => holds, fun _ _ holds => holds, fun _ _ _ holds => holds,
    fun s id clusterID state holds => states s.tables id clusterID state holds⟩

theorem Receding.ofTables {I : PlanTables → Prop}
    (states : ∀ t id clusterID state, I t → I (t.updateState id clusterID state))
    (fewer : ∀ t u, I t → PlanTables.Fewer t u → I u) : Receding fun s => I s.tables :=
  ⟨.ofTables states, fun s u holds => fewer s.tables u holds⟩

variable {J : PlanSystem → Prop}

namespace Enduring

variable (enduring : Enduring J)

include enduring

theorem update (statement : PlanTables → PlanTables) (holds : ∀ s, J s → J { s with tables := statement s.tables }) :
    Keeps J (PlanSystem.update env statement) :=
  (keeps_daoCall enduring.counts).bind fun _ => .modifying holds

theorem queryJobPlan (clusterID jepID : String) (state : Option PlanState) :
    Keeps J (JobExecutionPlanDao.queryJobPlan env clusterID jepID state) :=
  (keeps_daoCall enduring.counts).bind fun _ => Keeps.getting.bind fun _ => .pure _

theorem queryJobPlanByID (id : Nat) : Keeps J (JobExecutionPlanDao.queryJobPlanByID env id) := by
  unfold JobExecutionPlanDao.queryJobPlanByID
  split
  · exact .pure _
  · exact (keeps_daoCall enduring.counts).bind fun _ => Keeps.getting.bind fun _ => .pure _

theorem updateJobPlanState (id : Nat) (clusterID : Option String) (state : PlanState) :
    Keeps J (JobExecutionPlanDao.updateJobPlanState env id clusterID state) :=
  enduring.update _ fun s holds => enduring.updateState s id clusterID state holds

theorem deleteJobs (jps : List PlanEntity) : Keeps J (JobPlanBuilder.deleteJobPlan env jps) :=
  keeps_onJobs _ enduring.counts enduring.erase jps

theorem pauseJobExecutionPlan (jep : PlanEntity) : Keeps J (JobPlanManager.pauseJobExecutionPlan env jep) := by
  apply Keeps.catching
  · apply (keeps_onJobs _ enduring.counts (fun s => enduring.setPaused s true) _).bind
    intro rs
    split
    · exact (enduring.updateJobPlanState _ _ _).bind fun _ => .pure _
    · exact .pure _
  · exact fun _ _ => .pure _

/-- Pausing one plan of several may fail, and the ones before it stay paused. -/
theorem pauseJobExecutionPlans (clusterID jepID : String) :
    Keeps J (JobPlanManager.pauseJobExecutionPlans env clusterID jepID) := by
  apply (Keeps.catching (enduring.queryJobPlan _ _ _) fun _ _ => .pure _).bind
  exact fun list => (Keeps.forM fun jep _ => (enduring.pauseJobExecutionPlan jep).bind fun _ => .pure _).bind
    fun _ => .pure _

theorem resumeJobExecutionPlan (id : Nat) : Keeps J (JobPlanManager.resumeJobExecutionPlan env id) := by
  apply Keeps.catching
  · apply (enduring.queryJobPlanByID id).bind
    intro found
    split
    · exact .pure _
    · apply (keeps_onJobs _ enduring.counts (fun s => enduring.setPaused s false) _).bind
      intro rs
      split
      · exact (enduring.updateJobPlanState _ _ _).bind fun _ => .pure _
      · exact .pure _
  · exact fun _ _ => .pure _

theorem resumeJobExecutionPlans (clusterID jepID : String) :
    Keeps J (JobPlanManager.resumeJobExecutionPlans env clusterID jepID) := by
  apply (Keeps.catching (enduring.queryJobPlan _ _ _) fun _ _ => .pure _).bind
  intro list
  split
  · exact .pure _
  · exact enduring.resumeJobExecutionPlan _

theorem disableJobExecutionPlan (jep : PlanEntity) : Keeps J (JobPlanManager.disableJobExecutionPlan env jep) := by
  apply (enduring.deleteJobs _).bind
  intro rs
  split
  · exact enduring.updateJobPlanState _ _ _
  · exact .pure _

theorem disableJobExecutionPlans (id : Nat) : Keeps J (JobPlanManager.disableJobExecutionPlans env id) := by
  apply (enduring.queryJobPlanByID id).bind
  intro found
  cases found with
  | none => exact .pure _
  | some jep => exact (enduring.disableJobExecutionPlan jep).bind fun _ => .pure _

theorem disableJobExecutionPlansOf (clusterID jepID : String) :
    Keeps J (JobPlanManager.disableJobExecutionPlansOf env clusterID jepID) := by
  apply (enduring.queryJobPlan _ _ _).bind
  exact fun list => (Keeps.forM fun jep _ => enduring.disableJobExecutionPlan jep).bind fun _ => .pure _

theorem publishEvent (id : Nat) : Keeps J (JobPlanManager.publishEvent env id) := by
  have starts : Keeps J (JobPlanManager.startJobPlan id) := .modifying fun s holds => enduring.started s _ holds
  apply (enduring.queryJobPlanByID id).bind
  intro found
  split
  · exact starts
  · split
    · exact (enduring.disableJobExecutionPlans _).bind fun _ => .pure _
    · exact starts

end Enduring

namespace Receding

variable (receding : Receding J)

include receding

theorem deleteJobPlan (id : Nat) : Keeps J (JobPlanManager.deleteJobPlan env id) :=
  (receding.update _ fun s holds => receding.fewer s _ holds (PlanTables.fewer_deleteJobExecutionPlan s.tables id)).bind
    fun _ =>
      (receding.update _ fun s holds => receding.fewer s _ holds (PlanTables.fewer_deleteJobPlanNode s.tables id)).bind
    fun _ => receding.update _ fun s holds => receding.fewer s _ holds (PlanTables.fewer_deleteXjobMeta s.tables id)

theorem clearJobPlan (clusterId jepID : String) : Keeps J (JobPlanManager.clearJobPlan env clusterId jepID) := by
  apply (receding.queryJobPlan clusterId jepID none).bind
  intro list
  split
  · exact .pure _
  · exact receding.deleteJobPlan _

theorem deleteRows (rows : List PlanEntity) : Keeps J (JobPlanManager.deleteRows env rows) := by
  induction rows with
  | nil => exact .pure _
  | cons row rows ih =>
    apply Keeps.bind
    · exact .catching ((receding.deleteJobPlan row.id).bind fun _ => .pure _) fun _ _ => .pure _
    · exact fun _ => ih.bind fun _ => .pure _

/-- The rows are deleted only if all the jobs were. -/
theorem deleteJobExecutionPlan (clusterID jepID : String) :
    Keeps J (JobPlanManager.deleteJobExecutionPlan env clusterID jepID) := by
  apply (Keeps.catching (receding.queryJobPlan _ _ _) fun _ _ => .pure _).bind
  intro list
  split
  · exact .pure _
  · apply (receding.deleteJobs _).bind
    intro rs
    split
    · exact receding.deleteRows _
    · exact .pure _

theorem deleteJobExecutionPlanByID (id : Nat) : Keeps J (JobPlanManager.deleteJobExecutionPlanByID env id) := by
  apply (receding.queryJobPlanByID id).bind
  intro found
  split
  · exact .pure _
  · apply (receding.deleteJobs _).bind
    intro rs
    split
    · exact receding.deleteRows _
    · exact .pure _

/-- What deletions and changes of state keep, all requests keep but submissions. -/
theorem run (request : PlanRequest) (registers : ∀ context, request = .register context →
      Keeps J (JobPlanManager.registerJobExecutionPlanSubmissionContext env context)) : Keeps J (request.run env) := by
  cases request with
  | register context => exact (registers context rfl).discard
  | pause jep => exact (receding.pauseJobExecutionPlan jep).discard
  | pauseOf clusterID jepID => exact (receding.pauseJobExecutionPlans clusterID jepID).discard
  | resume id => exact (receding.resumeJobExecutionPlan id).discard
  | resumeOf clusterID jepID => exact (receding.resumeJobExecutionPlans clusterID jepID).discard
  | disable id => exact (receding.disableJobExecutionPlans id).discard
  | disableOf clusterID jepID => exact (receding.disableJobExecutionPlansOf clusterID jepID).discard
  | delete clusterID jepID => exact (receding.deleteJobExecutionPlan clusterID jepID).discard
  | deleteByID id => exact (receding.deleteJobExecutionPlanByID id).discard
  | publishEvent id => exact receding.publishEvent id

end Receding

end PlanSystem

/-! ### Generated IDs -/

theorem PlanTables.Numbered.updateState {t : PlanTables} (numbered : t.Numbered) (id : Nat) (clusterID : Option String)
    (state : PlanState) : (t.updateState id clusterID state).Numbered := by
  have same : ∀ row : PlanEntity, (if (id = 0 ∨ row.id = id) ∧
    (isBlank clusterID = true ∨ some row.clusterID = clusterID)
      then { row with state := state } else row).id = row.id := by
    intro row
    split <;> rfl
  constructor
  · unfold PlanTables.updateState
    rw [List.map_map]
    apply (congrArg List.Nodup (List.map_congr_left fun row _ => same row)).mpr
    exact numbered.planIDs
  · intro row member
    obtain ⟨old, inside, rfl⟩ := List.mem_map.mp member
    rw [same]
    exact numbered.planBound old inside
  · exact numbered.nodeBound
  · exact numbered.metaBound

theorem PlanTables.Keyed.updateState {t : PlanTables} (keyed : t.Keyed) (id : Nat) (clusterID : Option String)
    (state : PlanState) : (t.updateState id clusterID state).Keyed := by
  refine ⟨keyed.toNumbered.updateState id clusterID state, ?_⟩
  unfold PlanTables.updateState
  rw [List.map_map]
  refine (congrArg List.Nodup (List.map_congr_left fun row _ => ?_)).mpr keyed.keys
  change PlanEntity.key (if _ then _ else _) = _
  split <;> rfl

theorem PlanSystem.receding_numbered : PlanSystem.Receding fun s => s.tables.Numbered :=
  .ofTables (fun _ _ _ _ numbered => numbered.updateState _ _ _) fun _ _ numbered => numbered.fewer

theorem keeps_replaceJobPlan (clusterId : String) (jep : PlanEntity) :
    Keeps (fun s => s.tables.Numbered) (JobPlanManager.replaceJobPlan env clusterId jep) := by
  apply (PlanSystem.receding_numbered.clearJobPlan _ _).bind
  intro _
  apply saveJobExecutionPlan_triple
  · exact fun t numbered => numbered.insertJobExecutionPlan jep
  · exact fun _ numbered => numbered
  · exact fun _ numbered => numbered
  · exact fun _ _ node numbered bound => numbered.insertJobPlanNode bound node
  · exact fun _ _ _ _ numbered bound => numbered.insertXjobMeta bound _ _

/-- However the calls end, generated IDs are used once. -/
theorem keeps_numbered (request : PlanRequest) : Keeps (fun s => s.tables.Numbered) (request.run env) := by
  apply PlanSystem.receding_numbered.run
  rintro context -
  apply keeps_register_of
  intro _
  induction context.jobExecutionPlans with
  | nil => exact .pure _
  | cons jep jeps ih => exact (keeps_replaceJobPlan _ jep).bind fun _ => ih.bind fun _ => .pure _

theorem numbered_of_reachable {guard : PlanSystem → PlanRequest → Prop}
    (reachable : Runs.Reachable (planSystem env (·.tables.Empty)) guard s) : s.tables.Numbered := by
  apply Runs.Reachable.invariant (I := fun s => s.tables.Numbered) _ _ reachable
  · exact fun s empty => empty.consistent.toNumbered
  · rintro s request _ numbered - rfl
    exact (keeps_numbered request).after numbered

end Hella

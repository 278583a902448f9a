import Hella.Plans.Firing
import Hella.Properties.Agreement
import Hella.Properties.Filed

/-!
# What a trigger starts

An ID is given to one plan, and the data of a job are not changed. So a trigger that fires, be it
that of a job which has been replaced since, starts the version of its plan that was submitted last or none.
-/
namespace Hella

open Exec Runs Text

variable {env : PlanEnv} {s t u : PlanSystem} {key : String × String} {id : Nat}
  {given more : List (Nat × String × String)}
  {jep : PlanEntity} {node : JobPlanNode}

/-! ### IDs and keys -/

/-- The ID has been given out, and if a row has it, it is one of this key. -/
structure PlanTables.Owned (t : PlanTables) (id : Nat) (key : String × String) : Prop where
  given : id ≤ t.lastJobExecutionPlanID
  own : ∀ row ∈ t.jobExecutionPlans, row.id = id → row.key = key

namespace PlanTables.Owned

variable {t u : PlanTables}

theorem fewer (owned : t.Owned id key) (fewer : t.Fewer u) : u.Owned id key where
  given := fewer.last ▸ owned.given
  own row member := owned.own row (fewer.plans.subset member)

theorem updateState (owned : t.Owned id key) (other : Nat) (clusterID : Option String) (state : PlanState) :
    (t.updateState other clusterID state).Owned id key where
  given := owned.given
  own row member := by
    obtain ⟨old, inside, rfl⟩ := List.mem_map.mp member
    have kept := owned.own old inside
    split
    · exact kept
    · exact kept

/-- A new row has a new ID. -/
theorem insertJobExecutionPlan (owned : t.Owned id key) (jep : PlanEntity) :
    (t.insertJobExecutionPlan jep).Owned id key where
  given := Nat.le_succ_of_le owned.given
  own row member same := by
    rcases List.mem_append.mp member with old | new
    · exact owned.own row old same
    · have bound := owned.given
      rw [← same, List.mem_singleton.mp new] at bound
      exact absurd bound (Nat.not_succ_le_self _)

theorem insertJobPlanNode (owned : t.Owned id key) (node : JobPlanNode) : (t.insertJobPlanNode node).Owned id key :=
  ⟨owned.given, owned.own⟩

theorem insertXjobMeta (owned : t.Owned id key) (plan node : Nat) (given : XjobMeta) :
    (t.insertXjobMeta plan node given).Owned id key := ⟨owned.given, owned.own⟩

end PlanTables.Owned

theorem PlanTables.Numbered.owned_new {t : PlanTables} (numbered : t.Numbered) (jep : PlanEntity) :
    (t.insertJobExecutionPlan jep).Owned (t.lastJobExecutionPlanID + 1) jep.key where
  given := Nat.le_refl _
  own row member same := by
    rcases List.mem_append.mp member with old | new
    · have bound := numbered.planBound row old
      omega
    · rw [List.mem_singleton.mp new]
      rfl

/-- The IDs given, and those in the data of jobs, belong to the keys they come with. -/
structure PlanSystem.Booked (given : List (Nat × String × String)) (s : PlanSystem) : Prop where
  numbered : s.tables.Numbered
  jobs : ∀ name job, s.quartz.lookup name = some job → s.tables.Owned job.jobExecutionPlanID (job.clusterID, job.jepID)
  owned : ∀ ticket ∈ given, s.tables.Owned ticket.1 ticket.2

namespace PlanSystem.Booked

theorem mono (booked : s.Booked given) (subset : more ⊆ given) : s.Booked more :=
  ⟨booked.numbered, booked.jobs, fun ticket member => booked.owned ticket (subset member)⟩

/-- The jobs are the same, and what is done to the tables keeps owners. -/
theorem tables (booked : s.Booked given) {u : PlanTables} (numbered : u.Numbered)
    (keeps : ∀ id key, s.tables.Owned id key → u.Owned id key) : Booked given { s with tables := u } :=
  ⟨numbered, fun name job found => keeps _ _ (booked.jobs name job found), fun ticket member =>
    keeps _ _ (booked.owned ticket member)⟩

theorem setPaused (booked : s.Booked given) (paused : Bool) (key : String) :
    Booked given { s with quartz := Hella.setPaused paused key s.quartz } := by
  refine ⟨booked.numbered, fun name job found => ?_, booked.owned⟩
  by_cases here : name = key
  · rw [here, lookup_setPaused_self] at found
    obtain ⟨old, stored, rfl⟩ := Option.map_eq_some_iff.mp found
    exact booked.jobs key old stored
  · rw [lookup_setPaused_ne paused here] at found
    exact booked.jobs name job found

theorem erase (booked : s.Booked given) (key : String) : Booked given { s with quartz := s.quartz.erase key } := by
  refine ⟨booked.numbered, fun name job found => ?_, booked.owned⟩
  by_cases here : name = key
  · rw [here, AList.lookup_erase] at found
    cases found
  · rw [AList.lookup_erase_ne here] at found
    exact booked.jobs name job found

/-- The job of a plan is booked as the plan is. -/
theorem insert (booked : s.Booked given) (known : (jep.id, jep.key) ∈ given) :
    Booked given { s with quartz := s.quartz.insert jep.qJobName jep.quartzJob } := by
  refine ⟨booked.numbered, fun name job found => ?_, booked.owned⟩
  by_cases here : name = jep.qJobName
  · rw [here, AList.lookup_insert] at found
    cases found
    exact booked.owned (jep.id, jep.key) known
  · rw [AList.lookup_insert_ne here] at found
    exact booked.jobs name job found

end PlanSystem.Booked

theorem receding_booked (given : List (Nat × String × String)) : PlanSystem.Receding (PlanSystem.Booked given) where
  counts _ booked := ⟨booked.numbered, booked.jobs, booked.owned⟩
  started _ _ booked := ⟨booked.numbered, booked.jobs, booked.owned⟩
  erase _ key booked := booked.erase key
  setPaused _ paused key booked := booked.setPaused paused key
  updateState _ _ _ _ booked := booked.tables (booked.numbered.updateState _ _ _) fun _ _ owned =>
    owned.updateState _ _ _
  fewer _ _ booked fewer := booked.tables (booked.numbered.fewer fewer) fun _ _ owned => owned.fewer fewer

/-! ### Submissions -/

theorem keeps_saveNode_booked (node : JobPlanNode)
    (bound : ∀ s, PlanSystem.Booked given s → id ≤ s.tables.lastJobExecutionPlanID) :
    Keeps (PlanSystem.Booked given) (JobPlanManager.saveNode env id node) := by
  have enduring := (receding_booked given).toEnduring
  have stores : Keeps (PlanSystem.Booked given)
      (JobExecutionPlanDao.saveJobPlanNode env { node with jobExecutionPlanID := id }) := by
    apply Keeps.getting.bind
    intro _
    apply (enduring.update _ fun s booked => booked.tables (booked.numbered.insertJobPlanNode (bound s booked) node)
      fun _ _ owned => owned.insertJobPlanNode _).bind
    exact fun _ => .pure _
  apply stores.bind
  intro saved
  split
  · exact .pure _
  · exact enduring.update _ fun s booked => booked.tables (booked.numbered.insertXjobMeta (bound s booked) _ _)
      fun _ _ owned => owned.insertXjobMeta _ _ _

/-- The ID of the new row is added to those given. -/
theorem saveJobExecutionPlan_booked (jep : PlanEntity) :
    Triple (PlanSystem.Booked given) (JobPlanManager.saveJobExecutionPlan env jep)
      (fun saved => PlanSystem.Booked ((saved.id, saved.key) :: given)) fun _ => PlanSystem.Booked given := by
  have saves : Triple (PlanSystem.Booked given) (JobExecutionPlanDao.save env jep)
      (fun saved => PlanSystem.Booked ((saved.id, saved.key) :: given)) fun _ => PlanSystem.Booked given := by
    intro s booked
    have written : JobExecutionPlanDao.save env jep s = (do
        PlanSystem.update env (·.insertJobExecutionPlan jep)
        return { jep with id := s.tables.lastJobExecutionPlanID + 1 }) s := rfl
    rw [written]
    cases succeeds : env.daoSucceeds s.tick with
    | true =>
      rw [bind_ok (update_ok _ succeeds)]
      have stored := booked.tables (booked.numbered.insertJobExecutionPlan jep) fun _ _ owned =>
        owned.insertJobExecutionPlan jep
      refine ⟨stored.numbered, stored.jobs, fun ticket member => ?_⟩
      rcases List.mem_cons.mp member with rfl | old
      · exact booked.numbered.owned_new jep
      · exact stored.owned ticket old
    | false =>
      rw [bind_error (update_error _ succeeds)]
      exact ⟨booked.numbered, booked.jobs, booked.owned⟩
  apply saves.bind
  intro saved
  have nodes : Keeps (PlanSystem.Booked ((saved.id, saved.key) :: given))
      (saved.jobPlanNodeList.forM (JobPlanManager.saveNode env saved.id)) :=
    .forM fun node _ => keeps_saveNode_booked node fun s booked => (booked.owned _ List.mem_cons_self).given
  apply (nodes.conseq (fun _ booked => booked) (fun _ _ booked => booked) fun _ _ booked =>
    booked.mono (List.subset_cons_self _ _)).bind
  exact fun _ => .pure fun _ booked => booked

theorem saveJobPlans_booked (clusterId : String) (jeps : List PlanEntity) :
    Triple (PlanSystem.Booked given) (JobPlanManager.saveJobPlans env clusterId jeps)
      (fun list => PlanSystem.Booked (list.map (fun jp => (jp.id, jp.key)) ++ given)) fun _ =>
        PlanSystem.Booked given := by
  induction jeps generalizing given with
  | nil => exact .pure fun _ booked => booked
  | cons jep jeps ih =>
    have replaces : Triple (PlanSystem.Booked given) (JobPlanManager.replaceJobPlan env clusterId jep)
        (fun saved => PlanSystem.Booked ((saved.id, saved.key) :: given)) fun _ => PlanSystem.Booked given :=
      Triple.bind ((receding_booked given).clearJobPlan _ _) fun _ => saveJobExecutionPlan_booked jep
    apply replaces.bind
    intro saved
    apply (ih.conseq (fun _ booked => booked) (fun _ _ booked => booked) fun _ _ booked =>
      booked.mono (List.subset_cons_self _ _)).bind
    intro rest
    apply Triple.pure
    intro s booked
    apply booked.mono
    intro ticket member
    -- whether the plan is scheduled here or not
    split at member
    · simp only [List.map_cons, List.cons_append, List.mem_cons, List.mem_append] at member ⊢
      tauto
    · simp only [List.mem_append, List.mem_cons] at member ⊢
      tauto

theorem keeps_build_booked (known : (jep.id, jep.key) ∈ given) :
    Keeps (PlanSystem.Booked given) (JobPlanBuilder.buildJobPlan env jep) := by
  unfold JobPlanBuilder.buildJobPlan
  split
  · exact .pure _
  · exact .pure _
  · split
    · apply (keeps_request (receding_booked given).counts).bind
      intro n
      split
      · apply Keeps.getting.bind
        intro s
        split
        · exact .pure _
        · exact .bind (.modifying fun _ booked => booked.insert known) fun _ => .pure _
      · exact .pure _
    · exact .pure _

theorem keeps_buildJobPlan_booked (jps : List PlanEntity) (known : ∀ jp ∈ jps, (jp.id, jp.key) ∈ given) :
    Keeps (PlanSystem.Booked given) (JobPlanManager.buildJobPlan env jps) := by
  induction jps with
  | nil => exact .pure _
  | cons jp jps ih =>
    apply ((receding_booked given).deleteJobs [jp]).bind
    intro _
    apply (keeps_build_booked (known jp List.mem_cons_self)).bind
    exact fun _ => ih fun other member => known other (List.mem_cons_of_mem _ member)

theorem keeps_register_booked (context : JobExecutionPlanSubmissionContext) :
    Keeps (PlanSystem.Booked given) (JobPlanManager.registerJobExecutionPlanSubmissionContext env context) := by
  unfold JobPlanManager.registerJobExecutionPlanSubmissionContext
  split
  · exact .pure _
  · apply Keeps.catching
    · have saves : Triple (PlanSystem.Booked given) (JobPlanManager.saveJobPlan env context)
          (fun list => PlanSystem.Booked ((list.getD []).map (fun jp => (jp.id, jp.key)) ++ given))
          fun _ => PlanSystem.Booked given := by
        unfold JobPlanManager.saveJobPlan
        split
        · exact .pure fun _ booked => booked
        · exact (saveJobPlans_booked _ _).bind fun _ => .pure fun _ booked => booked
      apply Triple.bind saves
      intro list
      cases list with
      | none => exact .throw fun _ booked => booked
      | some jps =>
        have builds := @keeps_buildJobPlan_booked env (jps.map (fun jp => (jp.id, jp.key)) ++ given) jps
          fun jp member =>
          List.mem_append_left _ (List.mem_map_of_mem member)
        have fewer (s : PlanSystem) (booked : s.Booked (jps.map (fun jp => (jp.id, jp.key)) ++ given)) :
          s.Booked given :=
          booked.mono (List.subset_append_right _ _)
        apply Triple.bind (builds.conseq (fun _ booked => booked) (fun _ => fewer) fun _ => fewer)
        exact fun _ => .pure fun _ booked => booked
    · exact fun _ _ => .pure _

theorem after_answer (request : PlanRequest) (s : PlanSystem) :
    after (request.answer env s) = after (request.run env s) := by
  cases request with
  | publishEvent id =>
    change after ((do JobPlanManager.publishEvent env id; return true) s) = after (JobPlanManager.publishEvent env id s)
    cases ended : JobPlanManager.publishEvent env id s with
    | ok _ t => rw [bind_ok ended]; rfl
    | error e t => rw [bind_error ended]; rfl
  | _ => exact (after_discard _ s).symm

theorem booked_step {label : PlanReply} (booked : s.Booked given) (serves : Serves env s label t) : t.Booked given := by
  have kept : (after (label.1.answer env s)).Booked given := by
    rw [after_answer]
    exact ((receding_booked given).run label.1 fun context _ => keeps_register_booked context).after booked
  cases serves with
  | answered returned =>
    rw [returned] at kept
    exact kept
  | exception thrown =>
    rw [thrown] at kept
    exact kept

theorem booked_path {labels : List PlanReply} (path : Path (Serves env) s labels t)
    (booked : s.Booked given) : t.Booked given :=
  path.invariant (fun _ _ _ _ booked serves => booked_step booked serves) booked

/-! ### The catalogue since a submission -/

def PlanRequest.Renews (key : String × String) : PlanRequest → Prop
  | .register context => ∃ jep ∈ context.jobExecutionPlans, jep.key = key
  | _ => False

namespace Catalogue

variable {cat cat' : Catalogue} {jeps before later : List PlanEntity} {answer : Bool} {label : PlanReply}

theorem Registers.other (registers : Registers jeps cat answer cat') (others : ∀ jep ∈ jeps, jep.key ≠ key) :
    cat' key = cat key := by
  induction registers with
  | done cat => rfl
  | replaced unused rest ih =>
    rw [ih fun jep member => others jep (List.mem_cons_of_mem _ member)]
    exact Function.update_of_ne (others _ List.mem_cons_self).symm _ _
  | broken same own => exact same key (others _ List.mem_cons_self).symm

/-- The last plan of a key in a submission stays. -/
theorem Registers.last (registers : Registers (before ++ jep :: later) cat true cat')
    (once : ∀ other ∈ later, other.key ≠ jep.key) : ∃ id, cat' jep.key = some { jep.entry with id := id } := by
  induction before generalizing cat with
  | nil =>
    cases registers with
    | replaced unused rest => exact ⟨_, (rest.other once).trans (Function.update_self _ _ _)⟩
  | cons first before ih =>
    cases registers with
    | replaced unused rest => exact ih rest

end Catalogue

/-- Only a submission enters a plan. -/
theorem CatalogueStep.other {cat cat' : Catalogue} {label : PlanReply} (step : CatalogueStep cat label cat')
    (renews : ¬ label.1.Renews key) : cat' key = cat key ∨ cat' key = none := by
  have others {context : JobExecutionPlanSubmissionContext} (renews : ¬ (PlanRequest.register context).Renews key) :
      ∀ jep ∈ context.jobExecutionPlans, jep.key ≠ key := fun jep member same => renews ⟨jep, member, same⟩
  have updated (cat : Catalogue) (other : String × String) :
      Function.update cat other none key = cat key ∨ Function.update cat other none key = none := by
    by_cases here : key = other
    · exact .inr (by rw [here, Function.update_self])
    · exact .inl (Function.update_of_ne here _ _)
  have filtered (cat : Catalogue) (id : Nat) : cat.without id key = cat key ∨ cat.without id key = none := by
    rw [Catalogue.without]
    cases found : cat key with
    | none => exact .inl rfl
    | some entry => by_cases same : entry.id = id <;> simp [same]
  cases step with
  | registered loop => exact .inl (loop.other (others renews))
  | notRegistered failed loop => exact .inl (loop.other (others renews))
  | deleted => exact updated cat _
  | notDeleted failed either =>
    rcases either with rfl | rfl
    · exact .inl rfl
    · exact updated cat _
  | deletedByID => exact filtered cat _
  | notDeletedByID failed either =>
    rcases either with rfl | rfl
    · exact .inl rfl
    · exact filtered cat _
  | others reads => exact .inl rfl

/-- Until the plan is submitted again, its entry is that of the submission or gone. -/
theorem entered_since {cat : Catalogue} {before after : List PlanReply} {context : JobExecutionPlanSubmissionContext}
    {plans later : List PlanEntity}
    (path : Path CatalogueStep (fun _ => none) (before ++ (.register context, some true) :: after) cat)
    (last : context.jobExecutionPlans = plans ++ jep :: later) (once : ∀ other ∈ later, other.key ≠ jep.key)
    (newest : ∀ label ∈ after, ¬ label.1.Renews jep.key) :
    (∃ id, cat jep.key = some { jep.entry with id := id }) ∨ cat jep.key = none := by
  obtain ⟨mid, -, rest⟩ := path.split
  cases rest with
  | cons made rest =>
    apply rest.invariant (I := fun cat => (∃ id, cat jep.key = some { jep.entry with id := id }) ∨ cat jep.key = none)
    · intro label member cat cat' before step
      rcases step.other (newest label member) with same | gone
      · rw [same]
        exact before
      · exact .inr gone
    · cases made with
      | registered loop =>
        rw [last] at loop
        exact .inl (loop.last once)
      | notRegistered failed loop => exact absurd rfl failed
      | others reads => exact absurd trivial reads

/-! ### A firing -/

/-- What an attempt leaves as it is. -/
structure PlanTables.AsFiled (cat : Catalogue) (id : Nat) (key : String × String) (t : PlanTables) : Prop where
  filed : t.Filed
  catalogue : t.catalogue = cat
  owned : t.Owned id key

/-- The manager has the plan of the entry, which has the ID. -/
def LiteWorkflowManager.Entered (manager : LiteWorkflowManager) (cat : Catalogue) (id : Nat)
    (key : String × String) : Prop :=
  ∃ jep : PlanEntity, manager.jobExecutionPlan = jep.toJobExecutionPlan ∧ jep.id = id ∧ cat key = some jep.entry

section Firing

open PlanTables

variable {cat : Catalogue} {job : QuartzJob}

theorem enduring_asFiled : PlanSystem.Enduring fun s => AsFiled cat id key s.tables :=
  .ofTables fun _ other clusterID state settled => ⟨settled.filed.updateState other clusterID state,
    (funext fun _ => catalogue_updateState clusterID state _).trans settled.catalogue,
    settled.owned.updateState other clusterID state⟩

theorem startJobPlan_rule :
    Triple (fun s => AsFiled cat id key s.tables) (SystemJob.startJobPlan env id)
      (fun started s => AsFiled cat id key s.tables ∧ ∀ manager, started = some manager → manager.Entered cat id key)
      fun _ s => AsFiled cat id key s.tables := by
  apply Triple.pointwise
  intro u settled
  have loads := @loadJobExecutionPlan_rule env u.tables settled.filed id
  have same {s : PlanSystem} (same : s.tables = u.tables) : AsFiled cat id key s.tables := same ▸ settled
  apply (loads.conseq (fun _ here => by rw [here]) (fun _ _ holds => holds) fun _ _ holds => same holds.1).bind
  intro found
  cases found with
  | none => exact .pure fun s holds => ⟨same holds.1, fun _ started => nomatch started⟩
  | some plan =>
    dsimp only
    split
    · exact .throw fun s holds => same holds.1
    · apply Triple.bind (Q := fun _ s => s.tables = u.tables ∧ some plan = (u.tables.byID? id).map u.tables.loaded)
      · exact .modifying fun _ holds => holds
      · intro _
        apply Triple.pure
        rintro s ⟨unchanged, loaded⟩
        refine ⟨same unchanged, fun manager started => ?_⟩
        cases started
        obtain ⟨row, stored, rfl⟩ := Option.map_eq_some_iff.mp loaded.symm
        obtain ⟨member, rfl⟩ := byID?_some stored
        refine ⟨u.tables.loaded row, rfl, rfl, ?_⟩
        rw [← settled.catalogue, ← settled.owned.own row member rfl]
        exact settled.filed.toKeyed.catalogue_of_row member

theorem publishEvent_rule :
    Triple (fun s => AsFiled cat id key s.tables) (SystemJob.publishEvent env id)
      (fun started s => AsFiled cat id key s.tables ∧ ∀ manager, started = some manager → manager.Entered cat id key)
      fun _ s => AsFiled cat id key s.tables := by
  apply Triple.bind (enduring_asFiled.queryJobPlanByID id)
  intro jobExecutionPlan
  have nothing (s : PlanSystem) (settled : AsFiled cat id key s.tables) :
      AsFiled cat id key s.tables ∧ ∀ manager : LiteWorkflowManager, none = some manager → manager.Entered cat id key :=
    ⟨settled, fun _ started => nomatch started⟩
  split
  · apply Triple.bind (enduring_asFiled.disableJobExecutionPlans id)
    exact fun _ => .pure nothing
  · exact startJobPlan_rule.catching (fun _ _ => .pure nothing) fun _ _ _ settled => settled

theorem tries_rule (n : Nat) :
    Triple (fun s => AsFiled cat job.jobExecutionPlanID key s.tables) (job.tries env n)
      (fun started s => AsFiled cat job.jobExecutionPlanID key s.tables ∧
        ∀ manager, started = some manager → manager.Entered cat job.jobExecutionPlanID key)
      fun e s => AsFiled cat job.jobExecutionPlanID key s.tables ∧ e.isException = false := by
  induction n with
  | zero => exact .pure fun s settled => ⟨settled, fun _ started => nomatch started⟩
  | succ n ih => exact publishEvent_rule.catching (fun _ _ => ih) fun _ _ outside settled => ⟨settled, outside⟩

end Firing

/-- A trigger of a plan fires at any time, with the data of a job that was scheduled at any time. Whatever has failed
since, it starts the plan as it was submitted last, or nothing. -/
theorem fires_as_submitted {first second before after : List PlanReply} {name : String} {job : QuartzJob}
    {context : JobExecutionPlanSubmissionContext} {plans later : List PlanEntity}
    (empty : s.tables.Empty) (unscheduled : s.quartz = ∅) (toSchedule : Path (Serves env) s first u)
    (scheduled : u.quartz.lookup name = some job) (toFire : Path (Serves env) u second t)
    (named : ∀ label ∈ first ++ second, label.1.Named)
    (submitted : first ++ second = before ++ (.register context, some true) :: after)
    (last : context.jobExecutionPlans = plans ++ jep :: later) (once : ∀ other ∈ later, other.key ≠ jep.key)
    (newest : ∀ label ∈ after, ¬ label.1.Renews jep.key) (own : (job.clusterID, job.jepID) = jep.key) :
    Triple (· = t) (job.execute env)
      (fun started _ => ∀ manager, started = some manager → ∃ plan : PlanEntity,
        manager.jobExecutionPlan = plan.toJobExecutionPlan ∧
          plan.entry = { jep.entry with id := job.jobExecutionPlanID })
      fun e _ => e.isException = false := by
  -- the job was booked when it was scheduled, and its ticket is valid ever since
  have none_ : s.Booked [] := by
    refine ⟨empty.filed.toNumbered, fun name job found => ?_, fun _ member => absurd member List.not_mem_nil⟩
    rw [unscheduled] at found
    cases found
  have here := booked_path toSchedule none_
  have ticket : u.Booked [(job.jobExecutionPlanID, jep.key)] := by
    refine ⟨here.numbered, here.jobs, fun ticket member => ?_⟩
    rw [List.mem_singleton.mp member, ← own]
    exact here.jobs name job scheduled
  have owned := (booked_path toFire ticket).owned _ List.mem_cons_self
  obtain ⟨filed, path⟩ := filed_path empty (toSchedule.append toFire) named
  rw [submitted] at path
  have settled : PlanTables.AsFiled t.tables.catalogue job.jobExecutionPlanID jep.key t.tables := ⟨filed, rfl, owned⟩
  apply (@tries_rule env jep.key t.tables.catalogue job 3).conseq
  · exact fun _ same => same ▸ settled
  · rintro started _ ⟨-, stored⟩ manager same
    obtain ⟨plan, equal, sameID, entered⟩ := stored manager same
    refine ⟨plan, equal, ?_⟩
    rcases entered_since path last once newest with ⟨id, entry⟩ | gone
    · rw [entered, Option.some_inj] at entry
      have ids : plan.id = id := congrArg (fun jep : PlanEntity => jep.id) entry
      rw [entry, ← ids, sameID]
    · rw [gone] at entered
      cases entered
  · exact fun _ _ holds => holds.2

namespace Renewed

/-- A plan with one job. -/
def plan : PlanEntity :=
  { PlanEntity.plain "p" "b" with
    jobPlanNodeList :=
      [{ JobPlanNode.plain with toNode := some "load" },
       { JobPlanNode.plain with
         name := "load", type := .action, toNode := none, okNode := some "end", errorNode := some "fail"
         xjobMeta := some { mode := "local", executionContent := "run.sh", jobClassName := "shell" } },
       { JobPlanNode.plain with name := "fail", type := .fail, toNode := none },
       { JobPlanNode.plain with name := "end", type := .end_, toNode := none }] }

def old : JobExecutionPlanSubmissionContext := ⟨"c", [.plain "p" "a"]⟩

def context : JobExecutionPlanSubmissionContext := ⟨"c", [plan]⟩

def first : PlanSystem := after (JobPlanManager.registerJobExecutionPlanSubmissionContext .calm old {})

/-- The new version has taken the place of the old one. -/
def submitted : PlanSystem := after (JobPlanManager.registerJobExecutionPlanSubmissionContext .calm context first)

def refused : PlanSystem := after (JobPlanManager.registerJobExecutionPlanSubmissionContext .calm ⟨"c", []⟩ submitted)

def job : QuartzJob := { jobExecutionPlanID := 2, clusterID := "c", jepID := "p", jepName := "b" }

def oldJob : QuartzJob := { jobExecutionPlanID := 1, clusterID := "c", jepID := "p", jepName := "a" }

/-- The submissions with their answers. -/
def replies : List PlanReply := [(.register old, some true), (.register context, some true)]

def last : List PlanReply := [(.register ⟨"c", []⟩, some false)]

theorem wellFormed : context.WellFormed := by
  refine ⟨by decide, fun jep member => ?_, fun jep member => ?_⟩
  · rw [List.mem_singleton.mp member]
    rfl
  · rw [List.mem_singleton.mp member]
    decide

theorem allNamed : ∀ label ∈ replies ++ last, label.1.Named := by
  intro label member
  simp only [replies, last, List.cons_append, List.nil_append, List.mem_cons, List.not_mem_nil, or_false] at member
  rcases member with rfl | rfl | rfl
  · exact plain_wellFormed ["a"]
  · exact wellFormed
  · exact ⟨by decide, fun _ absent => absurd absent List.not_mem_nil, fun _ absent => absurd absent List.not_mem_nil⟩

end Renewed

open Renewed in
/-- The job of the new version starts it with its nodes and their job; that of the old one starts nothing. -/
theorem fires_as_submitted_renewed : (∃ manager t, job.execute .calm refused = .ok (some manager) t ∧
    ∃ row : PlanEntity, manager.jobExecutionPlan = row.toJobExecutionPlan ∧
      row.entry = { plan.entry with id := job.jobExecutionPlanID }) ∧ ∃ t,
        oldJob.execute .calm refused = .ok none t := by
  have toSchedule : Path (Serves .calm) {} replies submitted :=
    .cons (.answered (ok_of_answer? (by decide +kernel)))
      (.cons (.answered (ok_of_answer? (by decide +kernel))) (.nil _))
  have toFire : Path (Serves .calm) submitted last refused :=
    .cons (.answered (ok_of_answer? (by decide +kernel))) (.nil _)
  have scheduled : submitted.quartz.lookup "c|0|p|b" = some job := by decide +kernel
  have newest : ∀ label ∈ last, ¬ label.1.Renews plan.key := by
    rintro label member
    rw [List.mem_singleton.mp member]
    rintro ⟨_, absent, -⟩
    exact absurd absent List.not_mem_nil
  have answered : replies ++ last = [(.register old, some true)] ++ (.register context, some true) :: last := rfl
  have only : context.jobExecutionPlans = [] ++ plan :: [] := rfl
  have fires := fires_as_submitted ⟨rfl, rfl, rfl⟩ rfl toSchedule scheduled toFire allNamed answered only
    (fun _ absent => absurd absent List.not_mem_nil) newest rfl
  obtain ⟨started, there⟩ : ∃ started, answer? (job.execute .calm refused) = some (some started) := by
    obtain ⟨started, same⟩ := Option.isSome_iff_exists.mp
      (show (answer? (job.execute .calm refused)).join.isSome = true by decide +kernel)
    exact ⟨started, Option.join_eq_some_iff.mp same⟩
  have runs := ok_of_answer? there
  obtain ⟨outcome, ended, nothing⟩ := Option.map_eq_some_iff.mp
    (show (answer? (oldJob.execute .calm refused)).map (·.isNone) = some true by decide +kernel)
  rw [Option.isNone_iff_eq_none.mp nothing] at ended
  exact ⟨⟨started, _, runs, fires.ok rfl runs started rfl⟩, _, ok_of_answer? ended⟩

end Hella

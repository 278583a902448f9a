import Hella.Web.Dispatch
import Hella.Web.Holdings

/-!
# What the methods of the console leave

Uploads and deletions aside, no method changes what is held of the stored plans.
-/
namespace Hella

open Exec Text WebSystem

variable {app : WebApp} {env : WebEnv} {req : HttpServletRequest} {t : PlanTables} {α : Type}

namespace PlanTables

/-- The plans are held as before. -/
structure Keeping (t u : PlanTables) : Prop where
  filed : u.Filed
  held : u.held = t.held

theorem Filed.keeping (filed : t.Filed) : Keeping t t := ⟨filed, rfl⟩

theorem Outlined.keeping {u v : PlanTables} (outlined : Outlined u v) (keeping : Keeping t u) : Keeping t v :=
  ⟨outlined.filed keeping.filed, outlined.held.trans keeping.held⟩

theorem Keeping.updateState {u : PlanTables} (keeping : Keeping t u) (id : Nat) (clusterID : Option String)
    (state : PlanState) : Keeping t (u.updateState id clusterID state) where
  filed := keeping.filed.updateState id clusterID state
  held := (funext fun _ => held_congr (catalogue_updateState clusterID state _)).trans keeping.held

end PlanTables

open PlanTables

theorem enduring_keeping : PlanSystem.Enduring fun p => Keeping t p.tables :=
  .ofTables fun _ id clusterID state keeping => keeping.updateState id clusterID state

section Methods

theorem keeps_onEngine {body : EngineM α} (keeps : ∀ plans, Keeps (Engine.Defines plans) body) :
    Keeps (OnTables (Keeping t)) (onEngine body) := by
  apply Keeps.of_after
  intro s (keeping : Keeping t s.plans.tables)
  have defines := (keeps (s.plans.tables.jobPlans.map JobExecutionPlan.definition)).after (s := s.withPlans) rfl
  have outlined : Outlined s.plans.tables (s.plans.tables.restore (after (body s.withPlans)).store.jobPlans) :=
    outlined_restore defines
  have same : (after (onEngine body s)).plans.tables =
    s.plans.tables.restore (after (body s.withPlans)).store.jobPlans := by
    unfold onEngine zoom
    cases body s.withPlans <;> rfl
  rw [OnTables, same]
  exact outlined.keeping keeping

theorem keeps_integerOf {I : PlanTables → Prop} (text : Option String) : Keeps (OnTables I) (integerOf text) := by
  unfold integerOf
  split
  · exact Keeps.throw _
  · exact Keeps.pure _

theorem keeps_planCall {I : PlanTables → Prop} : Keeps (OnTables I) (onPlans (PlanSystem.daoCall env.plans)) :=
  keeps_onPlans (keeps_daoCall fun _ holds => holds)

theorem keeping_pauseJob (id : Int) : Keeps (OnTables (Keeping t)) (JobPlanService.pauseJob env id) := by
  apply keeps_onPlans
  have loads : Keeps (fun p : PlanSystem => Keeping t p.tables) (JobPlanService.loadJobExecutionPlan env id.toNat) := by
    apply (enduring_keeping.queryJobPlanByID _).bind
    intro found
    cases found with
    | none => exact Keeps.pure _
    | some jep =>
      apply (keeps_daoCall enduring_keeping.counts).bind
      intro _
      apply (keeps_daoCall enduring_keeping.counts).bind
      exact fun _ => Keeps.getting.bind fun _ => Keeps.pure _
  apply (Keeps.catching loads fun _ _ => Keeps.pure _).bind
  intro found
  cases found with
  | none => exact Keeps.pure _
  | some jep => exact enduring_keeping.pauseJobExecutionPlan jep

theorem keeping_resumeJob (id : Int) : Keeps (OnTables (Keeping t)) (JobPlanService.resumeJob env id) :=
  keeps_onPlans (enduring_keeping.resumeJobExecutionPlan _)

theorem keeping_executeQJob (id : Int) : Keeps (OnTables (Keeping t)) (JobPlanService.executeQJob env id) := by
  apply Keeps.catching
  · exact (keeps_onEngine fun _ => Engine.defines_startJobPlan _ _).bind fun _ => Keeps.pure _
  · exact fun _ _ => Keeps.pure _

theorem keeping_executeJobPlanNode (id : Int) (args : Option String) :
    Keeps (OnTables (Keeping t)) (JobPlanService.executeJobPlanNode env id args) := by
  unfold JobPlanService.executeJobPlanNode
  split
  · exact Keeps.pure _
  · apply Keeps.catching
    · exact keeps_onEngine fun _ => Engine.defines_executeJobPlanNode _ _ _
    · exact fun _ _ => Keeps.pure _

theorem keeping_changeCronExpression (id : Int) (cronType : CronType) (cronExpression : String) :
    Keeps (OnTables (Keeping t)) (JobPlanService.changeJobExecutionPlanCronExpression env id cronType
      cronExpression) := by
  apply (keeps_onPlans (enduring_keeping.queryJobPlanByID _)).bind
  intro found
  cases found with
  | none => exact Keeps.pure _
  | some jep =>
    apply Keeps.bind
    · apply keeps_onPlans
      exact keeps_update _ fun u keeping =>
        (outlined_updateJobPlanCronExpression _ cronType cronExpression).keeping keeping
    · intro _
      apply Keeps.bind
      · apply Keeps.getting.bind
        intro s
        split
        · exact Keeps.pure _
        · exact Keeps.pure _
        · split
          · exact Keeps.bind (Keeps.modifying fun _ holds => holds) fun _ => Keeps.pure _
          · exact Keeps.pure _
      · intro taken
        split
        · exact Keeps.pure _
        · exact Keeps.throw _

theorem keeping_edit : Keeps (OnTables (Keeping t)) (JobPlanAction.edit env req) := by
  apply Keeps.getting.bind
  intro s
  split
  · exact keeps_ajaxOutJsonResult _ _
  · split
    · exact keeps_ajaxOutJsonResult _ _
    · apply (keeps_integerOf _).bind
      intro id
      split
      · exact Keeps.throw _
      · dsimp only
        split
        · exact keeps_ajaxOutJsonResult _ _
        · split
          · exact keeps_ajaxOutJsonResult _ _
          · apply Keeps.catching
            · exact (keeping_changeCronExpression _ _ _).bind fun _ => keeps_ajaxOutJsonResult _ _
            · exact fun _ _ => keeps_ajaxOutJsonResult _ _

theorem keeps_operate {I : PlanTables → Prop} {parameter failure : String} {operation : Option String → WebM Bool}
    (keeps : ∀ key, Keeps (OnTables I) (operation key)) :
    Keeps (OnTables I) (JobPlanAction.operate req parameter failure operation) := by
  apply keeps_askToLogin.bind
  intro _
  dsimp only
  split
  · exact Keeps.pure _
  · apply (keeps _).bind
    intro done
    split
    · exact keeps_ajaxOutJsonResult _ _
    · exact keeps_ajaxOutJsonResult _ _

theorem keeps_guardedOperation {I : PlanTables → Prop} {operation : WebM Bool} (keeps : Keeps (OnTables I) operation) :
    Keeps (OnTables I) (JobPlanAction.guarded operation) :=
  Keeps.catching keeps fun _ _ => Keeps.pure _

theorem keeps_add {I : PlanTables → Prop} : Keeps (OnTables I) (PlanSubscribeAction.add env req) := by
  unfold PlanSubscribeAction.add
  split
  · exact keeps_ajaxOutJsonResult _ _
  · dsimp only
    split
    · exact keeps_ajaxOutJsonResult _ _
    · split
      · exact keeps_ajaxOutJsonResult _ _
      · apply Keeps.bind
        · apply Keeps.catching
          · apply Keeps.bind
            · unfold SysService.addJobPlanSubscribe
              split
              · exact Keeps.pure _
              · exact keeps_planCall.bind fun _ => Keeps.modifying fun _ holds => holds
            · exact fun _ => Keeps.pure _
          · exact fun _ _ => Keeps.pure _
        · intro done
          split
          · exact keeps_ajaxOutJsonResult _ _
          · exact keeps_ajaxOutJsonResult _ _

theorem keeps_withIDs {I : PlanTables → Prop} {missing : String} {operation : List Int → WebM Unit}
    (keeps : ∀ ids, Keeps (OnTables I) (operation ids)) :
    Keeps (OnTables I) (PlanSubscribeAction.withIDs req missing operation) := by
  apply keeps_askToLogin.bind
  intro _
  split
  · exact keeps_ajaxOutJsonResult _ _
  · split
    · exact keeps_ajaxOutJsonResult _ _
    · split
      · exact Keeps.throw _
      · exact keeps _

theorem keeps_del {I : PlanTables → Prop} : Keeps (OnTables I) (PlanSubscribeAction.del env req) := by
  apply keeps_withIDs
  intro ids
  apply Keeps.bind
  · unfold SysService.deleteJobPlanSubscribeByID
    split
    · exact Keeps.pure _
    · apply Keeps.catching
      · apply keeps_planCall.bind
        intro _
        apply Keeps.getting.bind
        exact fun _ => Keeps.bind (Keeps.modifying fun _ holds => holds) fun _ => Keeps.pure _
      · exact fun _ _ => Keeps.pure _
  · intro done
    split
    · exact keeps_ajaxOutJsonResult _ _
    · exact keeps_ajaxOutJsonResult _ _

theorem keeps_changeState {I : PlanTables → Prop} : Keeps (OnTables I) (PlanSubscribeAction.changeState env req) := by
  apply keeps_withIDs
  intro ids
  apply Keeps.catching
  · apply Keeps.bind
    · unfold SysService.changeJobPlanSubscribeState
      split
      · exact Keeps.pure _
      · exact keeps_planCall.bind fun _ => Keeps.modifying fun _ holds => holds
    · exact fun _ => keeps_ajaxOutJsonResult _ _
  · exact fun _ _ => keeps_ajaxOutJsonResult _ _

/-- Every other method keeps the plans. -/
theorem keeping_invoke (forward : HttpServletRequest → String → WebM Unit) {method : ActionMethod}
    (shows : method ≠ .index) (stores : method ≠ .fileUpLoad) (deletes : method ≠ .deleteJobPlan) :
    Keeps (OnTables (Keeping t)) (method.invoke app env forward req) := by
  cases method with
  | doPost => exact Keeps.throw _
  | output => exact Keeps.pure _
  | display path =>
    apply keeps_webRequest.bind
    intro n
    split
    · exact keeps_answer _
    · exact Keeps.throw _
  | index => exact absurd rfl shows
  | edit => exact keeping_edit
  | pauseJob => exact keeps_operate fun key => (keeps_integerOf key).bind fun id => keeping_pauseJob id
  | resumeJob => exact keeps_operate fun key => (keeps_integerOf key).bind fun id => keeping_resumeJob id
  | executorQJob =>
    exact keeps_operate fun key => keeps_guardedOperation ((keeps_integerOf key).bind fun id => keeping_executeQJob id)
  | executorXJob =>
    exact keeps_operate fun key =>
      keeps_guardedOperation ((keeps_integerOf key).bind fun id => keeping_executeJobPlanNode id _)
  | deleteJobPlan => exact absurd rfl deletes
  | fileUpLoad => exact absurd rfl stores
  | add => exact keeps_add
  | del => exact keeps_del
  | changeState => exact keeps_changeState

end Methods

end Hella

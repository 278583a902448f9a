import Hella.Web.Actions
import Hella.Plans.Requests
import Hella.Control.Writes

/-!
# What an action leaves alone

`Touches` says which requests a method acts on; it looks at the request and the session
only. A method changes nothing for any other request.
-/
namespace Hella

open Exec Text WebSystem

/-- The plans, the scheduler, the subscriptions and the running workflows are as they were. -/
structure Unchanged (s t : WebSystem) : Prop where
  tables : t.plans.tables = s.plans.tables
  quartz : t.plans.quartz = s.plans.quartz
  rescheduled : t.rescheduled = s.rescheduled
  jobPlanSubscribes : t.jobPlanSubscribes = s.jobPlanSubscribes
  instances : t.engine.instances = s.engine.instances
  workflowsMap : t.engine.store.workflowsMap = s.engine.store.workflowsMap
  jobNodeRuningInfosMap : t.engine.store.jobNodeRuningInfosMap = s.engine.store.jobNodeRuningInfosMap

theorem Unchanged.refl (s : WebSystem) : Unchanged s s := ⟨rfl, rfl, rfl, rfl, rfl, rfl, rfl⟩

theorem Unchanged.trans {s t u : WebSystem} (first : Unchanged s t) (second : Unchanged t u) : Unchanged s u where
  tables := second.tables.trans first.tables
  quartz := second.quartz.trans first.quartz
  rescheduled := second.rescheduled.trans first.rescheduled
  jobPlanSubscribes := second.jobPlanSubscribes.trans first.jobPlanSubscribes
  instances := second.instances.trans first.instances
  workflowsMap := second.workflowsMap.trans first.workflowsMap
  jobNodeRuningInfosMap := second.jobNodeRuningInfosMap.trans first.jobNodeRuningInfosMap

/-- The user is the same, too. -/
structure Same (s t : WebSystem) : Prop extends Unchanged s t where
  session : t.session = s.session

theorem Same.refl (s : WebSystem) : Same s s := ⟨.refl s, rfl⟩

/-! ### Which requests are acted on -/

/-- The text is a number that can be the key of a row. -/
def IsKey (text : Option String) : Prop := ∃ n, text.bind integerValueOf = some n ∧ 0 < n

/-- The parser reads plans that the database finds none of among the stored ids. -/
def LetsIn (app : WebApp) (clusterID content : String) (stored : List String) : Prop :=
  ∃ plans, app.jobPlans clusterID content = some plans ∧ plans ≠ [] ∧
    app.isJobPlansExist (plans.map (·.jepID)) stored = some false

/-- The part is a submission that is accepted for some stored ids. -/
def Submits (app : WebApp) (clusterID : String) (item : FileItem) : Prop :=
  JobPlanAction.isJobPlanFile item = true ∧ app.validateXMLByXSD item.content = true ∧
    ∃ stored, LetsIn app clusterID item.content stored

/-- The list of ids has one that can be the key of a row. -/
def NamesRows (text : Option String) : Prop :=
  isBlank text = false ∧ ∃ ids n, text.bind subscribeIDs = some ids ∧ n ∈ ids ∧ 0 < n

/-- The method acts on the request. -/
def ActionMethod.Touches (app : WebApp) (session : HttpSession) (req : HttpServletRequest) : ActionMethod → Prop
  | .pauseJob => IsKey (req.getParameter "jobExecutionPlanID")
  | .resumeJob => IsKey (req.getParameter "jobExecutionPlanID")
  | .executorQJob => IsKey (req.getParameter "jobExecutionPlanID")
  | .deleteJobPlan => IsKey (req.getParameter "jobPlanID")
  | .edit =>
    session.userName ≠ none ∧ IsKey (req.getParameter "jobExecutionPlanID") ∧
      CronType.valueOf (req.getParameter "cronType") ≠ none ∧ isBlank (req.getParameter "cronExpression") = false
  | .fileUpLoad =>
    ∃ clusterID items, req.getParameter "cID" = some clusterID ∧ isBlank (some clusterID) = false ∧
      req.items = some items ∧ ∃ item ∈ items, Submits app clusterID item
  | .add =>
    isBlank (req.getParameter "clusterID") = false ∧
      (isBlank (req.getParameter "userEmail") = false ∨ isBlank (req.getParameter "userPhoneNumber") = false)
  | .del => NamesRows (req.getParameter "ids")
  | .changeState => NamesRows (req.getParameter "ids")
  -- running a node by hand has its own row in another table and no workflow
  | .executorXJob => False
  | .doPost | .output | .display _ | .index => False

section Frames

variable {app : WebApp} {env : WebEnv} {req : HttpServletRequest} {s₀ : WebSystem} {α : Type}

/-! ### Parts of the state -/

theorem same_answer (a : HttpResponse) : Keeps (Same s₀) (answer a) := by
  apply Keeps.modifying
  intro s same
  exact ⟨same.toUnchanged.trans ⟨rfl, rfl, rfl, rfl, rfl, rfl, rfl⟩, same.session⟩

theorem same_ajaxOutJsonResult (success : Bool) (msg : String) : Keeps (Same s₀) (ajaxOutJsonResult success msg) :=
  same_answer _

theorem same_request : Keeps (Same s₀) request := by
  apply Keeps.of_after
  intro s same
  exact ⟨same.toUnchanged.trans ⟨rfl, rfl, rfl, rfl, rfl, rfl, rfl⟩, same.session⟩

theorem same_onPlans {body : PlanM α}
    (keeps : Keeps (fun p => p.tables = s₀.plans.tables ∧ p.quartz = s₀.plans.quartz) body) :
    Keeps (Same s₀) (onPlans body) := by
  apply keeps.zoom
  · intro s same
    exact ⟨same.tables, same.quartz⟩
  · intro s p same holds
    exact ⟨{ same.toUnchanged with tables := holds.1, quartz := holds.2 }, same.session⟩

/-- Restoring what was loaded changes no row. -/
theorem PlanTables.restore_jobPlans (t : PlanTables) : t.restore t.jobPlans = t := by
  have rows : t.jobExecutionPlans.zipWith (fun row plan =>
      { row with toJobExecutionPlan := { plan with jobPlanNodeList := row.jobPlanNodeList } }) t.jobPlans =
      t.jobExecutionPlans := by
    unfold PlanTables.jobPlans
    rw [List.zipWith_map_right, List.zipWith_self]
    exact List.map_id _
  unfold PlanTables.restore
  rw [rows]

/-- What the workflow code must leave alone of the store, for the workflows to be as they were. -/
structure Rests (s t : Store) : Prop where
  jobPlans : t.jobPlans = s.jobPlans
  workflowsMap : t.workflowsMap = s.workflowsMap
  jobNodeRuningInfosMap : t.jobNodeRuningInfosMap = s.jobNodeRuningInfosMap

structure Idle (e f : Engine) : Prop where
  store : Rests e.store f.store
  instances : f.instances = e.instances

theorem same_onEngine {body : EngineM α} (keeps : Keeps (Idle s₀.withPlans) body) :
    Keeps (Same s₀) (onEngine body) := by
  apply keeps.zoom
  · intro s same
    refine ⟨⟨?_, same.workflowsMap, same.jobNodeRuningInfosMap⟩, same.instances⟩
    change s.plans.tables.jobPlans = s₀.plans.tables.jobPlans
    rw [same.tables]
  · intro s e same idle
    refine ⟨{ same.toUnchanged with
      tables := ?_
      instances := idle.instances
      workflowsMap := idle.store.workflowsMap
      jobNodeRuningInfosMap := idle.store.jobNodeRuningInfosMap }, same.session⟩
    change s.plans.tables.restore e.store.jobPlans = s₀.plans.tables
    rw [idle.store.jobPlans, same.tables]
    exact PlanTables.restore_jobPlans _

/-! ### Keys that no row has -/

theorem same_integer (key : Option String) : Keeps (Same s₀) (integerOf key) := by
  unfold integerOf
  split
  · exact Keeps.throw _
  · exact Keeps.pure _

/-- A text that is no key is no number at all, or stands for the key zero. -/
theorem same_integerOf {key : Option String} {f : Int → WebM α} (none_ : ¬ IsKey key)
    (idle : ∀ n : Int, n.toNat = 0 → Keeps (Same s₀) (f n)) : Keeps (Same s₀) (integerOf key >>= f) := by
  cases read : key.bind integerValueOf with
  | none =>
    have thrown : integerOf key >>= f = throw .numberFormatException := by
      simp only [integerOf, read]
      rfl
    rw [thrown]
    exact Keeps.throw _
  | some n =>
    have low : ¬ 0 < n := fun positive => none_ ⟨n, read, positive⟩
    have same : integerOf key = pure n := by simp only [integerOf, read]
    rw [same, pure_bind]
    exact idle n (by omega)

theorem pauseJob_zero {n : Int} (zero : n.toNat = 0) : Keeps (Same s₀) (JobPlanService.pauseJob env n) := by
  apply same_onPlans
  rw [zero]
  exact Keeps.pure false

theorem resumeJob_zero {n : Int} (zero : n.toNat = 0) : Keeps (Same s₀) (JobPlanService.resumeJob env n) := by
  apply same_onPlans
  rw [zero]
  exact Keeps.pure false

theorem executeQJob_zero {n : Int} (zero : n.toNat = 0) : Keeps (Same s₀) (JobPlanService.executeQJob env n) := by
  apply Keeps.catching
  · apply Keeps.bind
    · apply same_onEngine
      rw [zero]
      exact Keeps.pure ()
    · exact fun _ => Keeps.pure true
  · exact fun _ _ => Keeps.pure false

theorem changeJobExecutionPlanCronExpression_zero {n : Int} (zero : n.toNat = 0) (cronType : CronType)
    (cronExpression : String) :
    Keeps (Same s₀) (JobPlanService.changeJobExecutionPlanCronExpression env n cronType cronExpression) := by
  unfold JobPlanService.changeJobExecutionPlanCronExpression
  rw [zero]
  exact fun s same => same

/-! ### Running a node by hand -/

theorem idle_onShared {e : Engine} {body : StoreM α} (keeps : Keeps (Rests e.store) body) :
    Keeps (Idle e) (Engine.onShared body) := by
  apply keeps.zoom
  · exact fun f idle => idle.store
  · exact fun f t idle rests => ⟨rests, idle.instances⟩

section Store

variable {t : Store} {engineEnv : Env}

theorem rests_request : Keeps (Rests t) Store.request := by
  apply Keeps.of_after
  exact fun s rests => ⟨rests.jobPlans, rests.workflowsMap, rests.jobNodeRuningInfosMap⟩

theorem rests_daoCall : Keeps (Rests t) (Store.daoCall engineEnv) := by
  refine rests_request.bind fun n => ?_
  split
  · exact Keeps.pure _
  · exact Keeps.throw _

theorem rests_queryJobPlanNodeByID (id : Nat) : Keeps (Rests t) (Store.queryJobPlanNodeByID engineEnv id) := by
  unfold Store.queryJobPlanNodeByID
  split
  · exact Keeps.pure _
  · exact rests_daoCall.bind fun _ => Keeps.getting.bind fun _ => Keeps.pure _

/-- The node is read without its job, which is in another table. -/
theorem queryJobPlanNodeByID_bare {id : Nat} {s u : Store} {node : JobPlanNode}
    (returned : Store.queryJobPlanNodeByID engineEnv id s = .ok (some node) u) : node.xjobMeta = none := by
  unfold Store.queryJobPlanNodeByID at returned
  split at returned
  · cases returned
  · rw [bind_apply] at returned
    split at returned
    next a v called =>
      change EStateM.Result.ok (v.jobPlanNode? id) v = _ at returned
      injection returned with found
      obtain ⟨row, -, rfl⟩ := Option.map_eq_some_iff.mp found
      rfl
    · cases returned

theorem rests_generateID : Keeps (Rests t) (Store.generateID engineEnv) := rests_request.bind fun _ => Keeps.pure _

theorem rests_newDate : Keeps (Rests t) (Store.newDate engineEnv) := rests_request.bind fun _ => Keeps.pure _

theorem rests_addJobState (x : XjobState) : Keeps (Rests t) (Store.addJobState engineEnv x) := by
  refine rests_daoCall.bind fun _ => Keeps.of_after fun s rests => ?_
  exact ⟨rests.jobPlans, rests.workflowsMap, rests.jobNodeRuningInfosMap⟩

theorem rests_updJobState (x : XjobState) : Keeps (Rests t) (Store.updJobState engineEnv x) :=
  rests_daoCall.bind fun _ =>
    Keeps.modifying fun _ rests => ⟨rests.jobPlans, rests.workflowsMap, rests.jobNodeRuningInfosMap⟩

/-- Without a job the event is never built. -/
theorem rests_executeXJob (key : String) {node : JobPlanNode} (bare : node.xjobMeta = none) (id : Nat)
    (type : XjobExecutorType) (args : Option String) :
    Keeps (Rests t) (Store.executeXJob engineEnv key node id type args) := by
  apply Keeps.of_after
  intro s rests
  rw [Store.executeXJob_none engineEnv bare]
  exact ⟨rests.jobPlans, rests.workflowsMap, rests.jobNodeRuningInfosMap⟩

end Store

theorem idle_queryJobPlanNodeByID {e : Engine} {engineEnv : Env} (id : Nat) :
    Triple (Idle e) (Engine.onShared (Store.queryJobPlanNodeByID engineEnv id))
      (fun found f => Idle e f ∧ ∀ node, found = some node → node.xjobMeta = none) fun _ => Idle e := by
  intro f idle
  have read : Idle e (after (Engine.onShared (Store.queryJobPlanNodeByID engineEnv id) f)) :=
    (idle_onShared (rests_queryJobPlanNodeByID id)).after idle
  revert read
  unfold Engine.onShared zoom
  cases called : Store.queryJobPlanNodeByID engineEnv id f.store with
  | ok found t =>
    intro read
    refine ⟨read, fun node same => ?_⟩
    subst same
    exact queryJobPlanNodeByID_bare called
  | error thrown t => exact fun read => read

theorem idle_executeJobPlanNode {e : Engine} {engineEnv : Env} (id : Nat) (type : XjobExecutorType)
    (args : Option String) : Keeps (Idle e) (Engine.executeJobPlanNode engineEnv id type args) := by
  refine Triple.bind (idle_queryJobPlanNodeByID id) fun found => ?_
  cases found with
  | none => exact Triple.throw fun _ holds => holds.1
  | some node =>
    refine Triple.of_imp (fun bare => ?_) fun _ holds => holds.2 node rfl
    -- the event is not built, and what is left is rows of another table
    refine Keeps.under ?_ fun _ holds => holds.1
    refine (idle_onShared rests_generateID).bind fun key => (idle_onShared rests_newDate).bind fun date => ?_
    refine (idle_onShared (rests_addJobState _)).bind fun row => ?_
    refine Keeps.bind (Keeps.catching ?_ fun _ _ => Keeps.pure false) fun started => ?_
    · exact (idle_onShared (rests_executeXJob _ bare _ _ _)).bind fun _ => Keeps.pure true
    · exact (idle_onShared (rests_updJobState _)).bind fun _ => Keeps.pure started

/-! ### Uploads -/

theorem same_daoCall : Keeps (Same s₀) (onPlans (PlanSystem.daoCall env.plans)) := by
  apply same_onPlans
  refine Keeps.bind (fun _ holds => holds) fun n => ?_
  split
  · exact Keeps.pure _
  · exact Keeps.throw _

/-- Only what the database lets through is answered with false. -/
theorem same_isJobPlansExist (ids : List String) :
    Triple (Same s₀) (JobPlanService.isJobPlansExist app env ids)
      (fun exist s => Same s₀ s ∧ (exist = false → ids = [] ∨ ∃ stored, app.isJobPlansExist ids stored = some false))
      fun _ => Same s₀ := by
  unfold JobPlanService.isJobPlansExist
  split
  next none_ => exact Triple.pure fun s same => ⟨same, fun _ => .inl (List.isEmpty_iff.mp none_)⟩
  next some_ =>
    refine Triple.bind same_daoCall fun _ => ?_
    intro s same
    rw [bind_ok (get_apply s)]
    cases counted : app.isJobPlansExist ids (s.plans.tables.jobExecutionPlans.map (·.jepID)) with
    | none => exact same
    | some exist =>
      exact ⟨same, fun free => .inr ⟨_, counted.trans (congrArg some free)⟩⟩

theorem same_submitJobPlan {clusterID content : String} (refused : ∀ stored, ¬ LetsIn app clusterID content stored) :
    Keeps (Same s₀) (JobPlanService.submitJobPlan app env clusterID content) := by
  unfold JobPlanService.submitJobPlan
  split
  · exact Keeps.throw _
  next plans read =>
    refine same_request.bind fun n => Triple.bind (same_isJobPlansExist _) fun exist => ?_
    cases exist with
    | true => exact Triple.pure fun _ holds => holds.1
    | false =>
      refine Triple.of_imp (fun through => ?_) fun _ holds => holds.2 rfl
      refine Keeps.under ?_ fun _ holds => holds.1
      -- what gets this far has no plans
      have none_ : plans = [] := by
        rcases through with none_ | ⟨stored, free⟩
        · exact List.map_eq_nil_iff.mp none_
        · by_contra some_
          exact refused stored ⟨plans, read, some_, free⟩
      subst none_
      apply same_onPlans
      apply Keeps.of_after
      intro p holds
      have refused : Returns (JobPlanManager.registerJobExecutionPlanSubmissionContext env.plans ⟨clusterID, []⟩) p
          fun answer t => answer = false ∧ p.Leaves p.tables p.quartz t := register_empty rfl
      obtain ⟨answer, q, returned, -, left_⟩ := refused
      rw [List.map_nil, returned]
      exact ⟨left_.tables.trans holds.1, left_.quartz.trans holds.2⟩

theorem same_uploadItem {clusterID : String} {item : FileItem} (refused : ¬ Submits app clusterID item) :
    Keeps (Same s₀) (JobPlanAction.uploadItem app env clusterID item) := by
  unfold JobPlanAction.uploadItem
  split
  next file =>
    refine same_request.bind fun n => ?_
    split
    · split
      next valid =>
        refine Keeps.bind (Keeps.catching (same_submitJobPlan ?_) fun _ _ => Keeps.pure _) fun _ => Keeps.pure _
        exact fun stored accepts => refused ⟨file, valid, stored, accepts⟩
      · exact Keeps.pure _
    · exact Keeps.throw _
  · exact Keeps.pure _

/-- Loading the list of plans shows a page and nothing else. -/
theorem same_index {forward : HttpServletRequest → String → WebM Unit} (path : String)
    (asked : "/jsp/" ++ orNull (req.getParameter "forward") = path) (forwards : Keeps (Same s₀) (forward req path)) :
    Keeps (Same s₀) (JobPlanAction.index env forward req) := by
  subst asked
  refine same_request.bind fun n => ?_
  split
  · exact forwards
  · exact Keeps.throw _

theorem same_showList : Keeps (Same s₀) (JobPlanAction.showList env req) := same_index _ rfl (same_answer _)

/-! ### Subscriptions -/

theorem not_isIn {ids : List Int} (low : ∀ n ∈ ids, ¬ 0 < n) (row : JobPlanSubscribe) :
    SysService.isIn ids row = false := by
  have positive : 0 < (row.id : Int) := by exact_mod_cast row.id.pos
  unfold SysService.isIn
  rw [List.contains_eq_mem, decide_eq_false_iff_not, List.mem_cons]
  rintro (absurd | member)
  · omega
  · exact low _ member positive

theorem same_deleteJobPlanSubscribeByID {ids : List Int} (low : ∀ n ∈ ids, ¬ 0 < n) :
    Keeps (Same s₀) (SysService.deleteJobPlanSubscribeByID env ids) := by
  unfold SysService.deleteJobPlanSubscribeByID
  split
  · exact Keeps.pure _
  · refine Keeps.catching (same_daoCall.bind fun _ => Keeps.getting.bind fun s => ?_) fun _ _ => Keeps.pure _
    refine Keeps.bind (Keeps.modifying fun t same => ?_) fun _ => Keeps.pure _
    refine ⟨{ same.toUnchanged with jobPlanSubscribes := ?_ }, same.session⟩
    simp only [not_isIn low, Bool.not_false, List.filter_true]
    exact same.jobPlanSubscribes

theorem same_changeJobPlanSubscribeState {ids : List Int} (low : ∀ n ∈ ids, ¬ 0 < n) (state : Bool) :
    Keeps (Same s₀) (SysService.changeJobPlanSubscribeState env ids state) := by
  unfold SysService.changeJobPlanSubscribeState
  split
  · exact Keeps.pure _
  · refine same_daoCall.bind fun _ => Keeps.modifying fun t same => ?_
    refine ⟨{ same.toUnchanged with jobPlanSubscribes := ?_ }, same.session⟩
    simp only [not_isIn low, Bool.false_eq_true, if_false, List.map_id']
    exact same.jobPlanSubscribes

/-! ### Methods -/

theorem same_askToLogin : Keeps (Same s₀) JobPlanAction.askToLogin := by
  refine Keeps.getting.bind fun s => ?_
  split
  · exact same_ajaxOutJsonResult _ _
  · exact Keeps.pure _

theorem same_operate {parameter failure : String} {operation : Option String → WebM Bool}
    (idle : Keeps (Same s₀) (operation (req.getParameter parameter))) :
    Keeps (Same s₀) (JobPlanAction.operate req parameter failure operation) := by
  refine same_askToLogin.bind fun _ => ?_
  dsimp only
  split
  · exact Keeps.pure _
  · refine idle.bind fun done => ?_
    split
    · exact same_ajaxOutJsonResult _ _
    · exact same_ajaxOutJsonResult _ _

theorem same_deleteJobPlan (none_ : ¬ IsKey (req.getParameter "jobPlanID")) :
    Keeps (Same s₀) (JobPlanAction.deleteJobPlan env req) := by
  refine same_askToLogin.bind fun _ => ?_
  dsimp only
  split
  · exact Keeps.pure _
  · refine Keeps.catching (same_integerOf none_ fun n low => ?_) fun _ _ => Keeps.pure _
    -- nothing is found, and so nothing is deleted
    have absent : JobPlanService.queryJobPlanState env n = pure none := by
      unfold JobPlanService.queryJobPlanState
      rw [low]
      rfl
    rw [absent, pure_bind]
    exact same_ajaxOutJsonResult _ _

theorem same_edit (untouched : ¬ ActionMethod.Touches app s₀.session req .edit) :
    Keeps (Same s₀) (JobPlanAction.edit env req) := by
  unfold JobPlanAction.edit
  refine Triple.bind (Triple.getting (Q := fun a s => a.session = s₀.session ∧ Same s₀ s)
    fun s same => ⟨same.session, same⟩) fun a => ?_
  refine Triple.of_imp (fun session => ?_) fun s holds => holds.1
  refine Keeps.under ?_ fun s holds => holds.2
  rw [session]
  split
  · exact same_ajaxOutJsonResult _ _
  next user =>
    split
    · exact same_ajaxOutJsonResult _ _
    -- without a key the update changes no row, whatever the rest of the request says
    · by_cases key : IsKey (req.getParameter "jobExecutionPlanID")
      · -- the user and the key are there, so something else is missing
        refine (same_integer _).bind fun n => ?_
        split
        · exact Keeps.throw _
        next cronType read =>
          dsimp only
          split
          · exact same_ajaxOutJsonResult _ _
          · split
            · exact same_ajaxOutJsonResult _ _
            next expression =>
              have given : isBlank (req.getParameter "cronExpression") = false := by simpa using expression
              exact (untouched ⟨user, key, by rw [read]; nofun, given⟩).elim
      · refine same_integerOf key fun n low => ?_
        split
        · exact Keeps.throw _
        next cronType _ =>
          dsimp only
          split
          · exact same_ajaxOutJsonResult _ _
          · split
            · exact same_ajaxOutJsonResult _ _
            · refine Keeps.catching ?_ fun _ _ => same_ajaxOutJsonResult _ _
              exact (changeJobExecutionPlanCronExpression_zero low _ _).bind fun _ => same_ajaxOutJsonResult _ _

theorem same_fileUpLoad (untouched : ¬ ActionMethod.Touches app s₀.session req .fileUpLoad) :
    Keeps (Same s₀) (JobPlanAction.fileUpLoad app env req) := by
  unfold JobPlanAction.fileUpLoad
  split
  · exact same_showList
  next clusterID cluster =>
    split
    · exact same_showList
    next named =>
      split
      · exact same_showList
      next items parts =>
        refine Keeps.bind (Keeps.catching (Keeps.forM fun item member => ?_) fun _ _ => Keeps.pure _)
          fun _ => same_showList
        apply same_uploadItem
        intro submits
        exact untouched ⟨clusterID, items, cluster, by simpa using named, parts, item, member, submits⟩

theorem same_add (untouched : ¬ ActionMethod.Touches app s₀.session req .add) :
    Keeps (Same s₀) (PlanSubscribeAction.add env req) := by
  unfold PlanSubscribeAction.add
  split
  · exact same_ajaxOutJsonResult _ _
  next clusterID cluster =>
    dsimp only
    split
    · exact same_ajaxOutJsonResult _ _
    next named =>
      split
      · exact same_ajaxOutJsonResult _ _
      next addressed =>
        refine (untouched ⟨by rw [cluster]; simpa using named, ?_⟩).elim
        unfold PlanSubscribeAction.address at addressed
        by_contra blank
        rw [not_or, Bool.not_eq_false, Bool.not_eq_false] at blank
        rw [if_pos blank.1, if_pos blank.2] at addressed
        exact addressed rfl

theorem same_withIDs {missing : String} {operation : List Int → WebM Unit}
    (low : ¬ NamesRows (req.getParameter "ids"))
    (idle : ∀ ids : List Int, (∀ n ∈ ids, ¬ 0 < n) → Keeps (Same s₀) (operation ids)) :
    Keeps (Same s₀) (PlanSubscribeAction.withIDs req missing operation) := by
  refine same_askToLogin.bind fun _ => ?_
  split
  · exact same_ajaxOutJsonResult _ _
  next text given =>
    split
    · exact same_ajaxOutJsonResult _ _
    next filled =>
      split
      · exact Keeps.throw _
      next ids read =>
        apply idle
        intro n member positive
        rw [given] at low
        exact low ⟨by simpa using filled, ids, n, read, member, positive⟩

/-- A method that is not asked for anything it acts on leaves everything alone; what `index`
does is up to the page. -/
theorem same_invoke (forward : HttpServletRequest → String → WebM Unit) {method : ActionMethod}
    (shows : method ≠ .index)
    (untouched : ¬ method.Touches app s₀.session req) : Keeps (Same s₀) (method.invoke app env forward req) := by
  -- what a method needs to touch anything is what the request lacks here
  cases method with
  | doPost => exact Keeps.throw _
  | output => exact Keeps.pure _
  | display path =>
    refine same_request.bind fun n => ?_
    split
    · exact same_answer _
    · exact Keeps.throw _
  | index => exact (shows rfl).elim
  | edit => exact same_edit untouched
  | pauseJob =>
    unfold ActionMethod.invoke JobPlanAction.pauseJob
    apply same_operate
    exact same_integerOf untouched fun n low => pauseJob_zero low
  | resumeJob =>
    unfold ActionMethod.invoke JobPlanAction.resumeJob
    apply same_operate
    exact same_integerOf untouched fun n low => resumeJob_zero low
  | executorQJob =>
    unfold ActionMethod.invoke JobPlanAction.executorQJob
    apply same_operate
    exact Keeps.catching (same_integerOf untouched fun n low => executeQJob_zero low) fun _ _ => Keeps.pure _
  | executorXJob =>
    unfold ActionMethod.invoke JobPlanAction.executorXJob
    apply same_operate
    -- a job started by hand goes to the engine, not to the tables of the web
    refine Keeps.catching ((same_integer _).bind fun n => ?_) fun _ _ => Keeps.pure _
    unfold JobPlanService.executeJobPlanNode
    split
    · exact Keeps.pure _
    · exact Keeps.catching (same_onEngine (idle_executeJobPlanNode _ _ _)) fun _ _ => Keeps.pure _
  | deleteJobPlan => exact same_deleteJobPlan untouched
  | fileUpLoad => exact same_fileUpLoad untouched
  | add => exact same_add untouched
  | del =>
    refine same_withIDs untouched fun ids low => (same_deleteJobPlanSubscribeByID low).bind fun done => ?_
    split
    · exact same_ajaxOutJsonResult _ _
    · exact same_ajaxOutJsonResult _ _
  | changeState =>
    refine same_withIDs untouched fun ids low => ?_
    refine Keeps.catching ?_ fun _ _ => same_ajaxOutJsonResult _ _
    exact (same_changeJobPlanSubscribeState low _).bind fun _ => same_ajaxOutJsonResult _ _

end Frames

end Hella

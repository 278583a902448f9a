import Hella.Web.Frames
import Hella.Control.CalmSteps

/-!
# What an action does to a request it acts on

When nothing fails, for each method and each request it acts on there are states that it
changes: a plan or a subscription is there under the key of the request.
-/
namespace Hella

open Exec Text WebSystem

/-- Nothing fails. -/
structure WebEnv.Calm (env : WebEnv) : Prop where
  plans : env.plans.Calm
  engine : ∀ n, env.engine.daoSucceeds n = true
  room : 0 < env.engine.stackDepth
  succeeds : ∀ n, env.succeeds n = true

def WebEnv.calm (forwardDepth : Nat) : WebEnv := ⟨.calm, .calm, fun _ _ _ => true, fun _ => true, forwardDepth⟩

theorem WebEnv.calm_calm (forwardDepth : Nat) : (WebEnv.calm forwardDepth).Calm :=
  ⟨PlanEnv.calm_calm, fun _ => rfl, Nat.succ_pos _, fun _ => rfl⟩

/-! ### Keys -/

theorem IsKey.not_blank {key : Option String} (isKey : IsKey key) : isBlank key = false := by
  obtain ⟨n, read, -⟩ := isKey
  obtain ⟨text, rfl, read⟩ := Option.bind_eq_some_iff.mp read
  exact not_blank_of_integer read

/-- The key of a row is read from the text. -/
theorem IsKey.integerOf {key : Option String} (isKey : IsKey key) :
    ∃ n : Nat, n ≠ 0 ∧ Hella.integerOf key = pure (n : Int) := by
  obtain ⟨n, read, positive⟩ := isKey
  refine ⟨n.toNat, by omega, ?_⟩
  have same : (n.toNat : Int) = n := by omega
  simp only [Hella.integerOf, read, same]

/-! ### One stored plan -/

/-- The tables with one plan and its nodes. -/
def PlanTables.one (row : PlanEntity) (nodes : List JobPlanNode) : PlanTables where
  jobExecutionPlans := [row]
  jobPlanNodes := nodes
  lastJobExecutionPlanID := row.id
  lastJobPlanNodeID := nodes.length

theorem PlanTables.byID?_one {row : PlanEntity} {nodes : List JobPlanNode} (real : row.id ≠ 0) :
    (PlanTables.one row nodes).byID? row.id = some row := by
  simp [PlanTables.byID?, PlanTables.selectJobExecutionPlan, PlanTables.one, real, isBlank]

section Services

variable {app : WebApp} {env : WebEnv} (calm : env.Calm) {s : WebSystem} {row : PlanEntity} {nodes : List JobPlanNode}

theorem returns_onPlans {α : Type} {body : PlanM α} {Q : α → PlanSystem → Prop} (returns : Returns body s.plans Q) :
    Returns (onPlans body) s fun a u => ∃ p, u = { s with plans := p } ∧ Q a p := returns.zoom

include calm

theorem loadJobExecutionPlan_calm {p : PlanSystem} {id : Nat} (stored : p.tables.byID? id = some row) :
    Returns (JobPlanService.loadJobExecutionPlan env id) p fun found q =>
      found = some { row with jobPlanNodeList := p.tables.loadNodes id } ∧ p.Leaves p.tables p.quartz q := by
  refine (queryJobPlanByID_calm calm.plans id).bind fun found q ⟨same, left_⟩ => ?_
  rw [stored] at same
  subst same
  refine ⟨_, _, (bind_ok (daoCall_calm calm.plans q)).trans (bind_ok (daoCall_calm calm.plans _)), ?_, ?_⟩
  · rw [← left_.tables]
  · exact ⟨left_.tables, left_.quartz, left_.started⟩

theorem pauseJob_calm {n : Nat} (stored : s.plans.tables.byID? n = some row) :
    Returns (JobPlanService.pauseJob env n) s fun _ u =>
      u.plans.tables = s.plans.tables.updateState row.id none .disable := by
  refine (returns_onPlans (Q := fun _ p => p.tables = s.plans.tables.updateState row.id none .disable) ?_).conseq ?_
  · refine (Returns.catching (loadJobExecutionPlan_calm calm stored)).bind fun found p ⟨same, left_⟩ => ?_
    subst same
    refine (pauseJobExecutionPlan_calm calm.plans _).conseq fun _ q left' => ?_
    rw [left'.tables, left_.tables]
  · rintro _ _ ⟨p, rfl, tables⟩
    exact tables

theorem resumeJob_calm {n : Nat} (stored : s.plans.tables.byID? n = some row) :
    Returns (JobPlanService.resumeJob env n) s fun _ u =>
      u.plans.tables = s.plans.tables.updateState n none .able := by
  refine (returns_onPlans (resumeJobExecutionPlan_calm calm.plans n)).conseq ?_
  rintro _ _ ⟨p, rfl, left_⟩
  rw [stored] at left_
  exact left_.tables

theorem queryJobPlanState_calm {n : Nat} (stored : s.plans.tables.byID? n = some row) :
    Returns (JobPlanService.queryJobPlanState env n) s fun state u =>
      state = some row.state ∧ u.plans.tables = s.plans.tables := by
  refine (returns_onPlans (queryJobPlanByID_calm calm.plans n)).bind ?_
  rintro found _ ⟨p, rfl, same, left_⟩
  refine Returns.pure ⟨?_, left_.tables⟩
  rw [same, stored]
  rfl

theorem delJobExecutionPlan_calm {n : Nat} (stored : s.plans.tables.byID? n = some row) :
    Returns (JobPlanService.delJobExecutionPlan env n) s fun _ u =>
      u.plans.tables = s.plans.tables.deletePlan row.id := by
  refine (returns_onPlans (deleteJobExecutionPlanByID_calm calm.plans n)).conseq ?_
  rintro _ _ ⟨p, rfl, left_⟩
  rw [stored] at left_
  exact left_.tables

/-- The row has its new schedule whether or not Quartz takes it. -/
theorem changeJobExecutionPlanCronExpression_calm {n : Nat} (stored : s.plans.tables.byID? n = some row)
    (cronType : CronType) (cronExpression : String) :
    (after (JobPlanService.changeJobExecutionPlanCronExpression env n cronType cronExpression s)).plans.tables =
      s.plans.tables.updateJobPlanCronExpression n cronType cronExpression := by
  -- both calls reach the database; whatever the scheduler does later leaves the rows alone
  obtain ⟨found, _, read, p, rfl, same, left_⟩ := returns_onPlans (queryJobPlanByID_calm (s := s.plans) calm.plans n)
  rw [stored] at same
  subst same
  obtain ⟨_, _, written, q, rfl, left'⟩ := returns_onPlans (s := { s with plans := p })
    (updates calm.plans (·.updateJobPlanCronExpression n cronType cronExpression))
  unfold JobPlanService.changeJobExecutionPlanCronExpression
  rw [Int.toNat_natCast, bind_ok read]
  dsimp only
  rw [bind_ok written]
  have asks : Keeps (fun u : WebSystem => u.plans.tables = q.tables)
      -- asking the scheduler throws, or changes only its jobs
      (JobPlanService.updateJob env row.qJobName cronType cronExpression) := by
    refine Keeps.getting.bind fun u => ?_
    split
    · exact Keeps.pure _
    · exact Keeps.pure _
    · split
      · exact Keeps.bind (Keeps.modifying fun _ tables => tables) fun _ => Keeps.pure _
      · exact Keeps.pure _
  have ends : Keeps (fun u : WebSystem => u.plans.tables = q.tables) (do
      if ← JobPlanService.updateJob env row.qJobName cronType cronExpression then pure ()
      else throw (.exception "Fail to update job cron express for quartz!")) := by
    refine asks.bind fun done => ?_
    split
    · exact Keeps.pure _
    · exact Keeps.throw _
  refine (ends.after rfl).trans ?_
  rw [left'.tables, left_.tables]

end Services

/-! ### Workflows -/

/-- A start node that leads to an end node. -/
def bareNodes (jobExecutionPlanID : Nat) : List JobPlanNode :=
  [{ JobPlanNode.plain with id := 1, jobExecutionPlanID := jobExecutionPlanID },
   { JobPlanNode.plain with
     id := 2, jobExecutionPlanID := jobExecutionPlanID, name := "end", type := .end_, toNode := none }]

theorem loadNodes_bare (row : PlanEntity) : (PlanTables.one row (bareNodes row.id)).loadNodes row.id =
    bareNodes row.id := by
  simp [PlanTables.loadNodes, PlanTables.one, bareNodes, PlanTables.xjobMetaOf, JobPlanNode.plain]

theorem bareNodes_accepted (id : Nat) : addNode (bareNodes id) [] false = .ok () := by
  simp [bareNodes, addNode, JobPlanNode.plain]

section Start

variable {env : Env} (dao : ∀ n, env.daoSucceeds n = true) (room : 0 < env.stackDepth) {e : Engine}
  {plan : JobExecutionPlan}

theorem onInstance_returns {n : Nat} {i : Instance} {body : Workflow → RunM Unit} (there : e.instances[n]? = some i)
    (returns : Returns (body i.workflow) (i.run e.store) fun _ _ => True) :
    Returns (Engine.onInstance n body) e fun _ _ => True := by
  obtain ⟨_, run, returned, -⟩ := returns
  refine ⟨(), e.save n i run, ?_, trivial⟩
  unfold Engine.onInstance
  rw [there]
  dsimp only
  rw [returned]

include dao

theorem loadJobExecutionPlan_returns {id : Nat} (real : id ≠ 0) (stored : e.store.jobPlan? id = some plan) :
    Returns (Engine.onShared (Store.loadJobExecutionPlan env id)) e fun found f =>
      found = some plan ∧ f = { e with store := { e.store with tick := e.store.tick + 3 } } := by
  -- three calls: the row, its nodes, its jobs
  have called (s : Store) : Store.daoCall env s = .ok () { s with tick := s.tick + 1 } := by
    rw [Store.daoCall_apply, dao, if_pos rfl]
  have queried (s : Store) (same : s.jobPlan? id = some plan) : Store.queryJobPlan env id s =
      .ok (some { plan with jobPlanNodeList := [] }) { s with tick := s.tick + 1 } := by
    unfold Store.queryJobPlan
    rw [if_neg real, bind_ok (called s)]
    change EStateM.Result.ok ((s.jobPlan? id).map _) _ = _
    rw [same]
    rfl
  have loaded : Store.loadJobExecutionPlan env id e.store =
    .ok (some plan) { e.store with tick := e.store.tick + 3 } := by
    unfold Store.loadJobExecutionPlan
    rw [bind_ok (queried _ stored)]
    dsimp only
    rw [bind_ok (called _), bind_ok (called _)]
    change EStateM.Result.ok (some { plan with jobPlanNodeList :=
      ((e.store.jobPlan? id).map JobExecutionPlan.jobPlanNodeList).getD [] }) _ = _
    rw [stored]
    rfl
  refine ⟨some plan, _, ?_, rfl, rfl⟩
  unfold Engine.onShared zoom
  rw [loaded]

include room

theorem steady_bare {wf : Workflow} {id : Nat} (nodes : wf.jobExecutionPlan.jobPlanNodeList = bareNodes id) :
    Steady env wf := by
  have member : ∀ {name node}, wf.getNode name = some node → 
      (node.type = .start ∧ node.name = "start" ∧ node.toNode = some "end") ∨ node.type = .end_ := by
    intro name node found
    have inside : node ∈ bareNodes id := nodes ▸ List.mem_of_find?_eq_some found
    simp only [bareNodes, JobPlanNode.plain, List.mem_cons, List.not_mem_nil, or_false] at inside
    rcases inside with rfl | rfl
    · exact .inl ⟨rfl, rfl, rfl⟩
    · exact .inr rfl
  refine ⟨dao, ?_, ?_, ?_⟩
  · intro name node found type
    rcases member found with ⟨other, -⟩ | other <;> simp [type] at other
  · intro name node found type
    rcases member found with ⟨other, -⟩ | other <;> simp [type] at other
  · intro name node found passing
    obtain ⟨depth, deep⟩ := Nat.exists_eq_succ_of_ne_zero room.ne'
    rw [deep]
    intro node' found' next leads after found'' passing'
    rw [found] at found'
    cases found'
    -- the start node is the only one that is passed, and it leads to the end node
    rcases member found with ⟨start, -, onward⟩ | end_
    · have same : next = "end" := Option.some.inj ((leads.2 (by simp [start])).symm.trans onward)
      rcases member found'' with ⟨-, name', -⟩ | end_
      · rw [Workflow.getNode_name found'', same] at name'
        simp at name'
      · simp [end_, JobPlanNodeType.isFinalType] at passing'
    · simp [end_, JobPlanNodeType.isFinalType] at passing

theorem start_bare {wf : Workflow} {id : Nat}
    (nodes : wf.jobExecutionPlan.jobPlanNodeList = bareNodes id) {store : Store}
    (sound : store.Sound) : Returns (start env wf) { store := store } fun _ _ => True := by
  have found : wf.workflowManager.getStartNodeName = some "start" := by
    unfold LiteWorkflowManager.getStartNodeName
    rw [show wf.workflowManager.jobExecutionPlan.jobPlanNodeList = bareNodes id from nodes]
    simp [bareNodes, JobPlanNode.plain]
  exact (start_calms (steady_bare dao room nodes) sound rfl found).conseq fun _ _ _ => trivial

/-- The instance is registered under its key. -/
theorem startJobPlan_registers {id : Nat} (real : id ≠ 0) (stored : e.store.jobPlan? id = some plan)
    (nodes : plan.jobPlanNodeList = bareNodes id) (sound : e.store.Sound) (args : Option String) :
    Returns (Engine.startJobPlan env id args) e fun _ f => f.store.workflowsMap ≠ ∅ := by
  unfold Engine.startJobPlan
  refine (loadJobExecutionPlan_returns dao real stored).bind ?_
  rintro _ _ ⟨rfl, rfl⟩
  dsimp only
  -- a plan of bare nodes is one the workflow manager accepts
  split
  next rejected =>
    rw [nodes, bareNodes_accepted] at rejected
    cases rejected
  next accepted =>
    -- the key of the run, then the place of the instance, then its start
    refine .bind (Q := fun _ f => f = _) ⟨_, _, rfl, rfl⟩ ?_
    rintro key _ rfl
    refine .bind (Q := fun n f => n = e.instances.length ∧ f = _) ⟨_, _, rfl, rfl, rfl⟩ ?_
    rintro _ _ ⟨rfl, rfl⟩
    let workflow : Workflow := { workflowManager := ⟨plan, accepted⟩, engineRunKey := key, args := args }
    refine .bind (Q := fun _ _ => True) ?_ fun _ f _ => ?_
    · apply onInstance_returns List.getElem?_concat_length
      exact @start_bare env dao room workflow id nodes _ ⟨sound.distinct, sound.known⟩
    -- the instance is entered in the map last
    · refine ⟨_, _, rfl, fun empty => ?_⟩
      have found : (f.store.workflowsMap.insert workflow.getWorkflowKey e.instances.length).lookup
        workflow.getWorkflowKey =
          some e.instances.length := AList.lookup_insert _
      change f.store.workflowsMap.insert workflow.getWorkflowKey e.instances.length = ∅ at empty
      rw [empty] at found
      cases found

end Start

/-! ### Uploads -/

theorem last_insertNodes (id : Nat) (nodes : List JobPlanNode) (t : PlanTables) :
    (nodes.foldl (PlanTables.insertNode id) t).lastJobExecutionPlanID = t.lastJobExecutionPlanID := by
  refine List.foldlRecOn nodes _ (motive := fun (u : PlanTables) => u.lastJobExecutionPlanID = t.lastJobExecutionPlanID)
    rfl
    fun u same node _ => ?_
  rw [← same]
  unfold PlanTables.insertNode
  dsimp only
  split <;> rfl

theorem last_replacePlan (clusterId : String) (t : PlanTables) (jep : PlanEntity) :
    (t.replacePlan clusterId jep).lastJobExecutionPlanID = t.lastJobExecutionPlanID + 1 := by
  have cleared : (t.cleared clusterId jep.jepID).lastJobExecutionPlanID = t.lastJobExecutionPlanID := by
    unfold PlanTables.cleared
    split <;> rfl
  rw [PlanTables.replacePlan, PlanTables.insertPlan, last_insertNodes, ← cleared]
  rfl

theorem last_replacePlans (clusterId : String) (jeps : List PlanEntity) (t : PlanTables) :
    (jeps.foldl (PlanTables.replacePlan clusterId) t).lastJobExecutionPlanID =
      t.lastJobExecutionPlanID + jeps.length := by
  induction jeps generalizing t with
  | nil => rfl
  | cons jep jeps ih =>
    rw [List.foldl_cons, ih, last_replacePlan, List.length_cons]
    omega

section Uploads

variable {app : WebApp} {env : WebEnv} (calm : env.Calm) {s : WebSystem} {clusterID : String}

include calm

theorem isJobPlansExist_calm {ids : List String} (some_ : ids ≠ []) :
    JobPlanService.isJobPlansExist app env ids s =
      (match app.isJobPlansExist ids (s.plans.tables.jobExecutionPlans.map (·.jepID)) with
        | none => throw .daoException
        | some exist => pure exist : WebM Bool) { s with plans := { s.plans with tick := s.plans.tick + 1 } } := by
  have asked : onPlans (PlanSystem.daoCall env.plans) s =
      .ok () { s with plans := { s.plans with tick := s.plans.tick + 1 } } := by
    unfold onPlans zoom
    rw [daoCall_calm calm.plans]
  have given : ids.isEmpty = false := by simpa using some_
  unfold JobPlanService.isJobPlansExist
  rw [given, if_neg Bool.false_ne_true, bind_ok asked]
  rfl

theorem exists_calm {ids : List String} {exist : Bool} (some_ : ids ≠ [])
    (counted : app.isJobPlansExist ids (s.plans.tables.jobExecutionPlans.map (·.jepID)) = some exist) :
    Returns (JobPlanService.isJobPlansExist app env ids) s fun answer t =>
      answer = exist ∧ t.plans.tables = s.plans.tables := by
  refine ⟨exist, { s with plans := { s.plans with tick := s.plans.tick + 1 } }, ?_, rfl, rfl⟩
  rw [isJobPlansExist_calm calm some_, counted]
  rfl

/-- A submission that is not let in is answered without a change. -/
theorem refused_calm {content : String} (refused : ¬ LetsIn app clusterID content
      (s.plans.tables.jobExecutionPlans.map (·.jepID))) :
    Returns (JobPlanAction.guarded (JobPlanService.submitJobPlan app env clusterID content)) s fun _ u =>
      u.plans.tables = s.plans.tables := by
  unfold JobPlanAction.guarded JobPlanService.submitJobPlan
  -- three refusals: a text that is no plan, an empty list, and a count that fails or finds something
  cases read : app.jobPlans clusterID content with
  | none => exact .caught rfl rfl (.pure rfl)
  | some plans =>
    by_cases none_ : plans = []
    · subst none_
      apply Returns.catching
      refine .bind (Q := fun _ t => t = { s with tick := s.tick + 1 }) ⟨_, _, rfl, rfl⟩ ?_
      rintro n _ rfl
      refine .bind (Q := fun exist t => exist = false ∧ t = { s with tick := s.tick + 1 }) ⟨_, _, rfl, rfl, rfl⟩ ?_
      rintro _ _ ⟨rfl, rfl⟩
      refine (returns_onPlans (register_empty (by rfl))).conseq ?_
      rintro answer _ ⟨p, rfl, -, left_⟩
      exact left_.tables
    · have some_ : plans.map (·.jepID) ≠ [] := by simpa using none_
      -- the count is made from the stored plans, so it is known before the call
      cases counted : app.isJobPlansExist (plans.map (·.jepID)) (s.plans.tables.jobExecutionPlans.map (·.jepID)) with
      | none =>
        have asked : WebSystem.request s = .ok s.tick { s with tick := s.tick + 1 } := rfl
        have thrown : ∃ t, JobPlanService.isJobPlansExist app env (plans.map (·.jepID)) { s with tick := s.tick + 1 } =
            .error .daoException t ∧ t.plans.tables = s.plans.tables := by
          refine ⟨{ s with tick := s.tick + 1, plans := { s.plans with tick := s.plans.tick + 1 } }, ?_, rfl⟩
          rw [isJobPlansExist_calm calm some_, counted]
          rfl
        obtain ⟨t, thrown, left_⟩ := thrown
        exact .caught ((bind_ok asked).trans (bind_error thrown)) rfl (.pure left_)
      | some exist =>
        cases exist with
        | false => exact (refused ⟨plans, read, none_, counted⟩).elim
        | true =>
          apply Returns.catching
          refine .bind (Q := fun _ t => t = { s with tick := s.tick + 1 }) ⟨_, _, rfl, rfl⟩ ?_
          rintro n _ rfl
          exact (exists_calm calm (s := { s with tick := s.tick + 1 }) some_ counted).bind
            fun exist t ⟨same, left_⟩ => by
            subst same
            exact .pure left_

/-- A submission that is let in is stored under new keys. -/
theorem accepted_calm (named : isBlank (some clusterID) = false) {content : String}
    (letsIn : LetsIn app clusterID content
      (s.plans.tables.jobExecutionPlans.map (·.jepID))) :
    Returns (JobPlanAction.guarded (JobPlanService.submitJobPlan app env clusterID content)) s fun _ u =>
      s.plans.tables.lastJobExecutionPlanID < u.plans.tables.lastJobExecutionPlanID := by
  obtain ⟨plans, read, some_, free⟩ := letsIn
  apply Returns.catching
  unfold JobPlanService.submitJobPlan
  rw [read]
  refine .bind (Q := fun _ t => t = { s with tick := s.tick + 1 }) ⟨_, _, rfl, rfl⟩ ?_
  rintro n _ rfl
  have ids : plans.map (·.jepID) ≠ [] := by simpa using some_
  refine (exists_calm calm (s := { s with tick := s.tick + 1 }) ids free).bind fun exist t ⟨same, left_⟩ => ?_
  subst same
  have given : plans.map ({ · with createDate := env.engine.now n }) ≠ [] := by simpa using some_
  refine (returns_onPlans (register_calm calm.plans named given)).conseq ?_
  rintro answer _ ⟨p, rfl, -, left'⟩
  have positive : 0 < plans.length := List.length_pos_iff.mpr some_
  change s.plans.tables.lastJobExecutionPlanID < p.tables.lastJobExecutionPlanID
  rw [left'.tables, last_replacePlans, left_, List.length_map]
  exact Nat.lt_add_of_pos_right positive

theorem uploadItem_calm (named : isBlank (some clusterID) = false) (item : FileItem) :
    Returns (JobPlanAction.uploadItem app env clusterID item) s fun _ u =>
      (u.plans.tables = s.plans.tables ∧ ¬ (JobPlanAction.isJobPlanFile item = true ∧
        app.validateXMLByXSD item.content = true ∧
        LetsIn app clusterID item.content (s.plans.tables.jobExecutionPlans.map (·.jepID)))) ∨
      s.plans.tables.lastJobExecutionPlanID < u.plans.tables.lastJobExecutionPlanID := by
  unfold JobPlanAction.uploadItem
  split
  next file =>
    refine .bind (Q := fun n t => t = { s with tick := s.tick + 1 }) ⟨_, _, rfl, rfl⟩ ?_
    rintro n _ rfl
    rw [calm.succeeds, if_pos rfl]
    split
    next valid =>
      by_cases letsIn : LetsIn app clusterID item.content (s.plans.tables.jobExecutionPlans.map (·.jepID))
      · refine (accepted_calm calm (s := { s with tick := s.tick + 1 }) named letsIn).bind fun _ u more => ?_
        exact .pure (.inr more)
      · refine (refused_calm calm (s := { s with tick := s.tick + 1 }) letsIn).bind fun _ u left_ => ?_
        exact .pure (.inl ⟨left_, fun all => letsIn all.2.2⟩)
    next invalid => exact .pure (.inl ⟨rfl, fun all => invalid all.2.1⟩)
  next other => exact .pure (.inl ⟨rfl, fun all => other all.1⟩)

/-- The first part that is let in gets its plans new keys, and keys are never given back. -/
theorem uploadItems_calm (named : isBlank (some clusterID) = false) (items : List FileItem) :
    Returns (items.forM (JobPlanAction.uploadItem app env clusterID)) s fun _ u =>
      (u.plans.tables = s.plans.tables ∧ ∀ item ∈ items, ¬ (JobPlanAction.isJobPlanFile item = true ∧
        app.validateXMLByXSD item.content = true ∧
        LetsIn app clusterID item.content (s.plans.tables.jobExecutionPlans.map (·.jepID)))) ∨
      s.plans.tables.lastJobExecutionPlanID < u.plans.tables.lastJobExecutionPlanID := by
  induction items generalizing s with
  | nil => exact .pure (.inl ⟨rfl, nofun⟩)
  | cons item items ih =>
    refine (uploadItem_calm calm named item).bind fun _ t head => ih.conseq fun _ u tail => ?_
    rcases head with ⟨same, refused⟩ | more
    · rw [same] at tail
      rcases tail with ⟨same', others⟩ | more
      · refine .inl ⟨same', fun other member => ?_⟩
        rcases List.mem_cons.mp member with rfl | inside
        · exact refused
        · exact others other inside
      · exact .inr more
    · right
      rcases tail with ⟨same', -⟩ | more'
      · rw [same']
        exact more
      · exact more.trans more'

end Uploads

/-! ### Methods -/

section Methods

variable {app : WebApp} {env : WebEnv} {req : HttpServletRequest} {s s₀ : WebSystem}

/-- An answer hides no change. -/
theorem returns_answer {a : HttpResponse} (changed : ¬ Unchanged s₀ s) : Returns (answer a) s fun _ u =>
    ¬ Unchanged s₀ u :=
  ⟨(), _, rfl, fun same => changed { same with }⟩

theorem unchanged_of_answered {x : WebM Unit} {a b : HttpResponse}
    (same : Unchanged s₀ (after (catching Throwable.isException (do x; answer a) (fun _ => answer b) s))) :
    Unchanged s₀ (after (x s)) := by
  unfold catching at same
  rw [bind_apply] at same
  cases ended : x s with
  | ok _ t =>
    rw [ended] at same
    exact { same with }
  | error e t =>
    rw [ended] at same
    dsimp only at same
    split at same
    · exact { same with }
    · exact same

theorem returns_askToLogin : Returns JobPlanAction.askToLogin s fun _ u =>
    ∃ answers, u = { s with answers := answers } := by
  refine .reading ?_
  split
  · exact ⟨(), _, rfl, _, rfl⟩
  · exact .pure ⟨s.answers, rfl⟩

theorem operate_changes {parameter failure : String} {operation : Option String → WebM Bool}
    (isKey : IsKey (req.getParameter parameter)) (changes : ∀ answers,
      Returns (operation (req.getParameter parameter)) { s with answers := answers } fun _ u => ¬ Unchanged s₀ u) :
    Returns (JobPlanAction.operate req parameter failure operation) s fun _ u => ¬ Unchanged s₀ u := by
  refine returns_askToLogin.bind ?_
  rintro _ _ ⟨answers, rfl⟩
  dsimp only
  rw [isKey.not_blank, if_neg Bool.false_ne_true]
  refine (changes answers).bind fun done u changed => ?_
  split
  · exact returns_answer changed
  · exact returns_answer changed

/-- A plan with the key, in the given state. -/
def rowAt (id : Nat) (state : PlanState) (cronExpression : String) : PlanEntity :=
  { PlanEntity.plain "p" "a" with id := id, state := state, cronExpression := cronExpression }

/-- The only plan is the row. -/
def storedAt (session : HttpSession) (row : PlanEntity) : WebSystem :=
  { session := session, plans := { tables := .one row (bareNodes row.id) } }

theorem rows_changed {row : PlanEntity} {session : HttpSession} {u : WebSystem}
    (rows : u.plans.tables.jobExecutionPlans ≠ [row]) : ¬ Unchanged (storedAt session row) u := by
  intro same
  apply rows
  rw [same.tables]
  rfl

/-- A user with all the parameters gets as far as the change. -/
theorem edit_apply {n : Nat} {cronType : CronType} (user : s.session.userName ≠ none)
    (given : req.getParameter "jobExecutionPlanID" ≠ none)
    (read : integerOf (req.getParameter "jobExecutionPlanID") = pure (n : Int)) (real : n ≠ 0)
    (type : CronType.valueOf (req.getParameter "cronType") = some cronType)
    (filled : isBlank (req.getParameter "cronExpression") = false) :
    JobPlanAction.edit env req s = catching Throwable.isException
      (do
        JobPlanService.changeJobExecutionPlanCronExpression env n cronType (orNull (req.getParameter "cronExpression"))
        ajaxOutJsonResult true "操作成功")
      (fun _ => ajaxOutJsonResult false "操作失败,请联系管理员") s := by
  unfold JobPlanAction.edit
  rw [bind_ok (get_apply s), if_neg user, if_neg given, read, pure_bind, type]
  dsimp only
  rw [if_neg (by omega), if_neg (by rw [filled]; exact Bool.false_ne_true)]

variable (calm : env.Calm) {session : HttpSession} {forward : HttpServletRequest → String → WebM Unit}
include calm

theorem pauseJob_changes (isKey : IsKey (req.getParameter "jobExecutionPlanID")) :
    ∃ s₀ : WebSystem, s₀.session = session ∧
    ∀ k, ¬ Unchanged s₀ (after (JobPlanAction.pauseJob env req { s₀ with tick := k })) := by
  obtain ⟨n, real, read⟩ := isKey.integerOf
  refine ⟨storedAt session (rowAt n .able ""), rfl, fun k => (operate_changes isKey fun answers => ?_).after⟩
  dsimp only
  rw [read, pure_bind]
  have stored : (PlanTables.one (rowAt n .able "") (bareNodes n)).byID? n = some (rowAt n .able "") :=
    PlanTables.byID?_one real
  refine (pauseJob_calm calm stored).conseq fun _ u tables => ?_
  apply rows_changed
  rw [tables]
  simp [storedAt, PlanTables.one, PlanTables.updateState, rowAt, PlanEntity.plain, isBlank]

theorem resumeJob_changes (isKey : IsKey (req.getParameter "jobExecutionPlanID")) :
    ∃ s₀ : WebSystem, s₀.session = session ∧
    ∀ k, ¬ Unchanged s₀ (after (JobPlanAction.resumeJob env req { s₀ with tick := k })) := by
  obtain ⟨n, real, read⟩ := isKey.integerOf
  refine ⟨storedAt session (rowAt n .disable ""), rfl, fun k => (operate_changes isKey fun answers => ?_).after⟩
  dsimp only
  rw [read, pure_bind]
  have stored : (PlanTables.one (rowAt n .disable "") (bareNodes n)).byID? n = some (rowAt n .disable "") :=
    PlanTables.byID?_one real
  refine (resumeJob_calm calm stored).conseq fun _ u tables => ?_
  apply rows_changed
  rw [tables]
  simp [storedAt, PlanTables.one, PlanTables.updateState, rowAt, PlanEntity.plain, isBlank]

/-- No workflow is running, and then one has been started. -/
theorem executorQJob_changes (isKey : IsKey (req.getParameter "jobExecutionPlanID")) :
    ∃ s₀ : WebSystem, s₀.session = session ∧
    ∀ k, ¬ Unchanged s₀ (after (JobPlanAction.executorQJob env req { s₀ with tick := k })) := by
  obtain ⟨n, real, read⟩ := isKey.integerOf
  let row := rowAt n .able ""
  refine ⟨storedAt session row, rfl, fun k => (operate_changes isKey fun answers => ?_).after⟩
  apply Returns.catching
  dsimp only
  rw [read, pure_bind]
  apply Returns.catching
  let e : Engine := (storedAt session row).withPlans
  have stored : e.store.jobPlan? n = some { row.toJobExecutionPlan with jobPlanNodeList := bareNodes n } := by
    change (PlanTables.one row (bareNodes row.id)).jobPlans.find? _ = _
    have plans : (PlanTables.one row (bareNodes row.id)).jobPlans =
        [{ row.toJobExecutionPlan with jobPlanNodeList := (PlanTables.one row (bareNodes row.id)).loadNodes row.id }] :=
          rfl
    rw [plans, loadNodes_bare]
    exact List.find?_cons_of_pos (by simp [row, rowAt])
  have started := startJobPlan_registers calm.engine calm.room real stored rfl ⟨List.nodup_nil, nofun⟩ none
  refine .bind (Returns.zoom started) ?_
  rintro _ _ ⟨f, rfl, registered⟩
  refine .pure fun same => ?_
  exact registered same.workflowsMap

/-- A plan that is not able is deleted. -/
theorem deleteJobPlan_changes (isKey : IsKey (req.getParameter "jobPlanID")) : ∃ s₀ : WebSystem, s₀.session = session ∧
    ∀ k, ¬ Unchanged s₀ (after (JobPlanAction.deleteJobPlan env req { s₀ with tick := k })) := by
  obtain ⟨n, real, read⟩ := isKey.integerOf
  let row := rowAt n .disable ""
  -- the plan must be disabled, since an enabled one is refused
  refine ⟨storedAt session row, rfl, fun k => ?_⟩
  refine Returns.after (Q := fun u => ¬ Unchanged (storedAt session row) u) ?_
  refine returns_askToLogin.bind ?_
  rintro _ _ ⟨answers, rfl⟩
  dsimp only
  rw [isKey.not_blank, if_neg Bool.false_ne_true]
  apply Returns.catching
  rw [read, pure_bind]
  have stored : (PlanTables.one row (bareNodes n)).byID? n = some row := PlanTables.byID?_one real
  refine Returns.bind (queryJobPlanState_calm calm stored) ?_
  rintro _ t ⟨rfl, tables⟩
  have tables : t.plans.tables = PlanTables.one row (bareNodes n) := tables
  have stored' : t.plans.tables.byID? n = some row := by
    rw [tables]
    exact stored
  refine (delJobExecutionPlan_calm calm stored').bind fun done u deleted => ?_
  have changed : ¬ Unchanged (storedAt session row) u := by
    apply rows_changed
    rw [deleted, tables]
    simp [PlanTables.deletePlan, PlanTables.deleteJobExecutionPlan, PlanTables.deleteJobPlanNode,
      PlanTables.deleteXjobMeta,
      PlanTables.one]
  split
  · exact returns_answer changed
  · exact returns_answer changed

theorem edit_changes (touches : ActionMethod.Touches app session req .edit) : ∃ s₀ : WebSystem, s₀.session = session ∧
    ∀ k, ¬ Unchanged s₀ (after (JobPlanAction.edit env req { s₀ with tick := k })) := by
  obtain ⟨user, isKey, typed, filled⟩ := touches
  obtain ⟨n, real, read⟩ := isKey.integerOf
  obtain ⟨cronType, type⟩ := Option.ne_none_iff_exists'.mp typed
  have given : req.getParameter "jobExecutionPlanID" ≠ none := by
    intro missing
    have blank := isKey.not_blank
    rw [missing] at blank
    cases blank
  let cronExpression := orNull (req.getParameter "cronExpression")
  let row := rowAt n .able (cronExpression ++ " ")
  refine ⟨storedAt session row, rfl, fun k => ?_⟩
  rw [edit_apply (s := { storedAt session row with tick := k }) user given read real type filled]
  intro same
  have stored : (PlanTables.one row (bareNodes n)).byID? n = some row := PlanTables.byID?_one real
  have tables := (unchanged_of_answered same).tables
  rw [changeJobExecutionPlanCronExpression_calm calm stored] at tables
  have expressions : ((PlanTables.one row (bareNodes n)).updateJobPlanCronExpression n cronType
    cronExpression).jobExecutionPlans.map
      (·.cronExpression) = [cronExpression ++ " "] :=
        congrArg (fun t => t.jobExecutionPlans.map (·.cronExpression)) tables
  have longer : cronExpression = cronExpression ++ " " := by
    simpa [PlanTables.one, PlanTables.updateJobPlanCronExpression, row, rowAt] using expressions
  have lengths := congrArg String.length longer
  simp at lengths

/-- Plans are stored under the ids given. -/
def storedUnder (session : HttpSession) (jepIDs : List String) : WebSystem :=
  { session := session, plans := { tables := { jobExecutionPlans := jepIDs.map (.plain · "a") } } }

theorem showList_shows : Returns (JobPlanAction.showList env req) s fun _ u => u.plans = s.plans := by
  unfold JobPlanAction.showList JobPlanAction.index
  refine .bind (Q := fun n t => t = { s with tick := s.tick + 1 }) ⟨_, _, rfl, rfl⟩ ?_
  rintro n _ rfl
  rw [calm.succeeds, if_pos rfl]
  exact ⟨(), _, rfl, rfl⟩

theorem fileUpLoad_changes (touches : ActionMethod.Touches app session req .fileUpLoad) : ∃ s₀ : WebSystem,
    s₀.session = session ∧ ∀ k, ¬ Unchanged s₀
      (after (JobPlanAction.fileUpLoad app env req { s₀ with tick := k })) := by
  obtain ⟨clusterID, items, cluster, named, parts, item, member, file, valid, stored, letsIn⟩ := touches
  let s₀ := storedUnder session stored
  refine ⟨s₀, rfl, fun k => ?_⟩
  refine Returns.after (Q := fun u => ¬ Unchanged s₀ u) ?_
  have ids : s₀.plans.tables.jobExecutionPlans.map (·.jepID) = stored := by
    change (stored.map (PlanEntity.plain · "a")).map (·.jepID) = stored
    rw [List.map_map]
    exact List.map_id _
  unfold JobPlanAction.fileUpLoad
  rw [cluster]
  dsimp only
  rw [named, if_neg Bool.false_ne_true, parts]
  have uploaded := @uploadItems_calm app env calm { s₀ with tick := k } clusterID named items
  refine .bind (Returns.catching uploaded) fun _ u more => (showList_shows calm).conseq fun _ v shown same => ?_
  have tables : u.plans.tables = s₀.plans.tables := by
    rw [← shown]
    exact same.tables
  rcases more with ⟨-, refused⟩ | more
  · exact refused item member ⟨file, valid, ids ▸ letsIn⟩
  · rw [tables] at more
    exact lt_irrefl _ more

/-! ### Subscriptions -/

theorem returns_daoCall : Returns (SysService.daoCall env) s fun _ u => ∃ p, u = { s with plans := p } := by
  refine (returns_onPlans (Q := fun _ _ => True) ⟨_, _, daoCall_calm calm.plans s.plans, trivial⟩).conseq ?_
  rintro _ _ ⟨p, rfl, -⟩
  exact ⟨p, rfl⟩

theorem add_changes (touches : ActionMethod.Touches app session req .add) : ∃ s₀ : WebSystem, s₀.session = session ∧
    ∀ k, ¬ Unchanged s₀ (after (PlanSubscribeAction.add env req { s₀ with tick := k })) := by
  obtain ⟨named, addressed⟩ := touches
  refine ⟨{ session := session }, rfl, fun k => ?_⟩
  refine Returns.after (Q := fun u => ¬ Unchanged { session := session } u) ?_
  unfold PlanSubscribeAction.add
  cases cluster : req.getParameter "clusterID" with
  | none =>
    rw [cluster] at named
    cases named
  | some clusterID =>
    rw [cluster] at named
    -- an address that is blank would be refused
    have reachable : ¬ (isBlank (PlanSubscribeAction.address (req.getParameter "userEmail")) &&
        isBlank (PlanSubscribeAction.address (req.getParameter "userPhoneNumber"))) = true := by
      unfold PlanSubscribeAction.address
      rcases addressed with email | phone
      · simp [email]
      · simp [phone]
    dsimp only
    rw [named, if_neg Bool.false_ne_true, if_neg reachable]
    -- a row is added, and the list was empty before
    have added : Returns (do
        SysService.addJobPlanSubscribe env clusterID (PlanSubscribeAction.address (req.getParameter "userEmail"))
          (PlanSubscribeAction.address (req.getParameter "userPhoneNumber"))
        return true) { ({ session := session } : WebSystem) with tick := k } fun _ u =>
          ¬ Unchanged { session := session } u := by
      unfold SysService.addJobPlanSubscribe
      rw [named, if_neg Bool.false_ne_true]
      refine .bind ((returns_daoCall calm).bind ?_ (R := fun _ u => ¬ Unchanged { session := session } u))
        fun _ u changed => .pure changed
      rintro _ _ ⟨p, rfl⟩
      refine ⟨(), _, rfl, fun same => ?_⟩
      exact List.cons_ne_nil _ _ same.jobPlanSubscribes
    refine (Returns.catching added).bind fun done u changed => ?_
    split
    · exact returns_answer changed
    · exact returns_answer changed

/-- There is one subscription. -/
def subscribedAt (session : HttpSession) (id : ℕ+) (state : Bool) : WebSystem :=
  { session := session
    jobPlanSubscribes := [{ id := id, clusterID := "c", userEmail := none, userPhoneNumber := none, state := state }] }

omit calm in
theorem isIn_of_mem {ids : List Int} {id : ℕ+} (member : (id : Int) ∈ ids) (row : JobPlanSubscribe)
    (same : row.id = id) : SysService.isIn ids row = true := by
  unfold SysService.isIn
  rw [List.contains_eq_mem, decide_eq_true_eq, same]
  exact List.mem_cons_of_mem _ member

omit calm in
/-- The ids are handed to the operation. -/
theorem withIDs_changes {missing : String} {operation : List Int → WebM Unit} {ids : List Int}
    (filled : isBlank (req.getParameter "ids") = false) (read : (req.getParameter "ids").bind subscribeIDs = some ids)
    (changes : ∀ answers, Returns (operation ids) { s with answers := answers } fun _ u => ¬ Unchanged s₀ u) :
    Returns (PlanSubscribeAction.withIDs req missing operation) s fun _ u => ¬ Unchanged s₀ u := by
  refine returns_askToLogin.bind ?_
  rintro _ _ ⟨answers, rfl⟩
  obtain ⟨text, given, read⟩ := Option.bind_eq_some_iff.mp read
  rw [given] at filled ⊢
  dsimp only
  rw [filled, if_neg Bool.false_ne_true, read]
  exact changes answers

theorem del_changes (touches : ActionMethod.Touches app session req .del) : ∃ s₀ : WebSystem, s₀.session = session ∧
    ∀ k, ¬ Unchanged s₀ (after (PlanSubscribeAction.del env req { s₀ with tick := k })) := by
  obtain ⟨filled, ids, n, read, member, positive⟩ := touches
  let id : ℕ+ := ⟨n.toNat, by omega⟩
  have isId : (id : Int) = n := Int.toNat_of_nonneg positive.le
  -- one subscription that is switched on is enough
  let s₀ := subscribedAt session id true
  refine ⟨s₀, rfl, fun k => Returns.after (withIDs_changes filled read fun answers => ?_)⟩
  have some_ : ids.isEmpty = false := by
    rw [List.isEmpty_eq_false_iff]
    exact List.ne_nil_of_mem member
  have deletes : Returns (SysService.deleteJobPlanSubscribeByID env ids)
      { ({ s₀ with tick := k } : WebSystem) with answers := answers } fun _ u => ¬ Unchanged s₀ u := by
    unfold SysService.deleteJobPlanSubscribeByID
    rw [some_, if_neg Bool.false_ne_true]
    apply Returns.catching
    refine (returns_daoCall calm).bind ?_
    rintro _ _ ⟨p, rfl⟩
    refine ⟨_, _, rfl, fun same => ?_⟩
    -- the row is among the ids, so it goes
    have listed : SysService.isIn ids ⟨id, "c", none, none, true⟩ = true := isIn_of_mem (isId ▸ member) _ rfl
    have rows := same.jobPlanSubscribes
    dsimp only [s₀, subscribedAt] at rows
    rw [List.filter_cons_of_neg (by simp [listed])] at rows
    cases rows
  refine deletes.bind fun done u changed => ?_
  split
  · exact returns_answer changed
  · exact returns_answer changed

theorem changeState_changes (touches : ActionMethod.Touches app session req .changeState) : ∃ s₀ : WebSystem,
    s₀.session = session ∧ ∀ k, ¬ Unchanged s₀
      (after (PlanSubscribeAction.changeState env req { s₀ with tick := k })) := by
  obtain ⟨filled, ids, n, read, member, positive⟩ := touches
  let id : ℕ+ := ⟨n.toNat, by omega⟩
  have isId : (id : Int) = n := Int.toNat_of_nonneg positive.le
  let state := PlanSubscribeAction.stateOf (req.getParameter "state")
  -- the stored state is the opposite of the one asked for
  let s₀ := subscribedAt session id (!state)
  refine ⟨s₀, rfl, fun k => Returns.after (withIDs_changes filled read fun answers => ?_)⟩
  have some_ : ids.isEmpty = false := by
    rw [List.isEmpty_eq_false_iff]
    exact List.ne_nil_of_mem member
  have switches : Returns (SysService.changeJobPlanSubscribeState env ids state)
      { ({ s₀ with tick := k } : WebSystem) with answers := answers } fun _ u => ¬ Unchanged s₀ u := by
    unfold SysService.changeJobPlanSubscribeState
    rw [some_, if_neg Bool.false_ne_true]
    refine (returns_daoCall calm).bind ?_
    rintro _ _ ⟨p, rfl⟩
    refine ⟨(), _, rfl, fun same => ?_⟩
    -- the row is among the ids, so its state is the one asked for
    have listed : SysService.isIn ids ⟨id, "c", none, none, !state⟩ = true := isIn_of_mem (isId ▸ member) _ rfl
    have rows := same.jobPlanSubscribes
    dsimp only [s₀, subscribedAt] at rows
    rw [List.map_singleton, if_pos listed] at rows
    have states : state = !state := congrArg JobPlanSubscribe.state (List.singleton_inj.mp rows)
    exact absurd states (by cases state <;> nofun)
  apply Returns.catching
  exact switches.bind fun _ u changed => returns_answer changed

/-- Whatever a method acts on, there are states that it changes. -/
theorem invoke_changes {method : ActionMethod} (touches : method.Touches app session req) : ∃ s₀ : WebSystem,
    s₀.session = session ∧ ∀ k, ¬ Unchanged s₀ (after (method.invoke app env forward req { s₀ with tick := k })) := by
  cases method with
  | pauseJob => exact pauseJob_changes calm touches
  | resumeJob => exact resumeJob_changes calm touches
  | executorQJob => exact executorQJob_changes calm touches
  | deleteJobPlan => exact deleteJobPlan_changes calm touches
  | edit => exact edit_changes calm touches
  | fileUpLoad => exact fileUpLoad_changes calm touches
  | add => exact add_changes calm touches
  | del => exact del_changes calm touches
  | changeState => exact changeState_changes calm touches
  | executorXJob | doPost | output | display | index => exact touches.elim

end Methods

end Hella

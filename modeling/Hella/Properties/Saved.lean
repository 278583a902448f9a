import Hella.Engine.Dao
import Mathlib.Data.List.Nodup

/-!
# A plan that was saved

Saving writes a row of the plan table, one of the node table for each node and one of the
job table for each node with a job, with the generated ids handed down. Loading finds
these rows again, and only these.
-/
namespace Hella.Dao

/-- A key is not zero, and no row has it as its id or as that of its plan. -/
structure Fresh (keys : Database → String → Int) : Prop where
  nonzero : ∀ db table, keys db table ≠ 0
  unused : ∀ db table, ∀ row ∈ db table, row.getInt "id" 0 ≠ keys db table
  unmentioned : ∀ db, ∀ table ∈ [jobPlanNodeTable, xjobMetaTable], ∀ row ∈ db table,
    row.getInt "jobExecutionPlanID" 0 ≠ keys db jobExecutionPlanTable

/-! ### One statement -/

def insertRow (db : Database) (table : String) (row : Row) : Database := Function.update db table (db table ++ [row])

section Statements

variable {keys : Database → String → Int} {db : Database}

def planRow (id : Int) (jep : JobExecutionPlan) : Row :=
  ("id", .int id) :: sqlInsertJobExecutionPlan.columns.zip
    [.ofString jep.jobPlanType, .int jep.executePlanVersionID, .ofString jep.clusterID, .ofString jep.jepID,
      .ofString jep.jepName, .ofString jep.cronType, .ofString jep.cronExpression, .ofString jep.event,
      .boolean jep.ignoreError, .ofString jep.state, .ofString jep.currentXjobDate, .ofString jep.currentXjobState,
      .ofString jep.currentNode, .ofString jep.description, .ofString jep.createDate]

def nodeRow (id : Int) (jobPlanNode : JobPlanNode) : Row :=
  ("id", .int id) :: sqlInsertJobPlanNode.columns.zip
    [.int jobPlanNode.jobExecutionPlanID, .ofString jobPlanNode.type, .ofString jobPlanNode.name,
      .ofString jobPlanNode.executorClusterID, .ofString jobPlanNode.forkName, .ofString jobPlanNode.joinName,
      .ofString jobPlanNode.toNode, .ofString jobPlanNode.okNode, .ofString jobPlanNode.errorNode,
      .ofString jobPlanNode.delayType, .int jobPlanNode.delayTime, .int jobPlanNode.errorMaxRedoTimes,
      .int jobPlanNode.errorRedoPeriod]

def metaRow (id : Int) (xjobMeta : XjobMeta) : Row :=
  ("id", .int id) :: sqlInsertXjob.columns.zip
    [.int xjobMeta.jobExecutionPlanID, .int xjobMeta.jobPlanNodeID, .ofString xjobMeta.mode,
      .ofString xjobMeta.executeUser,
      .ofString xjobMeta.executionContent, .ofString xjobMeta.jobClassName, .ofString xjobMeta.args,
      .ofString xjobMeta.description]

theorem saveJobExecutionPlanRow_eq (jep : JobExecutionPlan) :
    saveJobExecutionPlanRow keys db jep =
      some ({ jep with id := keys db jobExecutionPlanTable },
        insertRow db jobExecutionPlanTable (planRow (keys db jobExecutionPlanTable) jep)) := rfl

/-! What was inserted is read back: each parameter stands in the column of its property. -/

theorem ofRow_planRow (id : Int) (jep : JobExecutionPlan) :
    JobExecutionPlan.ofRow ((planRow id jep).filter (·.1 ∈ sqlQueryJobExecutionPlan.columns)) =
      { jep with id := id, jobPlanNodeList := [] } := by
  simp [planRow, sqlInsertJobExecutionPlan, sqlQueryJobExecutionPlan, JobExecutionPlan.ofRow, Row.getString, Row.getInt,
    Row.getBoolean, List.lookup_cons]

theorem ofRow_nodeRow (id : Int) (jobPlanNode : JobPlanNode) :
    JobPlanNode.ofRow ((nodeRow id jobPlanNode).filter (·.1 ∈ sqlQueryJobPlanNode.columns)) =
      { jobPlanNode with id := id, xjobMeta := none } := by
  simp [nodeRow, sqlInsertJobPlanNode, sqlQueryJobPlanNode, JobPlanNode.ofRow, Row.getString,
    Row.getInt, List.lookup_cons]

theorem ofRow_metaRow (id : Int) (xjobMeta : XjobMeta) :
    XjobMeta.ofRow ((metaRow id xjobMeta).filter (·.1 ∈ sqlQueryXjob.columns)) = { xjobMeta with id := id } := by
  simp [metaRow, sqlInsertXjob, sqlQueryXjob, XjobMeta.ofRow, Row.getString, Row.getInt, List.lookup_cons]

end Statements

/-! ### The rows of a plan -/

def plansOf (db : Database) (id : Int) : List JobExecutionPlan :=
  (sqlQueryJobExecutionPlan.rows db fun row => row.getInt "id" 0 = id).map JobExecutionPlan.ofRow

def nodesOf (db : Database) (id : Int) : List JobPlanNode :=
  (sqlQueryJobPlanNode.rows db fun row => row.getInt "jobExecutionPlanID" 0 = id).map JobPlanNode.ofRow

def metasOf (db : Database) (id : Int) : List XjobMeta :=
  (sqlQueryXjob.rows db fun row => row.getInt "jobExecutionPlanID" 0 = id).map XjobMeta.ofRow

section Rows

variable {db : Database} {table : String} {row : Row} {id key : Int}

/-- A row that is inserted and selected becomes the last bean of its query. -/
theorem beans_insertRow {β : Type} {ofRow : Row → β} {bean : β} (db : Database) (select : Select)
    (condition : Row → Bool) (read : ofRow (row.filter (·.1 ∈ select.columns)) = bean) :
    (select.rows (insertRow db select.table row) condition).map ofRow =
      (select.rows db condition).map ofRow ++ if condition row then [bean] else [] := by
  unfold Select.rows insertRow
  rw [Function.update_self, List.filter_append, List.map_append, List.map_append]
  cases kept : condition row <;> simp [kept, read]

theorem rows_insertRow_other (select : Select) (condition : Row → Bool) (other : select.table ≠ table) :
    select.rows (insertRow db table row) condition = select.rows db condition := by
  unfold Select.rows insertRow
  rw [Function.update_of_ne other]

theorem plansOf_insertRow (jep : JobExecutionPlan) :
    plansOf (insertRow db jobExecutionPlanTable (planRow key jep)) id =
      plansOf db id ++ if key = id then [{ jep with id := key, jobPlanNodeList := [] }] else [] := by
  have inserted := beans_insertRow db sqlQueryJobExecutionPlan (fun row => row.getInt "id" 0 = id)
    (ofRow_planRow key jep)
  simp only [decide_eq_true_eq] at inserted
  exact inserted

theorem nodesOf_insertRow (jobPlanNode : JobPlanNode) :
    nodesOf (insertRow db jobPlanNodeTable (nodeRow key jobPlanNode)) id =
      nodesOf db id ++ if jobPlanNode.jobExecutionPlanID =
        id then [{ jobPlanNode with id := key, xjobMeta := none }] else [] := by
  have inserted := beans_insertRow db sqlQueryJobPlanNode (fun row => row.getInt "jobExecutionPlanID" 0 = id)
    (ofRow_nodeRow key jobPlanNode)
  simp only [decide_eq_true_eq] at inserted
  exact inserted

theorem metasOf_insertRow (xjobMeta : XjobMeta) :
    metasOf (insertRow db xjobMetaTable (metaRow key xjobMeta)) id =
      metasOf db id ++ if xjobMeta.jobExecutionPlanID = id then [{ xjobMeta with id := key }] else [] := by
  have inserted := beans_insertRow db sqlQueryXjob (fun row => row.getInt "jobExecutionPlanID" 0 = id)
    (ofRow_metaRow key xjobMeta)
  simp only [decide_eq_true_eq] at inserted
  exact inserted

end Rows

/-! ### Saving the nodes of a plan -/

/-- A job, a node and a plan without the ids that the database hands out. -/
def XjobMeta.forget (xjobMeta : XjobMeta) : XjobMeta :=
  { xjobMeta with id := 0, jobExecutionPlanID := 0, jobPlanNodeID := 0 }

def JobPlanNode.forget (jobPlanNode : JobPlanNode) : JobPlanNode :=
  { jobPlanNode with id := 0, jobExecutionPlanID := 0, xjobMeta := jobPlanNode.xjobMeta.map XjobMeta.forget }

def JobExecutionPlan.forget (jobExecutionPlan : JobExecutionPlan) : JobExecutionPlan :=
  { jobExecutionPlan with id := 0, jobPlanNodeList := jobExecutionPlan.jobPlanNodeList.map JobPlanNode.forget }

/-- What saving these nodes for the plan makes of the tables and of the nodes. -/
structure Stored (id : Int) (db db' : Database) (jobPlanNodes saved : List JobPlanNode) : Prop where
  plans : db' jobExecutionPlanTable = db jobExecutionPlanTable
  nodes : nodesOf db' id = nodesOf db id ++ saved.map fun node => { node with xjobMeta := none }
  metas : metasOf db' id = metasOf db id ++ saved.filterMap (·.xjobMeta)
  others : ∀ other, other ≠ id → nodesOf db' other = nodesOf db other ∧ metasOf db' other = metasOf db other
  kept : db jobPlanNodeTable ⊆ db' jobPlanNodeTable
  present : ∀ node ∈ saved, ∃ row ∈ db' jobPlanNodeTable, row.getInt "id" 0 = node.id
  unused : ∀ node ∈ saved, ∀ row ∈ db jobPlanNodeTable, row.getInt "id" 0 ≠ node.id
  distinct : (saved.map JobPlanNode.id).Nodup
  links : ∀ node ∈ saved, ∀ xjobMeta, node.xjobMeta = some xjobMeta → xjobMeta.jobPlanNodeID = node.id
  same : saved.map JobPlanNode.forget = jobPlanNodes.map JobPlanNode.forget

namespace Stored

variable {id : Int} {db db₁ db₂ : Database} {nodes saved moreNodes moreSaved : List JobPlanNode}

theorem nil (id : Int) (db : Database) : Stored id db db [] [] := by
  constructor <;> simp

theorem append (first : Stored id db db₁ nodes saved) (second : Stored id db₁ db₂ moreNodes moreSaved) :
    Stored id db db₂ (nodes ++ moreNodes) (saved ++ moreSaved) where
  plans := second.plans.trans first.plans
  nodes := by rw [second.nodes, first.nodes, List.map_append, List.append_assoc]
  metas := by rw [second.metas, first.metas, List.filterMap_append, List.append_assoc]
  others other differs := by
    obtain ⟨sameNodes, sameMetas⟩ := first.others other differs
    obtain ⟨nodesAgain, metasAgain⟩ := second.others other differs
    exact ⟨nodesAgain.trans sameNodes, metasAgain.trans sameMetas⟩
  kept := fun row member => second.kept (first.kept member)
  present node member := by
    rcases List.mem_append.mp member with early | late
    · obtain ⟨row, there, has⟩ := first.present node early
      exact ⟨row, second.kept there, has⟩
    · exact second.present node late
  unused node member row there := by
    rcases List.mem_append.mp member with early | late
    · exact first.unused node early row there
    · exact second.unused node late row (first.kept there)
  distinct := by
    rw [List.map_append, List.nodup_append]
    refine ⟨first.distinct, second.distinct, ?_⟩
    -- the ids of the second part are of no row that the first has left
    intro id early other late same
    obtain ⟨node, member, rfl⟩ := List.mem_map.mp early
    obtain ⟨node', member', rfl⟩ := List.mem_map.mp late
    obtain ⟨row, there, has⟩ := first.present node member
    exact second.unused node' member' row there (has.trans same)
  links node member := by
    rcases List.mem_append.mp member with early | late
    · exact first.links node early
    · exact second.links node late
  same := by rw [List.map_append, first.same, second.same, List.map_append]

/-- The row of the job of a node that has just been saved. -/
theorem withJob {node saved : JobPlanNode} {xjobMeta : XjobMeta}
    (without : Stored id db db₁ [{ node with xjobMeta := none }] [{ saved with xjobMeta := none }])
    (key : Int) (job : XjobMeta) (jobOf : job = { xjobMeta with jobExecutionPlanID := id, jobPlanNodeID := saved.id })
    (has : node.xjobMeta = some xjobMeta) :
    Stored id db (insertRow db₁ xjobMetaTable (metaRow key job)) [node]
      [{ saved with xjobMeta := some { job with id := key } }] := by
  subst jobOf
  -- the job goes into a table of its own, so the other two queries read what they read before
  have table : ∀ other, other ≠ xjobMetaTable →
      insertRow db₁ xjobMetaTable (metaRow key { xjobMeta with jobExecutionPlanID := id, jobPlanNodeID := saved.id })
        other =
        db₁ other := fun other differs => Function.update_of_ne differs _ _
  have nodesSame (plan : Int) :
      nodesOf (insertRow db₁ xjobMetaTable
        (metaRow key { xjobMeta with jobExecutionPlanID := id, jobPlanNodeID := saved.id })) plan =
          nodesOf db₁ plan := by
    unfold nodesOf
    rw [rows_insertRow_other _ _ (by decide)]
  constructor
  · rw [table _ (by decide)]
    -- the queries of this plan see one more row, those of other plans the same ones
    exact without.plans
  · rw [nodesSame]
    exact without.nodes
  · rw [metasOf_insertRow, if_pos rfl, without.metas]
    simp
  · intro other differs
    rw [nodesSame, metasOf_insertRow, if_neg (Ne.symm differs), List.append_nil]
    exact without.others other differs
  · rw [table _ (by decide)]
    exact without.kept
  · rw [table _ (by decide)]
    simpa using without.present
  · simpa using without.unused
  · simp
  · simp
  · have same := without.same
    simpa [JobPlanNode.forget, XjobMeta.forget, has] using same

end Stored

section Nodes

variable {keys : Database → String → Int} (fresh : Fresh keys) (id : Int)
include fresh

/-- The row of one node without its job. -/
theorem stored_node (db : Database) (node : JobPlanNode) :
    Stored id db (insertRow db jobPlanNodeTable
      (nodeRow (keys db jobPlanNodeTable) { node with jobExecutionPlanID := id }))
      [{ node with xjobMeta := none }]
      [{ node with id := keys db jobPlanNodeTable, jobExecutionPlanID := id, xjobMeta := none }] where
  plans := Function.update_of_ne (by decide) _ _
  nodes := by rw [nodesOf_insertRow, if_pos rfl]; rfl
  metas := by
    unfold metasOf
    rw [rows_insertRow_other _ _ (by decide)]
    simp
  others other differs := by
    constructor
    · rw [nodesOf_insertRow, if_neg (Ne.symm differs), List.append_nil]
    · unfold metasOf
      rw [rows_insertRow_other _ _ (by decide)]
  kept row member := by
    unfold insertRow
    rw [Function.update_self]
    exact List.mem_append_left _ member
  present := by
    simp only [List.mem_singleton, forall_eq]
    refine ⟨nodeRow (keys db jobPlanNodeTable) { node with jobExecutionPlanID := id }, ?_, rfl⟩
    unfold insertRow
    rw [Function.update_self]
    exact List.mem_append_right _ (List.mem_singleton_self _)
  unused := by
    simp only [List.mem_singleton, forall_eq]
    exact fresh.unused db jobPlanNodeTable
  distinct := by simp
  links := by simp
  same := rfl

/-- One turn of the loop saves the node, with its job if it has one. -/
theorem saveJobPlanNodes_cons (db : Database) (node : JobPlanNode) (rest : List JobPlanNode) :
    ∃ saved db₁, Stored id db db₁ [node] [saved] ∧
      saveJobPlanNodes keys id db (node :: rest) =
        (saveJobPlanNodes keys id db₁ rest).bind fun (rest, db) => some (saved :: rest, db) := by
  have bare := stored_node fresh id db node
  obtain ⟨nodeID, planID, type, name, executorClusterID, forkName, joinName, toNode, okNode, errorNode,
    delayType, delayTime,
    errorMaxRedoTimes, errorRedoPeriod, xjobMeta⟩ := node
  cases xjobMeta with
  | none => exact ⟨_, _, bare, rfl⟩
  | some xjobMeta => exact ⟨_, _, bare.withJob _ _ rfl rfl, rfl⟩

/-- The loop saves every node. -/
theorem saveJobPlanNodes_stored (db : Database) (nodes : List JobPlanNode) :
    ∃ saved db', saveJobPlanNodes keys id db nodes = some (saved, db') ∧ Stored id db db' nodes saved := by
  induction nodes generalizing db with
  | nil => exact ⟨[], db, rfl, .nil id db⟩
  | cons node rest ih =>
    obtain ⟨saved, db₁, first, run⟩ := saveJobPlanNodes_cons fresh id db node rest
    obtain ⟨more, db₂, others, stored⟩ := ih db₁
    rw [run, others]
    exact ⟨saved :: more, db₂, rfl, first.append stored⟩

end Nodes

/-! ### Loading a plan -/

theorem attach_absent {metas : List XjobMeta} (node : JobPlanNode)
    (absent : ∀ xjobMeta ∈ metas, node.id ≠ xjobMeta.jobPlanNodeID) :
    attach metas node = node := by
  induction metas with
  | nil => rfl
  | cons xjobMeta rest ih =>
    have first : attach (xjobMeta :: rest) node = attach rest node := by
      unfold attach
      rw [List.foldl_cons, if_neg (absent xjobMeta List.mem_cons_self)]
    rw [first]
    exact ih fun other member => absent other (List.mem_cons_of_mem _ member)

/-- Each node gets its own job back from the jobs of all. -/
theorem attach_own {saved : List JobPlanNode} (distinct : (saved.map JobPlanNode.id).Nodup)
    (links : ∀ node ∈ saved, ∀ xjobMeta, node.xjobMeta = some xjobMeta → xjobMeta.jobPlanNodeID = node.id)
    {node : JobPlanNode} (member : node ∈ saved) :
    attach (saved.filterMap (·.xjobMeta)) { node with xjobMeta := none } = node := by
  obtain ⟨before, after, rfl⟩ := List.append_of_mem member
  -- the jobs before and after belong to other nodes
  have others (part : List JobPlanNode) (among : ∀ other ∈ part, other ∈ before ++ node :: after ∧ other.id ≠ node.id) :
      ∀ xjobMeta ∈ part.filterMap (·.xjobMeta), node.id ≠ xjobMeta.jobPlanNodeID := by
    intro xjobMeta mentioned same
    obtain ⟨other, member, has⟩ := List.mem_filterMap.mp mentioned
    exact (among other member).2 ((links other (among other member).1 xjobMeta has).symm.trans same.symm)
  rw [List.map_append, List.map_cons, List.nodup_middle, List.nodup_cons] at distinct
  have left := others before fun other member => ⟨List.mem_append_left _ member, fun same =>
    distinct.1 (List.mem_append_left _ (same ▸ List.mem_map_of_mem member))⟩
  have right := others after fun other member => ⟨List.mem_append_right _ (List.mem_cons_of_mem _ member), fun same =>
    distinct.1 (List.mem_append_right _ (same ▸ List.mem_map_of_mem member))⟩
  have passes (bare : JobPlanNode) (metas more : List XjobMeta) :
    attach (metas ++ more) bare = attach more (attach metas bare) := by
    simp [attach, List.foldl_append]
  rw [List.filterMap_append, passes, attach_absent { node with xjobMeta := none } left]
  cases has : node.xjobMeta with
  | none =>
    rw [List.filterMap_cons_none has, attach_absent { node with xjobMeta := none } right, ← has]
  | some xjobMeta =>
    have link := links node (List.mem_append_right _ List.mem_cons_self) xjobMeta has
    have own : attach [xjobMeta] { node with xjobMeta := none } = node := by
      simp [attach, link, ← has]
    rw [List.filterMap_cons_some has, ← List.singleton_append, passes, own]
    exact attach_absent _ right

theorem loadJobExecutionPlan_eq {db : Database} {id : Int} {plan : JobExecutionPlan} (some_ : id ≠ 0)
    (row : plansOf db id = [plan]) (same : plan.id = id) :
    loadJobExecutionPlan db id =
      some { plan with jobPlanNodeList := plan.jobPlanNodeList ++ (nodesOf db id).map (attach (metasOf db id)) } := by
  have found : queryJobPlan db id = some plan := by
    unfold queryJobPlan
    rw [if_neg some_]
    change ((plansOf db id).mergeSort _).head? = some plan
    rw [row, List.mergeSort_singleton]
    rfl
  have nodes : queryJobPlanNodeByJPID db id = some (nodesOf db id) := if_neg some_
  have metas : queryXjobMetaByJPID db id = some (metasOf db id) := if_neg some_
  simp [loadJobExecutionPlan, found, same, nodes, metas]

/-- The tables hold the plan under its id, with its nodes and their jobs. -/
structure Holds (db : Database) (plan : JobExecutionPlan) : Prop where
  nonzero : plan.id ≠ 0
  present : ∃ row ∈ db jobExecutionPlanTable, row.getInt "id" 0 = plan.id
  row : plansOf db plan.id = [{ plan with jobPlanNodeList := [] }]
  nodes : nodesOf db plan.id = plan.jobPlanNodeList.map fun node => { node with xjobMeta := none }
  metas : metasOf db plan.id = plan.jobPlanNodeList.filterMap (·.xjobMeta)
  distinct : (plan.jobPlanNodeList.map JobPlanNode.id).Nodup
  links : ∀ node ∈ plan.jobPlanNodeList, ∀ xjobMeta, node.xjobMeta = some xjobMeta → xjobMeta.jobPlanNodeID = node.id

theorem Holds.load {db : Database} {plan : JobExecutionPlan} (holds : Holds db plan) :
    loadJobExecutionPlan db plan.id = some plan := by
  have attached : (nodesOf db plan.id).map (attach (metasOf db plan.id)) = plan.jobPlanNodeList := by
    rw [holds.nodes, holds.metas, List.map_map]
    calc _ = plan.jobPlanNodeList.map id := List.map_congr_left fun node member =>
          attach_own holds.distinct holds.links member
      _ = _ := List.map_id _
  rw [loadJobExecutionPlan_eq holds.nonzero holds.row rfl, attached]
  rfl

section Plans

variable {keys : Database → String → Int} (fresh : Fresh keys)
include fresh

theorem plansOf_insertRow_self (db : Database) (plan : JobExecutionPlan) :
    plansOf (insertRow db jobExecutionPlanTable (planRow (keys db jobExecutionPlanTable) plan))
      (keys db jobExecutionPlanTable) =
      [{ plan with id := keys db jobExecutionPlanTable, jobPlanNodeList := [] }] := by
  rw [plansOf_insertRow, if_pos rfl]
  -- no row had the key before
  have none_ : plansOf db (keys db jobExecutionPlanTable) = [] := by
    have unused := fresh.unused db jobExecutionPlanTable
    simpa [plansOf, Select.rows, sqlQueryJobExecutionPlan] using unused
  rw [none_]
  rfl

/-- Nothing refers to the key of a plan before it is handed out. -/
theorem nodesOf_fresh (db : Database) :
    nodesOf db (keys db jobExecutionPlanTable) = [] ∧ metasOf db (keys db jobExecutionPlanTable) = [] := by
  constructor
  · have unmentioned := fresh.unmentioned db jobPlanNodeTable (by simp)
    simpa [nodesOf, Select.rows, sqlQueryJobPlanNode] using unmentioned
  · have unmentioned := fresh.unmentioned db xjobMetaTable (by simp)
    simpa [metasOf, Select.rows, sqlQueryXjob] using unmentioned

/-- Saving succeeds; the tables hold the plan then, and what they held before. -/
theorem saveJobExecutionPlan_holds (db : Database) (plan : JobExecutionPlan) :
    ∃ saved db', saveJobExecutionPlan keys db plan = some (saved, db') ∧ Holds db' saved ∧ saved.forget = plan.forget ∧
      ∀ other, Holds db other → Holds db' other := by
  let key := keys db jobExecutionPlanTable
  let db₁ := insertRow db jobExecutionPlanTable (planRow key plan)
  obtain ⟨nodes, db', run, stored⟩ := saveJobPlanNodes_stored fresh key db₁ plan.jobPlanNodeList
  -- the row of the plan goes into a table of its own
  have nodesBefore (id : Int) : nodesOf db₁ id = nodesOf db id := by
    unfold nodesOf
    rw [rows_insertRow_other _ _ (by decide)]
  have metasBefore (id : Int) : metasOf db₁ id = metasOf db id := by
    unfold metasOf
    rw [rows_insertRow_other _ _ (by decide)]
  have plans (id : Int) : plansOf db' id = plansOf db₁ id := by
    unfold plansOf Select.rows
    rw [show sqlQueryJobExecutionPlan.table = jobExecutionPlanTable from rfl, stored.plans]
  have rows : db' jobExecutionPlanTable = db jobExecutionPlanTable ++ [planRow key plan] := by
    rw [stored.plans]
    exact Function.update_self _ _ _
  obtain ⟨noNodes, noMetas⟩ := nodesOf_fresh fresh db
  -- the plan comes back under its new key, with the ids its nodes were given
  refine ⟨{ plan with id := key, jobPlanNodeList := nodes }, db', ?_, ?_, ?_, ?_⟩
  · rw [saveJobExecutionPlan, saveJobExecutionPlanRow_eq]
    simp only [Option.bind_eq_bind, Option.bind_some]
    rw [run]
    rfl
  · constructor
    · exact fresh.nonzero db jobExecutionPlanTable
    · exact ⟨planRow key plan, by simp [rows], rfl⟩
    · rw [plans]
      exact plansOf_insertRow_self fresh db plan
    · rw [stored.nodes, nodesBefore, noNodes]
      rfl
    · rw [stored.metas, metasBefore, noMetas]
      rfl
    · exact stored.distinct
    · exact stored.links
  · simp only [JobExecutionPlan.forget]
    rw [stored.same]
  · intro other holds
    obtain ⟨row, there, has⟩ := holds.present
    -- a plan stored before has another key, and every query is by key
    have differs : other.id ≠ key := fun same => fresh.unused db jobExecutionPlanTable row there (has.trans same)
    obtain ⟨sameNodes, sameMetas⟩ := stored.others other.id differs
    constructor
    · exact holds.nonzero
    · exact ⟨row, by simp [rows, there], has⟩
    · rw [plans]
      rw [plansOf_insertRow, if_neg (Ne.symm differs), List.append_nil]
      exact holds.row
    · rw [sameNodes, nodesBefore]
      exact holds.nodes
    · rw [sameMetas, metasBefore]
      exact holds.metas
    · exact holds.distinct
    · exact holds.links

end Plans

/-- The plans are saved one after the other. -/
def saveAll (keys : Database → String → Int) (db : Database) : List JobExecutionPlan → Option Database
  | [] => some db
  | plan :: rest => do
    let (_, db) ← saveJobExecutionPlan keys db plan
    saveAll keys db rest

theorem saveAll_holds {keys : Database → String → Int} (fresh : Fresh keys) {db : Database} {plan : JobExecutionPlan}
    (holds : Holds db plan) (later : List JobExecutionPlan) : ∃ db', saveAll keys db later = some db' ∧
      Holds db' plan := by
  induction later generalizing db with
  | nil => exact ⟨db, rfl, holds⟩
  | cons other rest ih =>
    obtain ⟨saved, db₁, run, -, -, keeps⟩ := saveJobExecutionPlan_holds fresh db other
    obtain ⟨db', more, holds'⟩ := ih (keeps plan holds)
    refine ⟨db', ?_, holds'⟩
    rw [saveAll, run]
    exact more

/-- Whatever the tables contain and whichever plans are saved afterwards, a plan that was
saved loads as it was when the save returned: the given plan with the generated ids. -/
theorem load_save {keys : Database → String → Int} (fresh : Fresh keys) (db : Database) (plan : JobExecutionPlan)
    (later : List JobExecutionPlan) :
    ∃ saved db' db'', saveJobExecutionPlan keys db plan = some (saved, db') ∧ saved.forget = plan.forget ∧
      saveAll keys db' later = some db'' ∧ loadJobExecutionPlan db'' saved.id = some saved := by
  obtain ⟨saved, db', run, holds, same, -⟩ := saveJobExecutionPlan_holds fresh db plan
  obtain ⟨db'', more, holds'⟩ := saveAll_holds fresh holds later
  exact ⟨saved, db', db'', run, same, more, holds'.load⟩

/-- The ids of a table, and the references to it that a fresh key avoids. -/
def mentioned (db : Database) (table : String) : List Int :=
  (db table).map (·.getInt "id" 0) ++
    if table = jobExecutionPlanTable then (db jobPlanNodeTable ++ db xjobMetaTable).map
      (·.getInt "jobExecutionPlanID" 0) else []

/-- The next key as an AUTO_INCREMENT column gives it. -/
def autoIncrement (db : Database) (table : String) : Int := (mentioned db table).foldl max 0 + 1

theorem le_foldl_max (ns : List Int) (start : Int) : start ≤ ns.foldl max start ∧ ∀ n ∈ ns, n ≤ ns.foldl max start := by
  induction ns generalizing start with
  | nil => simp
  | cons n rest ih =>
    obtain ⟨above, each⟩ := ih (max start n)
    rw [List.foldl_cons]
    constructor
    · omega
    · intro m member
      rcases List.mem_cons.mp member with rfl | later
      · omega
      · exact each m later

theorem lt_autoIncrement {db : Database} {table : String} {id : Int} (there : id ∈ mentioned db table) :
    id < autoIncrement db table :=
  Int.lt_add_one_of_le ((le_foldl_max (mentioned db table) 0).2 id there)

theorem fresh_autoIncrement : Fresh autoIncrement := by
  constructor
  · intro db table
    have above := (le_foldl_max (mentioned db table) 0).1
    unfold autoIncrement
    omega
  · intro db table row there
    exact Int.ne_of_lt (lt_autoIncrement (List.mem_append_left _ (List.mem_map_of_mem there)))
  · intro db table among row there
    have mentions : row ∈ db jobPlanNodeTable ++ db xjobMetaTable := by
      simp only [List.mem_cons, List.not_mem_nil, or_false] at among
      rcases among with rfl | rfl
      · exact List.mem_append_left _ there
      · exact List.mem_append_right _ there
    apply Int.ne_of_lt
    apply lt_autoIncrement
    rw [mentioned, if_pos rfl]
    exact List.mem_append_right _ (List.mem_map_of_mem mentions)

/-- A plan of three nodes, of which one has a job. -/
def nightly : JobExecutionPlan :=
  { clusterID := some "etl", jepID := some "7", jepName := some "nightly", cronType := some "cron"
    cronExpression := some "0 0 2 * * ?", createDate := some "20140109"
    jobPlanNodeList :=
      [{ type := some "start", name := some "begin", toNode := some "load" },
        { type := some "action", name := some "load", okNode := some "end"
          xjobMeta := some { mode := some "script", executionContent := some "load.sh" } },
        { type := some "end", name := some "end" }] }

/-- The plan is saved into empty tables, and then once more. -/
theorem load_save_nightly :
    ∃ saved db' db'', saveJobExecutionPlan autoIncrement (fun _ => []) nightly = some (saved, db') ∧
      saved.forget = nightly.forget ∧ saveAll autoIncrement db' [nightly] = some db'' ∧
      loadJobExecutionPlan db'' saved.id = some saved :=
  load_save fresh_autoIncrement (fun _ => []) nightly [nightly]

end Hella.Dao

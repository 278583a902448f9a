import Hella.Plans.Failures

/-!
# The catalogue of the stored plans

`loadJobExecutionPlan` puts a plan together again from its row, its nodes and their jobs. To
a reader the three tables are a catalogue with one plan for each key. The IDs of the nodes
are left out of it, and the state of a plan, which other requests change.
-/
namespace Hella

open Exec Text

/-! ### Loading -/

/-- `setXjobMeta` for each job of the node. -/
def JobPlanNode.withXjobMeta (xjobMetaList : List XjobMetaRow) (jobPlanNode : JobPlanNode) : JobPlanNode :=
  xjobMetaList.foldl (fun node row =>
    if node.id = row.jobPlanNodeID then { node with xjobMeta := some row.xjobMeta } else node)
    jobPlanNode

namespace PlanTables

def nodesByJPID (t : PlanTables) (jobExecutionPlanID : Nat) : List JobPlanNode :=
  t.jobPlanNodes.filter (·.jobExecutionPlanID = jobExecutionPlanID)

def xjobMetasByJPID (t : PlanTables) (jobExecutionPlanID : Nat) : List XjobMetaRow :=
  t.xjobMetas.filter (·.jobExecutionPlanID = jobExecutionPlanID)

end PlanTables

namespace JobExecutionPlanDao

open PlanSystem

variable (env : PlanEnv)

/-- `none` is null. -/
def queryJobPlanNodeByJPID (jobExecutionPlanID : Nat) : PlanM (Option (List JobPlanNode)) := do
  if jobExecutionPlanID = 0 then return none
  else
    daoCall env
    return some ((← get).tables.nodesByJPID jobExecutionPlanID)

def queryXjobMetaByJPID (jobExecutionPlanID : Nat) : PlanM (Option (List XjobMetaRow)) := do
  if jobExecutionPlanID = 0 then return none
  else
    daoCall env
    return some ((← get).tables.xjobMetasByJPID jobExecutionPlanID)

def loadJobExecutionPlan (jobExecutionPlanID : Nat) : PlanM (Option PlanEntity) := do
  match ← queryJobPlanByID env jobExecutionPlanID with
  | none => return none
  | some jobExecutionPlan =>
    match ← queryJobPlanNodeByJPID env jobExecutionPlan.id, ← queryXjobMetaByJPID env jobExecutionPlan.id with
    | some jobPlanNodeList, some xjobMetaList =>
      return some { jobExecutionPlan with
        jobPlanNodeList :=
          jobExecutionPlan.jobPlanNodeList ++ jobPlanNodeList.map (·.withXjobMeta xjobMetaList) }
    | _, _ => throw .nullPointerException

end JobExecutionPlanDao

/-! ### Entries -/

def JobPlanNode.unnumbered (node : JobPlanNode) : JobPlanNode := { node with id := 0, jobExecutionPlanID := 0 }

/-- The plan as it is entered in the catalogue. -/
def PlanEntity.entry (jep : PlanEntity) : PlanEntity :=
  { jep with state := .able, jobPlanNodeList := jep.jobPlanNodeList.map (·.unnumbered) }

namespace PlanTables

def loadedNodes (t : PlanTables) (id : Nat) : List JobPlanNode :=
  (t.nodesByJPID id).map (·.withXjobMeta (t.xjobMetasByJPID id))

/-- The plan of a row. -/
def loaded (t : PlanTables) (row : PlanEntity) : PlanEntity :=
  { row with jobPlanNodeList := row.jobPlanNodeList ++ t.loadedNodes row.id }

def catalogue (t : PlanTables) (key : String × String) : Option PlanEntity :=
  (t.plansOf key).head?.map fun row => (t.loaded row).entry

/-- The numbers of nodes are given out in order. -/
structure Filed (t : PlanTables) : Prop extends Keyed t where
  positive : ∀ row ∈ t.jobExecutionPlans, row.id ≠ 0
  nodeIDs : ∀ node ∈ t.jobPlanNodes, node.id ≤ t.lastJobPlanNodeID
  metaNodeIDs : ∀ xjobMeta ∈ t.xjobMetas, xjobMeta.jobPlanNodeID ≤ t.lastJobPlanNodeID

variable {t u : PlanTables} {key : String × String} {id : Nat} {row jep : PlanEntity} {node : JobPlanNode}

/-! ### What the catalogue depends on -/

theorem mem_plansOf : row ∈ t.plansOf key ↔ row ∈ t.jobExecutionPlans ∧ row.key = key := by simp [plansOf]

theorem Keyed.plansOf_head (keyed : t.Keyed) (member : row ∈ t.jobExecutionPlans) :
    (t.plansOf row.key).head? = some row := by
  have inside : row ∈ t.plansOf row.key := mem_plansOf.mpr ⟨member, rfl⟩
  cases found : t.plansOf row.key with
  | nil => simp [found] at inside
  | cons first rest =>
    obtain ⟨there, same⟩ := mem_plansOf.mp (found ▸ List.mem_cons_self : first ∈ t.plansOf row.key)
    rw [keyed.eq_of_key there member same, List.head?_cons]

theorem Keyed.catalogue_of_row (keyed : t.Keyed) (member : row ∈ t.jobExecutionPlans) :
    t.catalogue row.key = some (t.loaded row).entry := by
  rw [catalogue, keyed.plansOf_head member, Option.map_some]

theorem row_of_catalogue {entry : PlanEntity} (found : t.catalogue key = some entry) :
    ∃ row ∈ t.jobExecutionPlans, row.key = key ∧ (t.loaded row).entry = entry := by
  obtain ⟨row, first, same⟩ := Option.map_eq_some_iff.mp found
  obtain ⟨member, own⟩ := mem_plansOf.mp (List.mem_of_head? first)
  exact ⟨row, member, own, same⟩

theorem catalogue_of_free (free : t.Free key) : t.catalogue key = none := by
  rw [catalogue, Option.map_eq_none_iff, List.head?_eq_none_iff, List.eq_nil_iff_forall_not_mem]
  intro row member
  obtain ⟨there, own⟩ := mem_plansOf.mp member
  exact free row there own

theorem Numbered.entry_bound {entry : PlanEntity} (numbered : t.Numbered) (found : t.catalogue key = some entry) :
    entry.id ≤ t.lastJobExecutionPlanID := by
  obtain ⟨row, member, -, rfl⟩ := row_of_catalogue found
  exact numbered.planBound row member

/-- The rows of other plans do not matter. -/
theorem catalogue_congr (plans : u.plansOf key = t.plansOf key)
    (nodes : ∀ row ∈ t.plansOf key, u.nodesByJPID row.id = t.nodesByJPID row.id)
    (metas : ∀ row ∈ t.plansOf key, u.xjobMetasByJPID row.id = t.xjobMetasByJPID row.id) :
    u.catalogue key = t.catalogue key := by
  rw [catalogue, catalogue, plans]
  cases found : t.plansOf key with
  | nil => rfl
  | cons row rest =>
    have inside : row ∈ t.plansOf key := found ▸ List.mem_cons_self
    simp only [List.head?_cons, Option.map_some, loaded, loadedNodes, nodes row inside, metas row inside]

/-! ### What each statement does to it -/

theorem catalogue_insertJobExecutionPlan_ne (other : key ≠ jep.key) :
    (t.insertJobExecutionPlan jep).catalogue key = t.catalogue key := by
  have plans : (t.insertJobExecutionPlan jep).plansOf key = t.plansOf key := by
    change (t.jobExecutionPlans ++ [t.newRow jep]).filter (·.key = key) = _
    have ne : (t.newRow jep).key ≠ key := other.symm
    simp [plansOf, ne]
  exact catalogue_congr plans (fun _ _ => rfl) fun _ _ => rfl

theorem nodesByJPID_insertJobPlanNode (t : PlanTables) (id other : Nat) (node : JobPlanNode) :
    (t.insertJobPlanNode { node with jobExecutionPlanID := id }).nodesByJPID other = t.nodesByJPID other ++
      if id = other then [{ node with id := t.lastJobPlanNodeID + 1, jobExecutionPlanID := id, xjobMeta := none }]
        else [] := by
  rw [nodesByJPID, insertJobPlanNode, List.filter_append, nodesByJPID]
  by_cases same : id = other <;> simp [same]

theorem catalogue_insertJobPlanNode (spared : ∀ row ∈ t.plansOf key, row.id ≠ id) (node : JobPlanNode) :
    (t.insertJobPlanNode { node with jobExecutionPlanID := id }).catalogue key = t.catalogue key := by
  apply catalogue_congr (by rfl) _ fun _ _ => by rfl
  intro row member
  rw [nodesByJPID_insertJobPlanNode, if_neg (spared row member).symm, List.append_nil]

theorem xjobMetasByJPID_insertXjobMeta (t : PlanTables) (id other nodeID : Nat) (given : XjobMeta) :
    (t.insertXjobMeta id nodeID given).xjobMetasByJPID other = t.xjobMetasByJPID other ++
      if id = other then [⟨t.lastXjobMetaID + 1, id, nodeID, given⟩] else [] := by
  rw [xjobMetasByJPID, insertXjobMeta, List.filter_append, xjobMetasByJPID]
  by_cases same : id = other <;> simp [same]

theorem catalogue_insertXjobMeta (spared : ∀ row ∈ t.plansOf key, row.id ≠ id) (nodeID : Nat) (given : XjobMeta) :
    (t.insertXjobMeta id nodeID given).catalogue key = t.catalogue key := by
  apply catalogue_congr (by rfl) fun _ _ => by rfl
  intro row member
  rw [xjobMetasByJPID_insertXjobMeta, if_neg (spared row member).symm, List.append_nil]

theorem catalogue_deleteJobExecutionPlan (spared : ∀ row ∈ t.plansOf key, row.id ≠ id) :
    (t.deleteJobExecutionPlan id).catalogue key = t.catalogue key := by
  have plans : (t.deleteJobExecutionPlan id).plansOf key = t.plansOf key := by
    rw [plansOf, deleteJobExecutionPlan, List.filter_filter]
    apply List.filter_congr
    intro row member
    by_cases own : row.key = key
    · simp [own, spared row (mem_plansOf.mpr ⟨member, own⟩)]
    · simp [own]
  exact catalogue_congr plans (fun _ _ => rfl) fun _ _ => rfl

theorem filter_ne_eq {α : Type} (items : List α) (f : α → Nat) {id other : Nat} (ne : other ≠ id) :
    (items.filter fun a => decide (f a ≠ id)).filter (fun a => decide (f a = other)) =
      items.filter fun a => decide (f a = other) := by
  rw [List.filter_filter]
  apply List.filter_congr
  intro a _
  by_cases same : f a = other
  · simp [same, ne]
  · simp [same]

theorem catalogue_deleteJobPlanNode (spared : ∀ row ∈ t.plansOf key, row.id ≠ id) :
    (t.deleteJobPlanNode id).catalogue key = t.catalogue key :=
  catalogue_congr rfl (fun row member => filter_ne_eq t.jobPlanNodes (·.jobExecutionPlanID) (spared row member))
    fun _ _ => rfl

theorem catalogue_deleteXjobMeta (spared : ∀ row ∈ t.plansOf key, row.id ≠ id) :
    (t.deleteXjobMeta id).catalogue key = t.catalogue key :=
  catalogue_congr rfl (fun _ _ => rfl)
    fun row member => filter_ne_eq t.xjobMetas (·.jobExecutionPlanID) (spared row member)

/-- An entry does not have a state. -/
theorem catalogue_updateState (clusterID : Option String) (state : PlanState) (key : String × String) :
    (t.updateState id clusterID state).catalogue key = t.catalogue key := by
  let change (row : PlanEntity) : PlanEntity :=
    if (id = 0 ∨ row.id = id) ∧ (isBlank clusterID = true ∨ some row.clusterID = clusterID)
      then { row with state := state }
    else row
  have own (row : PlanEntity) : (change row).key = row.key := by
    unfold change
    split <;> rfl
  have plans : (t.updateState id clusterID state).plansOf key = (t.plansOf key).map change := by
    change (t.jobExecutionPlans.map change).filter (·.key = key) = _
    rw [List.filter_map, plansOf]
    congr 1
    apply List.filter_congr
    intro row _
    simp [own]
  rw [catalogue, catalogue, plans, List.head?_map, Option.map_map]
  congr 1
  funext row
  simp only [Function.comp]
  unfold change
  split <;> rfl

/-! ### The nodes of a plan that is being stored -/

theorem withXjobMeta_id (rows : List XjobMetaRow) (node : JobPlanNode) : (node.withXjobMeta rows).id = node.id := by
  unfold JobPlanNode.withXjobMeta
  induction rows generalizing node with
  | nil => rfl
  | cons row rows ih =>
    rw [List.foldl_cons, ih]
    split <;> rfl

theorem withXjobMeta_none {rows : List XjobMetaRow} (none_ : ∀ row ∈ rows, node.id ≠ row.jobPlanNodeID) :
    node.withXjobMeta rows = node := by
  unfold JobPlanNode.withXjobMeta
  induction rows with
  | nil => rfl
  | cons row rows ih =>
    rw [List.foldl_cons, if_neg (none_ row List.mem_cons_self)]
    exact ih fun other member => none_ other (List.mem_cons_of_mem _ member)

theorem withXjobMeta_append (rows : List XjobMetaRow) (row : XjobMetaRow) (node : JobPlanNode) :
    node.withXjobMeta (rows ++ [row]) = if (node.withXjobMeta rows).id = row.jobPlanNodeID then
      { node.withXjobMeta rows with xjobMeta := some row.xjobMeta } else node.withXjobMeta rows :=
  List.foldl_append

theorem loadedNodes_insertJobPlanNode (filed : t.Filed) (id : Nat) (node : JobPlanNode) :
    (t.insertJobPlanNode { node with jobExecutionPlanID := id }).loadedNodes id = t.loadedNodes id ++
      [{ node with id := t.lastJobPlanNodeID + 1, jobExecutionPlanID := id, xjobMeta := none }] := by
  -- no job that is stored is for a node that is still to come
  have fresh (row : XjobMetaRow) (member : row ∈ t.xjobMetasByJPID id) :
    t.lastJobPlanNodeID + 1 ≠ row.jobPlanNodeID := by
    have bound := filed.metaNodeIDs row (List.mem_of_mem_filter member)
    omega
  have same : (t.insertJobPlanNode { node with jobExecutionPlanID := id }).xjobMetasByJPID id = t.xjobMetasByJPID id :=
    rfl
  rw [loadedNodes, same, nodesByJPID_insertJobPlanNode, if_pos rfl, List.map_append, List.map_singleton, ← loadedNodes,
    withXjobMeta_none fresh]

theorem loadedNodes_insertXjobMeta (t : PlanTables) (id nodeID : Nat) (given : XjobMeta) :
    (t.insertXjobMeta id nodeID given).loadedNodes id =
      (t.loadedNodes id).map fun node => if node.id = nodeID then { node with xjobMeta := some given } else node := by
  have same : (t.insertXjobMeta id nodeID given).nodesByJPID id = t.nodesByJPID id := rfl
  rw [loadedNodes, same, xjobMetasByJPID_insertXjobMeta, if_pos rfl, loadedNodes, List.map_map]
  apply List.map_congr_left
  exact fun node _ => withXjobMeta_append _ _ node

theorem loadedNodes_bound (filed : t.Filed) : ∀ node ∈ t.loadedNodes id, node.id ≤ t.lastJobPlanNodeID := by
  intro node member
  obtain ⟨stored, inside, rfl⟩ := List.mem_map.mp member
  rw [withXjobMeta_id]
  exact filed.nodeIDs stored (List.mem_of_mem_filter inside)

/-- The nodes stored before are left alone by the job of the last one. -/
theorem loadedNodes_insertNode (filed : t.Filed) (id : Nat) (node : JobPlanNode) :
    (t.insertNode id node).loadedNodes id =
      t.loadedNodes id ++ [{ node with id := t.lastJobPlanNodeID + 1, jobExecutionPlanID := id }] := by
  have stored := loadedNodes_insertJobPlanNode filed id node
  obtain ⟨_, _, type, name, cluster, forkName, joinName, toNode, okNode, errorNode, delayType, delayTime, times, period,
    xjobMeta⟩ := node
  cases xjobMeta with
  | none => exact stored
  | some given =>
    change ((t.insertJobPlanNode _).insertXjobMeta id (t.lastJobPlanNodeID + 1) given).loadedNodes id = _
    rw [loadedNodes_insertXjobMeta, stored, List.map_append]
    congr 1
    · have kept : ∀ other ∈ t.loadedNodes id, other.id ≠ t.lastJobPlanNodeID + 1 := by
        intro other member
        have bound := loadedNodes_bound filed other member
        omega
      exact (List.map_congr_left fun other member => if_neg (kept other member)).trans (List.map_id _)
    · simp

/-! ### What the statements keep -/

theorem Filed.insertJobExecutionPlan (filed : t.Filed) (free : t.Free jep.key) :
    (t.insertJobExecutionPlan jep).Filed where
  toKeyed := filed.toKeyed.insertJobExecutionPlan free
  positive row member := by
    rcases List.mem_append.mp member with old | new
    · exact filed.positive row old
    · rw [List.mem_singleton.mp new]
      exact Nat.succ_ne_zero _
  nodeIDs := filed.nodeIDs
  metaNodeIDs := filed.metaNodeIDs

theorem Filed.insertJobPlanNode (filed : t.Filed) (bound : id ≤ t.lastJobExecutionPlanID) (node : JobPlanNode) :
    (t.insertJobPlanNode { node with jobExecutionPlanID := id }).Filed where
  toKeyed := ⟨filed.toNumbered.insertJobPlanNode bound node, filed.keys⟩
  positive := filed.positive
  nodeIDs other member := by
    rcases List.mem_append.mp member with old | new
    · exact Nat.le_succ_of_le (filed.nodeIDs other old)
    · rw [List.mem_singleton.mp new]
      exact Nat.le_refl _
  metaNodeIDs xjobMeta member := Nat.le_succ_of_le (filed.metaNodeIDs xjobMeta member)

theorem Filed.insertXjobMeta (filed : t.Filed) (bound : id ≤ t.lastJobExecutionPlanID) {nodeID : Nat}
    (known : nodeID ≤ t.lastJobPlanNodeID) (given : XjobMeta) : (t.insertXjobMeta id nodeID given).Filed where
  toKeyed := ⟨filed.toNumbered.insertXjobMeta bound nodeID given, filed.keys⟩
  positive := filed.positive
  nodeIDs := filed.nodeIDs
  metaNodeIDs xjobMeta member := by
    rcases List.mem_append.mp member with old | new
    · exact filed.metaNodeIDs xjobMeta old
    · rw [List.mem_singleton.mp new]
      exact known

theorem Filed.deleteJobExecutionPlan (filed : t.Filed) (id : Nat) : (t.deleteJobExecutionPlan id).Filed where
  toKeyed := filed.toKeyed.fewer (fewer_deleteJobExecutionPlan t id)
  positive row member := filed.positive row (List.mem_of_mem_filter member)
  nodeIDs := filed.nodeIDs
  metaNodeIDs := filed.metaNodeIDs

theorem Filed.deleteJobPlanNode (filed : t.Filed) (id : Nat) : (t.deleteJobPlanNode id).Filed where
  toKeyed := filed.toKeyed.fewer (fewer_deleteJobPlanNode t id)
  positive := filed.positive
  nodeIDs node member := filed.nodeIDs node (List.mem_of_mem_filter member)
  metaNodeIDs := filed.metaNodeIDs

theorem Filed.deleteXjobMeta (filed : t.Filed) (id : Nat) : (t.deleteXjobMeta id).Filed where
  toKeyed := filed.toKeyed.fewer (fewer_deleteXjobMeta t id)
  positive := filed.positive
  nodeIDs := filed.nodeIDs
  metaNodeIDs xjobMeta member := filed.metaNodeIDs xjobMeta (List.mem_of_mem_filter member)

theorem Filed.updateState (filed : t.Filed) (id : Nat) (clusterID : Option String) (state : PlanState) :
    (t.updateState id clusterID state).Filed where
  toKeyed := filed.toKeyed.updateState id clusterID state
  positive row member := by
    obtain ⟨old, inside, rfl⟩ := List.mem_map.mp member
    have positive := filed.positive old inside
    split
    · exact positive
    · exact positive
  nodeIDs := filed.nodeIDs
  metaNodeIDs := filed.metaNodeIDs

end PlanTables

end Hella

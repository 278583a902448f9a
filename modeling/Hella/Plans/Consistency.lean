import Hella.Plans.Effects

/-!
# Consistent plan tables

The tables have no foreign keys and no unique indexes. `Consistent` is what they would
say, and `SameRows` that the rows of one plan are left alone.
-/
namespace Hella

open Text

/-- What a plan is addressed by. -/
def PlanEntity.key (row : PlanEntity) : String × String := (row.clusterID, row.jepID)

namespace PlanTables

variable {t u : PlanTables} {clusterID jepID : String} {id : Nat} {row jep : PlanEntity} {node : JobPlanNode}
  {key : String × String}

/-- Generated IDs are used once, and no row refers to one that is still to come. -/
structure Numbered (t : PlanTables) : Prop where
  planIDs : (t.jobExecutionPlans.map (·.id)).Nodup
  planBound : ∀ row ∈ t.jobExecutionPlans, row.id ≤ t.lastJobExecutionPlanID
  nodeBound : ∀ node ∈ t.jobPlanNodes, node.jobExecutionPlanID ≤ t.lastJobExecutionPlanID
  metaBound : ∀ xjobMeta ∈ t.xjobMetas, xjobMeta.jobExecutionPlanID ≤ t.lastJobExecutionPlanID

structure Keyed (t : PlanTables) : Prop extends Numbered t where
  keys : (t.jobExecutionPlans.map (·.key)).Nodup

structure Consistent (t : PlanTables) : Prop extends Keyed t where
  nodes : ∀ node ∈ t.jobPlanNodes, ∃ row ∈ t.jobExecutionPlans, row.id = node.jobExecutionPlanID
  metas : ∀ xjobMeta ∈ t.xjobMetas, ∃ node ∈ t.jobPlanNodes,
    node.id = xjobMeta.jobPlanNodeID ∧ node.jobExecutionPlanID = xjobMeta.jobExecutionPlanID

theorem Numbered.eq_of_id (numbered : t.Numbered) (member : row ∈ t.jobExecutionPlans)
    (other : jep ∈ t.jobExecutionPlans) (same : row.id = jep.id) : row = jep :=
  List.inj_on_of_nodup_map numbered.planIDs member other same

theorem Keyed.eq_of_key (keyed : t.Keyed) (member : row ∈ t.jobExecutionPlans)
    (other : jep ∈ t.jobExecutionPlans) (same : row.key = jep.key) : row = jep :=
  List.inj_on_of_nodup_map keyed.keys member other same

/-! ### Queries -/

theorem mem_select (named : isBlank (some clusterID) = false) (named' : isBlank (some jepID) = false) :
    row ∈ t.selectJobExecutionPlan 0 (some clusterID) (some jepID) none ↔
      row ∈ t.jobExecutionPlans ∧ row.key = (clusterID, jepID) := by
  simp [selectJobExecutionPlan, named, named', PlanEntity.key]

theorem stored?_some (named : isBlank (some clusterID) = false) (named' : isBlank (some jepID) = false)
    (found : t.stored? clusterID jepID = some row) : row ∈ t.jobExecutionPlans ∧ row.key = (clusterID, jepID) :=
  (mem_select named named').mp (List.mem_of_mem_head? found)

theorem byID?_some (found : t.byID? id = some row) : row ∈ t.jobExecutionPlans ∧ row.id = id := by
  unfold byID? at found
  split at found
  · cases found
  next positive =>
    have member := List.mem_of_mem_head? found
    simpa [selectJobExecutionPlan, positive, isBlank] using member

/-! ### Deletions -/

/-- What a deletion leaves. -/
structure Fewer (t u : PlanTables) : Prop where
  plans : u.jobExecutionPlans.Sublist t.jobExecutionPlans
  nodes : u.jobPlanNodes.Sublist t.jobPlanNodes
  metas : u.xjobMetas.Sublist t.xjobMetas
  last : u.lastJobExecutionPlanID = t.lastJobExecutionPlanID

theorem Fewer.refl (t : PlanTables) : Fewer t t := ⟨.refl _, .refl _, .refl _, rfl⟩

theorem Fewer.trans {v : PlanTables} (first : Fewer t u) (second : Fewer u v) : Fewer t v :=
  ⟨second.plans.trans first.plans, second.nodes.trans first.nodes, second.metas.trans first.metas,
    second.last.trans first.last⟩

theorem fewer_deleteJobExecutionPlan (t : PlanTables) (id : Nat) : Fewer t (t.deleteJobExecutionPlan id) :=
  ⟨List.filter_sublist, .refl _, .refl _, rfl⟩

theorem fewer_deleteJobPlanNode (t : PlanTables) (id : Nat) : Fewer t (t.deleteJobPlanNode id) :=
  ⟨.refl _, List.filter_sublist, .refl _, rfl⟩

theorem fewer_deleteXjobMeta (t : PlanTables) (id : Nat) : Fewer t (t.deleteXjobMeta id) :=
  ⟨.refl _, .refl _, List.filter_sublist, rfl⟩

theorem fewer_deletePlan (t : PlanTables) (id : Nat) : Fewer t (t.deletePlan id) :=
  ((fewer_deleteJobExecutionPlan t id).trans (fewer_deleteJobPlanNode _ id)).trans (fewer_deleteXjobMeta _ id)

theorem fewer_cleared (t : PlanTables) (clusterID jepID : String) : Fewer t (t.cleared clusterID jepID) := by
  unfold PlanTables.cleared
  split
  · exact .refl t
  · exact fewer_deletePlan t _

theorem Numbered.fewer (numbered : t.Numbered) (fewer : Fewer t u) : u.Numbered where
  planIDs := (fewer.plans.map _).nodup numbered.planIDs
  planBound row member := by
    rw [fewer.last]
    exact numbered.planBound row (fewer.plans.subset member)
  nodeBound node member := by
    rw [fewer.last]
    exact numbered.nodeBound node (fewer.nodes.subset member)
  metaBound xjobMeta member := by
    rw [fewer.last]
    exact numbered.metaBound xjobMeta (fewer.metas.subset member)

theorem Keyed.fewer (keyed : t.Keyed) (fewer : Fewer t u) : u.Keyed :=
  ⟨keyed.toNumbered.fewer fewer, (fewer.plans.map _).nodup keyed.keys⟩

theorem Consistent.deletePlan (consistent : t.Consistent) (id : Nat) : (t.deletePlan id).Consistent where
  toKeyed := consistent.toKeyed.fewer (fewer_deletePlan t id)
  nodes node member := by
    obtain ⟨stored, kept⟩ := List.mem_filter.mp member
    obtain ⟨row, inside, same⟩ := consistent.nodes node stored
    refine ⟨row, List.mem_filter.mpr ⟨inside, ?_⟩, same⟩
    rw [same]
    exact kept
  metas xjobMeta member := by
    obtain ⟨stored, kept⟩ := List.mem_filter.mp member
    obtain ⟨node, inside, same, plan⟩ := consistent.metas xjobMeta stored
    refine ⟨node, List.mem_filter.mpr ⟨inside, ?_⟩, same, plan⟩
    rw [plan]
    exact kept

theorem mem_deletePlan : row ∈ (t.deletePlan id).jobExecutionPlans ↔ row ∈ t.jobExecutionPlans ∧ row.id ≠ id := by
  simp [PlanTables.deletePlan, deleteXjobMeta, deleteJobPlanNode, deleteJobExecutionPlan]

theorem Consistent.cleared (consistent : t.Consistent) (clusterID jepID : String) :
    (t.cleared clusterID jepID).Consistent := by
  unfold PlanTables.cleared
  split
  · exact consistent
  · exact consistent.deletePlan _

/-- No plan is stored under the key. -/
def Free (t : PlanTables) (key : String × String) : Prop := ∀ row ∈ t.jobExecutionPlans, row.key ≠ key

theorem free_of_stored?_none (named : isBlank (some clusterID) = false) (named' : isBlank (some jepID) = false)
    (absent : t.stored? clusterID jepID = none) : t.Free (clusterID, jepID) := by
  intro row member same
  have inside := (mem_select named named').mpr ⟨member, same⟩
  rw [List.head?_eq_none_iff.mp absent] at inside
  cases inside

/-- Without its one row the key is free. -/
theorem Keyed.free_deleted (keyed : t.Keyed) (named : isBlank (some clusterID) = false)
    (named' : isBlank (some jepID) = false) (found : t.stored? clusterID jepID = some row) :
    (t.deleteJobExecutionPlan row.id).Free (clusterID, jepID) := by
  intro other member same
  obtain ⟨inside, ne⟩ := List.mem_filter.mp member
  obtain ⟨stored, key⟩ := stored?_some named named' found
  have one : other = row := keyed.eq_of_key inside stored (same.trans key.symm)
  simp [one] at ne

theorem Keyed.free_cleared (keyed : t.Keyed) (named : isBlank (some clusterID) = false)
    (named' : isBlank (some jepID) = false) : (t.cleared clusterID jepID).Free (clusterID, jepID) := by
  unfold PlanTables.cleared
  cases found : t.stored? clusterID jepID with
  | none => exact free_of_stored?_none named named' found
  | some old => exact keyed.free_deleted named named' found

/-! ### Insertions -/

/-- A node writes the node and job-meta tables only. -/
theorem insertNode_plans (t : PlanTables) (id : Nat) (node : JobPlanNode) :
    (t.insertNode id node).jobExecutionPlans = t.jobExecutionPlans ∧
      (t.insertNode id node).lastJobExecutionPlanID = t.lastJobExecutionPlanID := by
  unfold insertNode
  cases node.xjobMeta <;> exact ⟨rfl, rfl⟩

theorem insertNodes_plans (t : PlanTables) (id : Nat) (nodes : List JobPlanNode) :
    (nodes.foldl (insertNode id) t).jobExecutionPlans = t.jobExecutionPlans ∧
      (nodes.foldl (insertNode id) t).lastJobExecutionPlanID = t.lastJobExecutionPlanID := by
  induction nodes generalizing t with
  | nil => exact ⟨rfl, rfl⟩
  | cons node nodes ih =>
    obtain ⟨plans, last⟩ := insertNode_plans t id node
    obtain ⟨plans', last'⟩ := ih (t.insertNode id node)
    exact ⟨plans'.trans plans, last'.trans last⟩

/-- The row of a plan that is stored. -/
def newRow (t : PlanTables) (jep : PlanEntity) : PlanEntity :=
  { jep with id := t.lastJobExecutionPlanID + 1, jobPlanNodeList := [] }

theorem insertPlan_plans (t : PlanTables) (jep : PlanEntity) :
    (t.insertPlan jep).jobExecutionPlans = t.jobExecutionPlans ++ [t.newRow jep] ∧
      (t.insertPlan jep).lastJobExecutionPlanID = t.lastJobExecutionPlanID + 1 :=
  insertNodes_plans (t.insertJobExecutionPlan jep) _ _

theorem Numbered.insertJobExecutionPlan (numbered : t.Numbered) (jep : PlanEntity) :
    (t.insertJobExecutionPlan jep).Numbered where
  planIDs := by
    change ((t.jobExecutionPlans ++ [t.newRow jep]).map (·.id)).Nodup
    rw [List.map_append, List.nodup_append]
    refine ⟨numbered.planIDs, List.nodup_singleton _, ?_⟩
    rintro _ old _ new rfl
    obtain ⟨row, member, same⟩ := List.mem_map.mp old
    rw [List.map_singleton, List.mem_singleton] at new
    have bound := numbered.planBound row member
    have equal : row.id = t.lastJobExecutionPlanID + 1 := same.trans new
    omega
  planBound row member := by
    rcases List.mem_append.mp member with old | new
    · exact Nat.le_succ_of_le (numbered.planBound row old)
    · rw [List.mem_singleton.mp new]
      exact Nat.le_refl _
  nodeBound node member := Nat.le_succ_of_le (numbered.nodeBound node member)
  metaBound xjobMeta member := Nat.le_succ_of_le (numbered.metaBound xjobMeta member)

theorem Numbered.insertJobPlanNode (numbered : t.Numbered) (bound : id ≤ t.lastJobExecutionPlanID)
    (node : JobPlanNode) : (t.insertJobPlanNode { node with jobExecutionPlanID := id }).Numbered := by
  refine ⟨numbered.planIDs, numbered.planBound, fun other member => ?_, numbered.metaBound⟩
  rcases List.mem_append.mp member with old | new
  · exact numbered.nodeBound other old
  · rw [List.mem_singleton.mp new]
    exact bound

theorem Numbered.insertXjobMeta (numbered : t.Numbered) (bound : id ≤ t.lastJobExecutionPlanID) (nodeID : Nat)
    (given : XjobMeta) : (t.insertXjobMeta id nodeID given).Numbered := by
  refine ⟨numbered.planIDs, numbered.planBound, numbered.nodeBound, fun xjobMeta member => ?_⟩
  rcases List.mem_append.mp member with old | new
  · exact numbered.metaBound xjobMeta old
  · rw [List.mem_singleton.mp new]
    exact bound

theorem Keyed.insertJobExecutionPlan (keyed : t.Keyed) (free : t.Free jep.key) :
    (t.insertJobExecutionPlan jep).Keyed := by
  refine ⟨keyed.toNumbered.insertJobExecutionPlan jep, ?_⟩
  change ((t.jobExecutionPlans ++ [t.newRow jep]).map (·.key)).Nodup
  rw [List.map_append, List.nodup_append]
  refine ⟨keyed.keys, List.nodup_singleton _, ?_⟩
  rintro _ old _ new rfl
  obtain ⟨row, member, same⟩ := List.mem_map.mp old
  rw [List.map_singleton, List.mem_singleton] at new
  exact free row member (same.trans new)

theorem Keyed.insertNode (keyed : t.Keyed) (bound : id ≤ t.lastJobExecutionPlanID) (node : JobPlanNode) :
    (t.insertNode id node).Keyed := by
  have stored := keyed.toNumbered.insertJobPlanNode bound node
  unfold PlanTables.insertNode
  cases node.xjobMeta with
  | none => exact ⟨stored, keyed.keys⟩
  | some given => exact ⟨stored.insertXjobMeta bound _ given, keyed.keys⟩

theorem Keyed.insertNodes (keyed : t.Keyed) (bound : id ≤ t.lastJobExecutionPlanID) (nodes : List JobPlanNode) :
    (nodes.foldl (PlanTables.insertNode id) t).Keyed := by
  induction nodes generalizing t with
  | nil => exact keyed
  | cons node nodes ih =>
    apply ih (keyed.insertNode bound node)
    rw [(insertNode_plans t id node).2]
    exact bound

theorem Keyed.insertPlan (keyed : t.Keyed) (free : t.Free jep.key) : (t.insertPlan jep).Keyed :=
  (keyed.insertJobExecutionPlan free).insertNodes (Nat.le_refl _) _

theorem Keyed.replacePlan (keyed : t.Keyed) (same : jep.clusterID = clusterID)
    (named : isBlank (some clusterID) = false) (named' : isBlank (some jep.jepID) = false) :
    (t.replacePlan clusterID jep).Keyed := by
  apply (keyed.fewer (fewer_cleared t clusterID jep.jepID)).insertPlan
  rw [PlanEntity.key, same]
  exact keyed.free_cleared named named'

theorem Consistent.insertNode (consistent : t.Consistent) (plan : ∃ row ∈ t.jobExecutionPlans, row.id = id)
    (node : JobPlanNode) : (t.insertNode id node).Consistent := by
  have bound : id ≤ t.lastJobExecutionPlanID := by
    obtain ⟨row, member, rfl⟩ := plan
    exact consistent.planBound row member
  have stored : (t.insertJobPlanNode { node with jobExecutionPlanID := id }).Consistent := by
    refine ⟨⟨consistent.toNumbered.insertJobPlanNode bound node, consistent.keys⟩, fun other member => ?_,
      fun xjobMeta member => ?_⟩
    · rcases List.mem_append.mp member with old | new
      · exact consistent.nodes other old
      · rw [List.mem_singleton.mp new]
        exact plan
    · obtain ⟨other, inside, same⟩ := consistent.metas xjobMeta member
      exact ⟨other, List.mem_append_left _ inside, same⟩
  unfold PlanTables.insertNode
  cases node.xjobMeta with
  | none => exact stored
  | some given =>
    refine ⟨⟨stored.toNumbered.insertXjobMeta bound _ given, stored.keys⟩, stored.nodes, fun xjobMeta member => ?_⟩
    rcases List.mem_append.mp member with old | new
    · exact stored.metas xjobMeta old
    · -- the job belongs to the node that was stored with it
      rw [List.mem_singleton.mp new]
      exact ⟨_, List.mem_append_right _ (List.mem_singleton.mpr rfl), rfl, rfl⟩

theorem Consistent.insertNodes (consistent : t.Consistent) (plan : ∃ row ∈ t.jobExecutionPlans, row.id = id)
    (nodes : List JobPlanNode) : (nodes.foldl (PlanTables.insertNode id) t).Consistent := by
  induction nodes generalizing t with
  | nil => exact consistent
  | cons node nodes ih =>
    apply ih (consistent.insertNode plan node)
    rw [(insertNode_plans t id node).1]
    exact plan

theorem Consistent.insertPlan (consistent : t.Consistent) (free : t.Free jep.key) : (t.insertPlan jep).Consistent := by
  have stored : (t.insertJobExecutionPlan jep).Consistent := by
    refine ⟨consistent.toKeyed.insertJobExecutionPlan free, fun node member => ?_, consistent.metas⟩
    obtain ⟨row, inside, same⟩ := consistent.nodes node member
    exact ⟨row, List.mem_append_left _ inside, same⟩
  exact stored.insertNodes ⟨_, List.mem_append_right _ (List.mem_singleton.mpr rfl), rfl⟩ _

theorem Consistent.replacePlan (consistent : t.Consistent) (same : jep.clusterID = clusterID)
    (named : isBlank (some clusterID) = false) (named' : isBlank (some jep.jepID) = false) :
    (t.replacePlan clusterID jep).Consistent := by
  apply (consistent.cleared clusterID jep.jepID).insertPlan
  rw [PlanEntity.key, same]
  exact consistent.toKeyed.free_cleared named named'

/-! ### The rows of one plan -/

def plansOf (t : PlanTables) (key : String × String) : List PlanEntity := t.jobExecutionPlans.filter (·.key = key)

/-- The plan has a row with the ID. -/
def hasRow (t : PlanTables) (key : String × String) (id : Nat) : Bool := (t.plansOf key).any (·.id = id)

def nodesOf (t : PlanTables) (key : String × String) : List JobPlanNode :=
  t.jobPlanNodes.filter fun node => t.hasRow key node.jobExecutionPlanID

def metasOf (t : PlanTables) (key : String × String) : List XjobMetaRow :=
  t.xjobMetas.filter fun xjobMeta => t.hasRow key xjobMeta.jobExecutionPlanID

structure SameRows (t u : PlanTables) (key : String × String) : Prop where
  plans : u.plansOf key = t.plansOf key
  nodes : u.nodesOf key = t.nodesOf key
  metas : u.metasOf key = t.metasOf key

theorem SameRows.refl (t : PlanTables) (key : String × String) : SameRows t t key := ⟨rfl, rfl, rfl⟩

theorem SameRows.trans {v : PlanTables} (first : SameRows t u key) (second : SameRows u v key) : SameRows t v key :=
  ⟨second.plans.trans first.plans, second.nodes.trans first.nodes, second.metas.trans first.metas⟩

theorem hasRow_congr (plans : u.plansOf key = t.plansOf key) : u.hasRow key = t.hasRow key := by
  funext id
  rw [hasRow, hasRow, plans]

theorem sameRows_deletePlan (other : ∀ row ∈ t.jobExecutionPlans, row.id = id → row.key ≠ key) :
    SameRows t (t.deletePlan id) key := by
  -- rows go by the id of the plan, and no plan of this key has the id that is deleted
  have outside : t.hasRow key id = false := by
    rw [hasRow, List.any_eq_false]
    intro row member same
    obtain ⟨inside, key⟩ := List.mem_filter.mp member
    exact other row inside (by simpa using same) (by simpa using key)
  have plans : (t.deletePlan id).plansOf key = t.plansOf key := by
    change (t.jobExecutionPlans.filter (·.id ≠ id)).filter (·.key = key) = _
    rw [List.filter_filter]
    apply List.filter_congr
    intro row member
    by_cases same : row.key = key
    · have ne : row.id ≠ id := fun equal => other row member equal same
      simp [same, ne]
    · simp [same]
  have ids : ∀ plan, (decide (plan ≠ id) && t.hasRow key plan) = t.hasRow key plan := by
    intro plan
    by_cases same : plan = id
    · rw [same, outside, Bool.and_false]
    · simp [same]
  constructor
  · exact plans
  · rw [nodesOf, hasRow_congr plans]
    change (t.jobPlanNodes.filter (·.jobExecutionPlanID ≠ id)).filter _ = _
    rw [List.filter_filter]
    apply List.filter_congr
    intro node _
    rw [Bool.and_comm]
    exact ids _
  · rw [metasOf, hasRow_congr plans]
    change (t.xjobMetas.filter (·.jobExecutionPlanID ≠ id)).filter _ = _
    rw [List.filter_filter]
    apply List.filter_congr
    intro xjobMeta _
    rw [Bool.and_comm]
    exact ids _

theorem sameRows_insertNode (outside : t.hasRow key id = false) (node : JobPlanNode) :
    SameRows t (t.insertNode id node) key := by
  have plans : (t.insertNode id node).plansOf key = t.plansOf key := by
    rw [plansOf, (insertNode_plans t id node).1, plansOf]
  refine ⟨plans, ?_, ?_⟩
  · rw [nodesOf, hasRow_congr plans, nodesOf]
    unfold insertNode
    cases node.xjobMeta <;> simp [insertXjobMeta, insertJobPlanNode, outside]
  · rw [metasOf, hasRow_congr plans, metasOf]
    unfold insertNode
    cases node.xjobMeta <;> simp [insertXjobMeta, insertJobPlanNode, outside]

theorem sameRows_insertNodes (outside : t.hasRow key id = false) (nodes : List JobPlanNode) :
    SameRows t (nodes.foldl (insertNode id) t) key := by
  induction nodes generalizing t with
  | nil => exact .refl _ _
  | cons node nodes ih =>
    have first := sameRows_insertNode outside node
    apply first.trans
    apply ih
    rw [hasRow_congr first.plans]
    exact outside

theorem sameRows_insertPlan (keyed : t.Keyed) (other : jep.key ≠ key) : SameRows t (t.insertPlan jep) key := by
  have fresh : t.hasRow key (t.lastJobExecutionPlanID + 1) = false := by
    rw [hasRow, List.any_eq_false]
    intro row member same
    have bound := keyed.planBound row (List.mem_of_mem_filter member)
    have equal : row.id = t.lastJobExecutionPlanID + 1 := by simpa using same
    omega
  have plans : (t.insertJobExecutionPlan jep).plansOf key = t.plansOf key := by
    change (t.jobExecutionPlans ++ [t.newRow jep]).filter (·.key = key) = _
    have ne : (t.newRow jep).key ≠ key := other
    simp [plansOf, ne]
  have stored : SameRows t (t.insertJobExecutionPlan jep) key := by
    refine ⟨plans, ?_, ?_⟩
    · rw [nodesOf, hasRow_congr plans]
      rfl
    · rw [metasOf, hasRow_congr plans]
      rfl
  apply stored.trans
  apply sameRows_insertNodes
  rw [hasRow_congr plans]
  exact fresh

theorem sameRows_cleared (keyed : t.Keyed) (named : isBlank (some clusterID) = false)
    (named' : isBlank (some jepID) = false) (other : (clusterID, jepID) ≠ key) :
    SameRows t (t.cleared clusterID jepID) key := by
  unfold PlanTables.cleared
  cases found : t.stored? clusterID jepID with
  | none => exact .refl _ _
  | some old =>
    obtain ⟨stored, same⟩ := stored?_some named named' found
    apply sameRows_deletePlan
    intro row member id
    rw [keyed.eq_of_id member stored id, same]
    exact other

theorem sameRows_replacePlan (keyed : t.Keyed) (same : jep.clusterID = clusterID)
    (named : isBlank (some clusterID) = false) (named' : isBlank (some jep.jepID) = false) (other : jep.key ≠ key) :
    SameRows t (t.replacePlan clusterID jep) key := by
  have own : (clusterID, jep.jepID) ≠ key := by
    rw [← same]
    exact other
  exact (sameRows_cleared keyed named named' own).trans
    (sameRows_insertPlan (keyed.fewer (fewer_cleared t clusterID jep.jepID)) other)

/-! ### Several plans -/

section Several

variable {plans rows : List PlanEntity}

/-- The loop of a submission. -/
theorem Keyed.replacePlans (keyed : t.Keyed) (named : isBlank (some clusterID) = false)
    (own : ∀ jep ∈ plans, jep.clusterID = clusterID) (named' : ∀ jep ∈ plans, isBlank (some jep.jepID) = false) :
    (plans.foldl (PlanTables.replacePlan clusterID) t).Keyed :=
  List.foldlRecOn plans _ keyed fun _ keyed jep member => keyed.replacePlan (own jep member) named (named' jep member)

theorem Consistent.replacePlans (consistent : t.Consistent) (named : isBlank (some clusterID) = false)
    (own : ∀ jep ∈ plans, jep.clusterID = clusterID) (named' : ∀ jep ∈ plans, isBlank (some jep.jepID) = false) :
    (plans.foldl (PlanTables.replacePlan clusterID) t).Consistent :=
  List.foldlRecOn plans _ consistent fun _ consistent jep member =>
    consistent.replacePlan (own jep member) named (named' jep member)

theorem sameRows_replacePlans (keyed : t.Keyed) (named : isBlank (some clusterID) = false)
    (own : ∀ jep ∈ plans, jep.clusterID = clusterID) (named' : ∀ jep ∈ plans, isBlank (some jep.jepID) = false)
    (other : ∀ jep ∈ plans, jep.key ≠ key) : SameRows t (plans.foldl (PlanTables.replacePlan clusterID) t) key := by
  induction plans generalizing t with
  | nil => exact .refl _ _
  | cons jep plans ih =>
    have mine : jep.clusterID = clusterID := own jep (by simp)
    have visible : isBlank (some jep.jepID) = false := named' jep (by simp)
    apply (sameRows_replacePlan keyed mine named visible (other jep (by simp))).trans
    apply ih (keyed.replacePlan mine named visible)
    · exact fun later member => own later (by simp [member])
    · exact fun later member => named' later (by simp [member])
    · exact fun later member => other later (by simp [member])

theorem Consistent.deletePlans (consistent : t.Consistent) (rows : List PlanEntity) :
    (rows.foldl (fun t row => t.deletePlan row.id) t).Consistent :=
  List.foldlRecOn rows _ consistent fun _ consistent row _ => consistent.deletePlan row.id

theorem sameRows_deletePlans
    (other : ∀ deleted ∈ rows, ∀ row ∈ t.jobExecutionPlans, row.id = deleted.id → row.key ≠ key) :
    SameRows t (rows.foldl (fun t row => t.deletePlan row.id) t) key := by
  induction rows generalizing t with
  | nil => exact .refl _ _
  | cons deleted rows ih =>
    apply (sameRows_deletePlan (other deleted (by simp))).trans
    apply ih
    intro later member row inside
    exact other later (by simp [member]) row (mem_deletePlan.mp inside).1

end Several

end PlanTables

end Hella

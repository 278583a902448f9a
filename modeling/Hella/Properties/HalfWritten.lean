import Hella.Plans.Failures
import Mathlib.Algebra.GroupWithZero.Nat

/-!
# What a submission that fails leaves in the tables

Every statement is committed on its own and the rollback does nothing. A failure is without
consequences where nothing has been written yet, and in one other case: the plans of the
submission replace each other, so that what has been written has just been deleted again.
-/
namespace Hella

open Exec Runs Text

variable {env : PlanEnv} {s v : PlanSystem} {t u : PlanTables} {context : JobExecutionPlanSubmissionContext}
  {clusterId : String} {previous jep : PlanEntity} {jeps : List PlanEntity} {id n : Nat}

/-! ### Calls in a row -/

/-- `k` DAO calls from the `n`-th on succeed. -/
def PlanEnv.Succeed (env : PlanEnv) (n k : Nat) : Prop := ∀ i < k, env.daoSucceeds (n + i) = true

theorem succeed_add {j k : Nat} : env.Succeed n (j + k) ↔ env.Succeed n j ∧ env.Succeed (n + j) k := by
  constructor
  · intro all
    refine ⟨fun i below => all i (by omega), fun i below => ?_⟩
    rw [Nat.add_assoc]
    exact all (j + i) (by omega)
  · rintro ⟨first, second⟩ i below
    by_cases early : i < j
    · exact first i early
    · have late := second (i - j) (by omega)
      rwa [Nat.add_assoc, Nat.add_sub_cancel' (by omega)] at late

theorem succeed_one : env.Succeed n 1 ↔ env.daoSucceeds n = true := by
  constructor
  · exact fun all => all 0 (by omega)
  · intro succeeds i below
    obtain rfl : i = 0 := by omega
    exact succeeds

theorem succeed_succ {k : Nat} : env.Succeed n (k + 1) ↔ env.Succeed n k ∧ env.daoSucceeds (n + k) = true := by
  rw [succeed_add, succeed_one]

theorem not_succeed {i k : Nat} (fails : env.daoSucceeds (n + i) = false) (below : i < k) : ¬ env.Succeed n k := by
  intro all
  have succeeds := all i below
  rw [fails] at succeeds
  cases succeeds

theorem succeed_mono {j k : Nat} (less : j ≤ k) (all : env.Succeed n k) : env.Succeed n j :=
  fun i below => all i (by omega)

/-- A node is one call and its job another. -/
def JobPlanNode.calls (node : JobPlanNode) : Nat := if node.xjobMeta.isSome then 2 else 1

def nodeCalls (nodes : List JobPlanNode) : Nat := (nodes.map JobPlanNode.calls).sum

/-! ### When a failure has no consequences -/

/-- A query for a submitted plan finds the row. -/
def Finds (clusterId jepID : String) (row : PlanEntity) : Prop :=
  row.clusterID = clusterId ∧ (isBlank (some jepID) = true ∨ row.jepID = jepID)

/-- The failure comes when the rows of the plan before have been deleted again: after the
query, the deletion of its plan row, of its nodes if there are any and of its jobs if there
are any. -/
def FailsClearing (env : PlanEnv) (previous : PlanEntity) (n : Nat) : Prop :=
  (env.Succeed n 2 ∧ env.daoSucceeds (n + 2) = false ∧ previous.jobPlanNodeList = []) ∨
    (env.Succeed n 3 ∧ env.daoSucceeds (n + 3) = false ∧ ∀ node ∈ previous.jobPlanNodeList, node.xjobMeta = none) ∨
      (env.Succeed n 4 ∧ env.daoSucceeds (n + 4) = false)

/-- The remaining plans replace each other until the failure comes between two of them. -/
def FailsBetween (env : PlanEnv) (clusterId : String) : PlanEntity → Nat → List PlanEntity → Prop
  | _, _, [] => False
  | previous, n, jep :: jeps =>
    let calls := 5 + nodeCalls jep.jobPlanNodeList
    Finds clusterId jep.jepID previous ∧
      (FailsClearing env previous n ∨ (env.Succeed n calls ∧ FailsBetween env clusterId jep (n + calls) jeps))

/-- The submission comes to no writing; or its first query or first statement fails; or its
plans replace each other, where nothing has been stored under the first, and the failure
comes between two of them. -/
def FailsHarmlessly (env : PlanEnv) (s : PlanSystem) (context : JobExecutionPlanSubmissionContext) : Prop :=
  isBlank (some context.clusterId) = true ∨
    match context.jobExecutionPlans with
    | [] => True
    | jep :: jeps =>
      let calls := 2 + nodeCalls jep.jobPlanNodeList
      ¬ env.Succeed s.tick 2 ∨
        (s.tables.stored? context.clusterId jep.jepID = none ∧ env.Succeed s.tick calls ∧
          FailsBetween env context.clusterId jep (s.tick + calls) jeps)

/-! ### Tables that have changed -/

namespace PlanTables

/-- The rows are the same; the counters may have moved on. -/
structure SameTables (t u : PlanTables) : Prop where
  plans : u.jobExecutionPlans = t.jobExecutionPlans
  nodes : u.jobPlanNodes = t.jobPlanNodes
  metas : u.xjobMetas = t.xjobMetas

/-- An old plan is missing or a new one is there. -/
def Touched (t u : PlanTables) : Prop :=
  (∃ row ∈ t.jobExecutionPlans, row ∉ u.jobExecutionPlans) ∨
    ∃ row ∈ u.jobExecutionPlans, t.lastJobExecutionPlanID < row.id

/-- An old plan is missing or two new ones are there, of which the next turn of the loop can
delete one. -/
def Spoiled (t u : PlanTables) : Prop :=
  (∃ row ∈ t.jobExecutionPlans, row ∉ u.jobExecutionPlans) ∨
    ∃ row ∈ u.jobExecutionPlans, ∃ other ∈ u.jobExecutionPlans,
      t.lastJobExecutionPlanID < row.id ∧ t.lastJobExecutionPlanID < other.id ∧ row.id ≠ other.id

/-- Later tables, whose new IDs are new. -/
structure Later (t u : PlanTables) : Prop where
  numbered : u.Numbered
  last : t.lastJobExecutionPlanID ≤ u.lastJobExecutionPlanID

theorem Later.fewer {w : PlanTables} (later : Later t u) (fewer : Fewer u w) : Later t w :=
  ⟨later.numbered.fewer fewer, by rw [fewer.last]; exact later.last⟩

theorem not_same_of_touched (numbered : t.Numbered) (touched : Touched t u) : ¬ SameTables t u := by
  intro same
  rcases touched with ⟨row, member, missing⟩ | ⟨row, member, fresh⟩
  · rw [same.plans] at missing
    exact missing member
  · rw [same.plans] at member
    have bound := numbered.planBound row member
    omega

theorem Spoiled.touched (spoiled : Spoiled t u) : Touched t u := by
  rcases spoiled with missing | ⟨row, member, _, _, fresh, _, _⟩
  · exact .inl missing
  · exact .inr ⟨row, member, fresh⟩

/-- Of two new plans a deletion leaves one. -/
theorem Spoiled.deleteJobExecutionPlan (spoiled : Spoiled t u) (id : Nat) :
    Touched t (u.deleteJobExecutionPlan id) := by
  rcases spoiled with ⟨row, member, missing⟩ | ⟨row, member, other, member', fresh, fresh', ne⟩
  · exact .inl ⟨row, member, fun inside => missing (List.mem_of_mem_filter inside)⟩
  · by_cases deleted : row.id = id
    · refine .inr ⟨other, List.mem_filter.mpr ⟨member', ?_⟩, fresh'⟩
      rw [← deleted]
      exact decide_eq_true ne.symm
    · exact .inr ⟨row, List.mem_filter.mpr ⟨member, decide_eq_true deleted⟩, fresh⟩

/-- A new plan beside another, or beside a missing one. -/
theorem Touched.insertJobExecutionPlan (numbered : t.Numbered) (later : Later t u) (touched : Touched t u)
    (jep : PlanEntity) : Spoiled t (u.insertJobExecutionPlan jep) := by
  have last := later.last
  rcases touched with ⟨row, member, missing⟩ | ⟨row, member, fresh⟩
  · refine .inl ⟨row, member, fun inside => ?_⟩
    rcases List.mem_append.mp inside with old | new
    · exact missing old
    · have bound := numbered.planBound row member
      rw [List.mem_singleton.mp new] at bound
      dsimp only at bound
      omega
  · have bound := later.numbered.planBound row member
    refine .inr ⟨row, List.mem_append_left _ member, _,
      List.mem_append_right _ (List.mem_singleton.mpr rfl), fresh, ?_, ?_⟩
    · dsimp only
      omega
    · dsimp only
      omega

end PlanTables

/-! ### Turns of the loop that cannot make it up -/

/-- After a plan has been touched, storing another spoils the tables. -/
theorem touched_save (env : PlanEnv) (numbered : t.Numbered) (jep : PlanEntity) :
    Triple (fun s => t.Later s.tables ∧ t.Touched s.tables) (JobPlanManager.saveJobExecutionPlan env jep)
      (fun _ s => t.Later s.tables ∧ t.Spoiled s.tables) fun _ s => t.Touched s.tables := by
  apply saveJobExecutionPlan_triple (P := fun u => t.Later u ∧ t.Touched u) (I := fun u => t.Later u ∧ t.Spoiled u)
    (E := t.Touched)
  · rintro u ⟨later, touched⟩
    exact ⟨⟨later.numbered.insertJobExecutionPlan jep, Nat.le_succ_of_le later.last⟩,
      touched.insertJobExecutionPlan numbered later jep⟩
  · exact fun _ holds => holds.2
  · exact fun _ holds => holds.2.touched
  · exact fun u _ node ⟨later, spoiled⟩ bound => ⟨⟨later.numbered.insertJobPlanNode bound node, later.last⟩, spoiled⟩
  · exact fun u _ _ _ ⟨later, spoiled⟩ bound => ⟨⟨later.numbered.insertXjobMeta bound _ _, later.last⟩, spoiled⟩

/-- A deletion after which a plan is still touched. -/
theorem touched_delete (env : PlanEnv) {P : PlanTables → Prop} (id : Nat)
    (deletes : ∀ u, P u → t.Later u ∧ t.Touched (u.deleteJobExecutionPlan id)) (before : ∀ u, P u → t.Touched u) :
    Triple (fun s => P s.tables) (JobPlanManager.deleteJobPlan env id)
      (fun _ s => t.Later s.tables ∧ t.Touched s.tables) fun _ s => t.Touched s.tables := by
  apply deleteJobPlan_triple (P := P) (Q := fun u => t.Later u ∧ t.Touched u) (E := t.Touched)
  · exact fun u holds =>
      ⟨(deletes u holds).1.fewer (PlanTables.fewer_deleteJobExecutionPlan _ _), (deletes u holds).2⟩
  · exact fun u ⟨later, touched⟩ => ⟨later.fewer (PlanTables.fewer_deleteJobPlanNode _ _), touched⟩
  · exact fun u ⟨later, touched⟩ => ⟨later.fewer (PlanTables.fewer_deleteXjobMeta _ _), touched⟩
  · exact before
  · exact fun _ holds => holds.2

theorem spoiled_turn (numbered : t.Numbered) (clusterId : String) (jep : PlanEntity) :
    Triple (fun s => t.Later s.tables ∧ t.Spoiled s.tables) (JobPlanManager.replaceJobPlan env clusterId jep)
      (fun _ s => t.Later s.tables ∧ t.Spoiled s.tables) fun _ s => t.Touched s.tables := by
  apply Triple.bind (Q := fun _ s => t.Later s.tables ∧ t.Touched s.tables)
  · have queries : Keeps (fun s => t.Later s.tables ∧ t.Spoiled s.tables)
        (JobExecutionPlanDao.queryJobPlan env clusterId jep.jepID none) :=
      keeps_queryJobPlan (I := fun u => t.Later u ∧ t.Spoiled u) _ _ _
    apply Triple.bind (queries.conseq (fun _ holds => holds) (fun _ _ holds => holds) fun _ _ holds => holds.2.touched)
    intro list
    split
    · exact .pure fun s ⟨later, spoiled⟩ => ⟨later, spoiled.touched⟩
    · apply touched_delete env (P := fun u => t.Later u ∧ t.Spoiled u)
      · exact fun u ⟨later, spoiled⟩ => ⟨later, spoiled.deleteJobExecutionPlan _⟩
      · exact fun u ⟨_, spoiled⟩ => spoiled.touched
  · exact fun _ => touched_save env numbered jep

/-- Once the tables are spoiled, a failure leaves them changed. -/
theorem spoiled_loop (numbered : t.Numbered) (clusterId : String) (jeps : List PlanEntity) :
    Triple (fun s => t.Later s.tables ∧ t.Spoiled s.tables) (JobPlanManager.saveJobPlans env clusterId jeps)
      (fun _ s => t.Later s.tables ∧ t.Spoiled s.tables) fun _ s => t.Touched s.tables := by
  induction jeps with
  | nil => exact .pure fun _ holds => holds
  | cons jep jeps ih =>
    exact (spoiled_turn numbered clusterId jep).bind fun _ => ih.bind fun _ => .pure fun _ holds => holds

/-! ### What the calls of a turn do -/

theorem queryJobPlan_ok (jepID : String) (succeeds : env.daoSucceeds s.tick = true) :
    JobExecutionPlanDao.queryJobPlan env clusterId jepID none s =
      .ok (s.tables.selectJobExecutionPlan 0 (some clusterId) (some jepID) none) { s with tick := s.tick + 1 } := by
  unfold JobExecutionPlanDao.queryJobPlan
  rw [bind_ok (daoCall_succeeds succeeds)]
  rfl

theorem clearJobPlan_error (jepID : String) (fails : env.daoSucceeds s.tick = false) :
    JobPlanManager.clearJobPlan env clusterId jepID s = .error .daoException { s with tick := s.tick + 1 } := by
  unfold JobPlanManager.clearJobPlan JobExecutionPlanDao.queryJobPlan
  exact bind_error (bind_error (daoCall_error fails))

theorem clearJobPlan_none {jepID : String} (succeeds : env.daoSucceeds s.tick = true)
    (absent : s.tables.stored? clusterId jepID = none) :
    JobPlanManager.clearJobPlan env clusterId jepID s = .ok () { s with tick := s.tick + 1 } := by
  unfold JobPlanManager.clearJobPlan
  rw [bind_ok (queryJobPlan_ok jepID succeeds)]
  have first : (s.tables.selectJobExecutionPlan 0 (some clusterId) (some jepID) none).head? = none := absent
  rw [first]
  rfl

theorem clearJobPlan_some {jepID : String} {old : PlanEntity} (succeeds : env.daoSucceeds s.tick = true)
    (found : s.tables.stored? clusterId jepID = some old) :
    JobPlanManager.clearJobPlan env clusterId jepID s =
      JobPlanManager.deleteJobPlan env old.id { s with tick := s.tick + 1 } := by
  unfold JobPlanManager.clearJobPlan
  rw [bind_ok (queryJobPlan_ok jepID succeeds)]
  have first : (s.tables.selectJobExecutionPlan 0 (some clusterId) (some jepID) none).head? = some old := found
  rw [first]

/-- The three deletions, and what is left when one of them fails. -/
theorem deleteJobPlan_spec (env : PlanEnv) (id : Nat) (s : PlanSystem) :
    match JobPlanManager.deleteJobPlan env id s with
    | .ok _ v => env.Succeed s.tick 3 ∧ v.tick = s.tick + 3 ∧ v.tables = s.tables.deletePlan id
    | .error _ v =>
      (env.daoSucceeds s.tick = false ∧ v.tables = s.tables) ∨
        (env.Succeed s.tick 1 ∧ env.daoSucceeds (s.tick + 1) = false ∧ v.tables = s.tables.deleteJobExecutionPlan id) ∨
          (env.Succeed s.tick 2 ∧ env.daoSucceeds (s.tick + 2) = false ∧
            v.tables = (s.tables.deleteJobExecutionPlan id).deleteJobPlanNode id) := by
  unfold JobPlanManager.deleteJobPlan JobExecutionPlanDao.delJobExecutionPlan JobExecutionPlanDao.delJobPlanNode
    JobExecutionPlanDao.delXjobMeta
  -- plan row, node rows, job rows: each deletion is a statement of its own, and none is taken back
  cases first : env.daoSucceeds s.tick with
  | false =>
    rw [bind_error (update_error _ first)]
    exact .inl ⟨rfl, rfl⟩
  | true =>
    have one : env.Succeed s.tick 1 := succeed_one.mpr first
    rw [bind_ok (update_ok _ first)]
    cases second : env.daoSucceeds (s.tick + 1) with
    | false =>
      rw [bind_error (update_error _ second)]
      exact .inr (.inl ⟨one, rfl, rfl⟩)
    | true =>
      have two : env.Succeed s.tick 2 := succeed_succ.mpr ⟨one, second⟩
      rw [bind_ok (update_ok _ second)]
      cases third : env.daoSucceeds (s.tick + 2) with
      | false =>
        rw [update_error _ third]
        exact .inr (.inr ⟨two, rfl, rfl⟩)
      | true =>
        rw [update_ok _ third]
        exact ⟨succeed_succ.mpr ⟨two, third⟩, rfl, rfl⟩

/-- Storing nodes does not touch the plans, and how many calls it makes is known before. -/
def StoresNodes (env : PlanEnv) (calls : Nat) (store : PlanTables → PlanTables) (s : PlanSystem)
    (result : EStateM.Result Throwable PlanSystem Unit) : Prop :=
  match result with
  | .ok _ v => env.Succeed s.tick calls ∧ v.tick = s.tick + calls ∧ v.tables = store s.tables
  | .error _ v => ¬ env.Succeed s.tick calls ∧ v.tables.jobExecutionPlans = s.tables.jobExecutionPlans

theorem saveJobPlanNode_ok (node : JobPlanNode) (succeeds : env.daoSucceeds s.tick = true) :
    JobExecutionPlanDao.saveJobPlanNode env node s = .ok { node with id := s.tables.lastJobPlanNodeID + 1 }
      { s with tick := s.tick + 1, tables := s.tables.insertJobPlanNode node } :=
  (bind_ok (get_apply s)).trans (bind_ok (update_ok _ succeeds))

theorem saveJobPlanNode_error (node : JobPlanNode) (fails : env.daoSucceeds s.tick = false) :
    JobExecutionPlanDao.saveJobPlanNode env node s = .error .daoException { s with tick := s.tick + 1 } :=
  (bind_ok (get_apply s)).trans (bind_error (update_error _ fails))

theorem save_ok (jep : PlanEntity) (succeeds : env.daoSucceeds s.tick = true) :
    JobExecutionPlanDao.save env jep s = .ok { jep with id := s.tables.lastJobExecutionPlanID + 1 }
      { s with tick := s.tick + 1, tables := s.tables.insertJobExecutionPlan jep } :=
  (bind_ok (get_apply s)).trans (bind_ok (update_ok _ succeeds))

theorem save_error (jep : PlanEntity) (fails : env.daoSucceeds s.tick = false) :
    JobExecutionPlanDao.save env jep s = .error .daoException { s with tick := s.tick + 1 } :=
  (bind_ok (get_apply s)).trans (bind_error (update_error _ fails))

theorem saveNode_spec (env : PlanEnv) (id : Nat) (node : JobPlanNode) (s : PlanSystem) :
    StoresNodes env node.calls (PlanTables.insertNode id · node) s (JobPlanManager.saveNode env id node s) := by
  unfold JobPlanManager.saveNode JobPlanNode.calls
  cases first : env.daoSucceeds s.tick with
  | false =>
    rw [bind_error (saveJobPlanNode_error _ first)]
    exact ⟨not_succeed (i := 0) first (by split <;> omega), rfl⟩
  | true =>
    have one : env.Succeed s.tick 1 := succeed_one.mpr first
    rw [bind_ok (saveJobPlanNode_ok _ first)]
    unfold PlanTables.insertNode
    dsimp only
    cases node.xjobMeta with
    | none => exact ⟨one, rfl, rfl⟩
    | some xjobMeta =>
      unfold JobExecutionPlanDao.saveXjobMeta
      dsimp only
      cases second : env.daoSucceeds (s.tick + 1) with
      | false =>
        rw [update_error _ second]
        exact ⟨not_succeed second (by simp), rfl⟩
      | true =>
        rw [update_ok _ second]
        exact ⟨succeed_succ.mpr ⟨one, second⟩, rfl, rfl⟩

theorem saveNodes_spec (env : PlanEnv) (id : Nat) (nodes : List JobPlanNode) (s : PlanSystem) :
    StoresNodes env (nodeCalls nodes) (fun t => nodes.foldl (PlanTables.insertNode id) t) s
      (nodes.forM (JobPlanManager.saveNode env id) s) := by
  induction nodes generalizing s with
  | nil => exact ⟨fun i below => absurd below (Nat.not_lt_zero i), rfl, rfl⟩
  | cons node nodes ih =>
    -- the calls of the nodes add up, so a failure is in the first node or in the rest
    have calls : nodeCalls (node :: nodes) = node.calls + nodeCalls nodes := by simp [nodeCalls]
    have first := saveNode_spec env id node s
    rw [calls]
    change StoresNodes env _ _ s
      ((JobPlanManager.saveNode env id node >>= fun _ => nodes.forM (JobPlanManager.saveNode env id)) s)
    rw [bind_apply]
    cases stored : JobPlanManager.saveNode env id node s with
    | error e v =>
      rw [stored] at first
      exact ⟨fun all => first.1 (succeed_add.mp all).1, first.2⟩
    | ok _ v =>
      rw [stored] at first
      obtain ⟨succeed, tick, tables⟩ := first
      have rest := ih v
      dsimp only
      cases stored' : nodes.forM (JobPlanManager.saveNode env id) v with
      | error e w =>
        rw [stored'] at rest
        obtain ⟨fails, plans⟩ := rest
        rw [tick] at fails
        refine ⟨fun all => fails (succeed_add.mp all).2, plans.trans ?_⟩
        rw [tables]
        exact (PlanTables.insertNode_plans _ _ _).1
      | ok _ w =>
        rw [stored'] at rest
        obtain ⟨succeed', tick', tables'⟩ := rest
        rw [tick] at succeed' tick'
        refine ⟨succeed_add.mpr ⟨succeed, succeed'⟩, by rw [tick', Nat.add_assoc], ?_⟩
        rw [tables', tables]
        rfl

/-- Storing a plan. -/
theorem saveJobExecutionPlan_spec (env : PlanEnv) (jep : PlanEntity) (s : PlanSystem) :
    match JobPlanManager.saveJobExecutionPlan env jep s with
    | .ok _ v =>
      env.Succeed s.tick (1 + nodeCalls jep.jobPlanNodeList) ∧
        v.tick = s.tick + (1 + nodeCalls jep.jobPlanNodeList) ∧ v.tables = s.tables.insertPlan jep
    | .error _ v =>
      (env.daoSucceeds s.tick = false ∧ v.tables = s.tables) ∨
        (env.daoSucceeds s.tick = true ∧ ¬ env.Succeed s.tick (1 + nodeCalls jep.jobPlanNodeList) ∧
          v.tables.jobExecutionPlans = s.tables.jobExecutionPlans ++ [s.tables.newRow jep]) := by
  unfold JobPlanManager.saveJobExecutionPlan
  cases first : env.daoSucceeds s.tick with
  | false =>
    rw [bind_error (save_error _ first)]
    exact .inl ⟨rfl, rfl⟩
  | true =>
    -- the row of the plan stays behind when one of its nodes cannot be saved
    rw [bind_ok (save_ok _ first)]
    have nodes := saveNodes_spec env (s.tables.lastJobExecutionPlanID + 1) jep.jobPlanNodeList
      { s with tick := s.tick + 1, tables := s.tables.insertJobExecutionPlan jep }
    -- what is left is the loop over the nodes, which keep the id of the row
    rw [bind_apply]
    dsimp only
    cases stored : jep.jobPlanNodeList.forM (JobPlanManager.saveNode env (s.tables.lastJobExecutionPlanID + 1))
        { s with tick := s.tick + 1, tables := s.tables.insertJobExecutionPlan jep } with
    | ok _ v =>
      rw [stored] at nodes
      obtain ⟨succeed, tick, tables⟩ := nodes
      refine ⟨succeed_add.mpr ⟨succeed_one.mpr first, succeed⟩, ?_, tables⟩
      rw [tick]
      exact Nat.add_assoc _ _ _
    | error e v =>
      rw [stored] at nodes
      exact .inr ⟨rfl, fun all => nodes.1 (succeed_add.mp all).2, nodes.2⟩

/-! ### One plan too many -/

namespace PlanTables

/-- The tables of before with the rows of one plan more, which is the newest. -/
structure Surplus (t : PlanTables) (previous : PlanEntity) (u : PlanTables) : Prop where
  plans : u.jobExecutionPlans =
    t.jobExecutionPlans ++ [{ previous with id := u.lastJobExecutionPlanID, jobPlanNodeList := [] }]
  fresh : t.lastJobExecutionPlanID < u.lastJobExecutionPlanID
  nodes : ∃ added, u.jobPlanNodes = t.jobPlanNodes ++ added ∧
    (∀ node ∈ added, node.jobExecutionPlanID = u.lastJobExecutionPlanID) ∧ (added = [] ↔ previous.jobPlanNodeList = [])
  metas : ∃ added, u.xjobMetas = t.xjobMetas ++ added ∧
    (∀ xjobMeta ∈ added, xjobMeta.jobExecutionPlanID = u.lastJobExecutionPlanID) ∧
      (added = [] ↔ ∀ node ∈ previous.jobPlanNodeList, node.xjobMeta = none)

/-- The rows that the nodes of a plan add. -/
theorem insertNodes_rows (u : PlanTables) (id : Nat) (nodes : List JobPlanNode) :
    (∃ added, (nodes.foldl (insertNode id) u).jobPlanNodes = u.jobPlanNodes ++ added ∧
      (∀ node ∈ added, node.jobExecutionPlanID = id) ∧ (added = [] ↔ nodes = [])) ∧
    ∃ added, (nodes.foldl (insertNode id) u).xjobMetas = u.xjobMetas ++ added ∧
      (∀ xjobMeta ∈ added, xjobMeta.jobExecutionPlanID = id) ∧ (added = [] ↔ ∀ node ∈ nodes, node.xjobMeta = none) := by
  induction nodes generalizing u with
  | nil => exact ⟨⟨[], by simp⟩, [], by simp⟩
  | cons node nodes ih =>
    -- only a node with a job adds a row to the second table
    obtain ⟨⟨added, rows, own, -⟩, added', rows', own', none_⟩ := ih (u.insertNode id node)
    rw [List.foldl_cons]
    constructor
    · refine ⟨{ node with jobExecutionPlanID := id, id := u.lastJobPlanNodeID + 1, xjobMeta := none } ::
        added, ?_, ?_, by simp⟩
      · rw [rows]
        unfold insertNode
        cases node.xjobMeta <;> exact List.append_assoc _ [_] _
      · exact List.forall_mem_cons.mpr ⟨rfl, own⟩
    · cases given : node.xjobMeta with
      | none =>
        have same : (u.insertNode id node).xjobMetas = u.xjobMetas := by
          unfold insertNode
          rw [given]
          rfl
        rw [same] at rows'
        exact ⟨added', rows', own', by simp [none_, given]⟩
      | some xjobMeta =>
        have more : (u.insertNode id node).xjobMetas =
            u.xjobMetas ++ [⟨u.lastXjobMetaID + 1, id, u.lastJobPlanNodeID + 1, xjobMeta⟩] := by
          unfold insertNode
          rw [given]
          rfl
        rw [more, List.append_assoc, List.singleton_append] at rows'
        exact ⟨_, rows', List.forall_mem_cons.mpr ⟨rfl, own'⟩, by simp [given]⟩

theorem surplus_insertPlan (same : SameTables t u) (last : t.lastJobExecutionPlanID ≤ u.lastJobExecutionPlanID)
    (jep : PlanEntity) : Surplus t jep (u.insertPlan jep) := by
  obtain ⟨plans, last'⟩ := insertPlan_plans u jep
  obtain ⟨nodes, metas⟩ :=
    insertNodes_rows (u.insertJobExecutionPlan jep) (u.lastJobExecutionPlanID + 1) jep.jobPlanNodeList
  constructor
  · rw [plans, same.plans, last']
    rfl
  · omega
  · rw [last', ← same.nodes]
    exact nodes
  · rw [last', ← same.metas]
    exact metas

variable (numbered : t.Numbered) (surplus : t.Surplus previous u)
include numbered surplus

theorem Surplus.plans_deleted : (u.deleteJobExecutionPlan u.lastJobExecutionPlanID).jobExecutionPlans =
    t.jobExecutionPlans := by
  have old : t.jobExecutionPlans.filter (·.id ≠ u.lastJobExecutionPlanID) = t.jobExecutionPlans := by
    rw [List.filter_eq_self]
    intro row member
    have bound := numbered.planBound row member
    have fresh := surplus.fresh
    exact decide_eq_true (by omega)
  change u.jobExecutionPlans.filter _ = _
  rw [surplus.plans, List.filter_append, old]
  simp

theorem Surplus.nodes_deleted : (u.deleteJobPlanNode u.lastJobExecutionPlanID).jobPlanNodes = t.jobPlanNodes := by
  obtain ⟨added, rows, own, -⟩ := surplus.nodes
  have old : t.jobPlanNodes.filter (·.jobExecutionPlanID ≠ u.lastJobExecutionPlanID) = t.jobPlanNodes := by
    rw [List.filter_eq_self]
    intro node member
    have bound := numbered.nodeBound node member
    have fresh := surplus.fresh
    exact decide_eq_true (by omega)
  have new : added.filter (·.jobExecutionPlanID ≠ u.lastJobExecutionPlanID) = [] := by
    rw [List.filter_eq_nil_iff]
    intro node member
    simp [own node member]
  change u.jobPlanNodes.filter _ = _
  rw [rows, List.filter_append, old, new, List.append_nil]

theorem Surplus.metas_deleted : (u.deleteXjobMeta u.lastJobExecutionPlanID).xjobMetas = t.xjobMetas := by
  obtain ⟨added, rows, own, -⟩ := surplus.metas
  have old : t.xjobMetas.filter (·.jobExecutionPlanID ≠ u.lastJobExecutionPlanID) = t.xjobMetas := by
    rw [List.filter_eq_self]
    intro xjobMeta member
    have bound := numbered.metaBound xjobMeta member
    have fresh := surplus.fresh
    exact decide_eq_true (by omega)
  have new : added.filter (·.jobExecutionPlanID ≠ u.lastJobExecutionPlanID) = [] := by
    rw [List.filter_eq_nil_iff]
    intro xjobMeta member
    simp [own xjobMeta member]
  change u.xjobMetas.filter _ = _
  rw [rows, List.filter_append, old, new, List.append_nil]

omit numbered in
theorem Surplus.metas_same : u.xjobMetas = t.xjobMetas ↔ ∀ node ∈ previous.jobPlanNodeList, node.xjobMeta = none := by
  obtain ⟨added, rows, -, none_⟩ := surplus.metas
  rw [rows, ← none_]
  exact List.append_right_eq_self

omit numbered in
theorem Surplus.nodes_same : u.jobPlanNodes = t.jobPlanNodes ↔ previous.jobPlanNodeList = [] := by
  obtain ⟨added, rows, -, none_⟩ := surplus.nodes
  rw [rows, ← none_]
  exact List.append_right_eq_self

/-- With the plan row deleted, only its nodes and their jobs are too many. -/
theorem Surplus.same_first :
    SameTables t (u.deleteJobExecutionPlan u.lastJobExecutionPlanID) ↔ previous.jobPlanNodeList = [] := by
  constructor
  · exact fun same => surplus.nodes_same.mp same.nodes
  · intro none_
    refine ⟨surplus.plans_deleted numbered, surplus.nodes_same.mpr none_, surplus.metas_same.mpr ?_⟩
    rw [none_]
    exact fun node member => by cases member

theorem Surplus.same_second :
    SameTables t ((u.deleteJobExecutionPlan u.lastJobExecutionPlanID).deleteJobPlanNode u.lastJobExecutionPlanID) ↔
      ∀ node ∈ previous.jobPlanNodeList, node.xjobMeta = none := by
  constructor
  · exact fun same => surplus.metas_same.mp same.metas
  · intro none_
    have nodes := surplus.nodes_deleted numbered
    exact ⟨surplus.plans_deleted numbered, nodes, surplus.metas_same.mpr none_⟩

theorem Surplus.same_third : SameTables t (u.deletePlan u.lastJobExecutionPlanID) := by
  have nodes := surplus.nodes_deleted numbered
  have metas := surplus.metas_deleted numbered
  exact ⟨surplus.plans_deleted numbered, nodes, metas⟩

omit numbered in
theorem Surplus.newest_mem :
    { previous with id := u.lastJobExecutionPlanID, jobPlanNodeList := [] } ∈ u.jobExecutionPlans := by
  rw [surplus.plans]
  exact List.mem_append_right _ (List.mem_singleton.mpr rfl)

omit numbered in
theorem Surplus.touched : Touched t u := .inr ⟨_, surplus.newest_mem, surplus.fresh⟩

end PlanTables

/-! ### Which row the next plan finds -/

section Query

variable {rows : List PlanEntity} {row : PlanEntity}

theorem head?_newest (member : row ∈ rows) (newest : ∀ other ∈ rows, row.id ≤ other.id → other = row) :
    (rows.insertionSort fun a b => b.id ≤ a.id).head? = some row := by
  have sorted := List.pairwise_insertionSort (fun a b : PlanEntity => b.id ≤ a.id) rows
  have inside := (List.mem_insertionSort (fun a b : PlanEntity => b.id ≤ a.id)).mpr member
  cases sort : rows.insertionSort fun a b => b.id ≤ a.id with
  | nil =>
    rw [sort] at inside
    cases inside
  | cons first rest =>
    rw [sort] at inside sorted
    have first_ : first ∈ rows := by
      apply (List.mem_insertionSort (fun a b : PlanEntity => b.id ≤ a.id)).mp
      rw [sort]
      exact List.mem_cons_self
    have above : row.id ≤ first.id := by
      rcases List.mem_cons.mp inside with same | later
      · rw [same]
      · exact (List.pairwise_cons.mp sorted).1 row later
    rw [newest first first_ above]
    rfl

theorem mem_query (named : isBlank (some clusterId) = false) {jepID : String} :
    row ∈ u.selectJobExecutionPlan 0 (some clusterId) (some jepID) none ↔
      row ∈ u.jobExecutionPlans ∧ Finds clusterId jepID row := by
  simp [PlanTables.selectJobExecutionPlan, named, Finds]

theorem stored?_newest (numbered : t.Numbered) (surplus : t.Surplus previous u)
    (named : isBlank (some clusterId) = false) {jepID : String} (finds : Finds clusterId jepID previous) :
    u.stored? clusterId jepID = some { previous with id := u.lastJobExecutionPlanID, jobPlanNodeList := [] } := by
  have inside : { previous with id := u.lastJobExecutionPlanID, jobPlanNodeList := [] } ∈
      u.selectJobExecutionPlan 0 (some clusterId) (some jepID) none :=
    (mem_query named).mpr ⟨surplus.newest_mem, finds⟩
  have selected := (List.mem_insertionSort _).mp inside
  apply head?_newest selected
  intro other member above
  have stored := List.mem_of_mem_filter member
  rw [surplus.plans] at stored
  rcases List.mem_append.mp stored with old | new
  · have bound := numbered.planBound other old
    have fresh := surplus.fresh
    dsimp only at above
    omega
  · exact List.mem_singleton.mp new

theorem stored?_old (surplus : t.Surplus previous u) (named : isBlank (some clusterId) = false) {jepID : String}
    (misses : ¬ Finds clusterId jepID previous) (found : u.stored? clusterId jepID = some row) :
    row ∈ t.jobExecutionPlans := by
  obtain ⟨stored, finds⟩ := (mem_query named).mp (List.mem_of_mem_head? found)
  rw [surplus.plans] at stored
  rcases List.mem_append.mp stored with old | new
  · exact old
  · rw [List.mem_singleton.mp new] at finds
    exact (misses finds).elim

end Query

/-! ### A turn of the loop -/

section Turn

variable (numbered : t.Numbered)
include numbered

/-- A plan is stored beside the old ones. -/
theorem save_same (env : PlanEnv) (same : t.SameTables s.tables)
    (last : t.lastJobExecutionPlanID ≤ s.tables.lastJobExecutionPlanID) (jep : PlanEntity) :
    match JobPlanManager.saveJobExecutionPlan env jep s with
    | .ok _ v =>
      env.Succeed s.tick (1 + nodeCalls jep.jobPlanNodeList) ∧
        v.tick = s.tick + (1 + nodeCalls jep.jobPlanNodeList) ∧ t.Surplus jep v.tables
    | .error _ v =>
      (t.SameTables v.tables ↔ env.daoSucceeds s.tick = false) ∧
        ¬ env.Succeed s.tick (1 + nodeCalls jep.jobPlanNodeList) := by
  -- unchanged means that not even the row of the plan was inserted
  have spec := saveJobExecutionPlan_spec env jep s
  cases saved : JobPlanManager.saveJobExecutionPlan env jep s with
  | ok _ v =>
    rw [saved] at spec
    obtain ⟨succeed, tick, tables⟩ := spec
    refine ⟨succeed, tick, ?_⟩
    rw [tables]
    exact PlanTables.surplus_insertPlan same last jep
  | error e v =>
    rw [saved] at spec
    rcases spec with ⟨fails, tables⟩ | ⟨succeeds, fails, plans⟩
    · refine ⟨iff_of_true ?_ fails, not_succeed (i := 0) fails (by omega)⟩
      rw [tables]
      exact same
    -- the row stands there now, and its id is newer than any of the tables before
    · refine ⟨iff_of_false ?_ ?_, fails⟩
      · apply PlanTables.not_same_of_touched numbered
        refine .inr ⟨s.tables.newRow jep, ?_, Nat.lt_succ_of_le last⟩
        rw [plans]
        exact List.mem_append_right _ (List.mem_singleton.mpr rfl)
      · rw [succeeds]
        exact Bool.noConfusion

/-- The rows of the plan before are deleted again. -/
theorem clear_surplus (env : PlanEnv) (named : isBlank (some clusterId) = false)
    (surplus : t.Surplus previous s.tables) {jepID : String} (finds : Finds clusterId jepID previous) :
    match JobPlanManager.clearJobPlan env clusterId jepID s with
    | .ok _ v =>
      env.Succeed s.tick 4 ∧ v.tick = s.tick + 4 ∧ t.SameTables v.tables ∧
        t.lastJobExecutionPlanID ≤ v.tables.lastJobExecutionPlanID
    | .error _ v => ¬ env.Succeed s.tick 4 ∧ (t.SameTables v.tables ↔
      (env.Succeed s.tick 2 ∧ env.daoSucceeds (s.tick + 2) = false ∧ previous.jobPlanNodeList = []) ∨
        (env.Succeed s.tick 3 ∧ env.daoSucceeds (s.tick + 3) = false ∧
          ∀ node ∈ previous.jobPlanNodeList, node.xjobMeta = none)) := by
  have changed : ¬ t.SameTables s.tables := PlanTables.not_same_of_touched numbered surplus.touched
  -- the call before left a surplus row, so the tables are as before again only without it
  cases first : env.daoSucceeds s.tick with
  | false =>
    rw [clearJobPlan_error jepID first]
    -- nothing is deleted when the query itself fails
    refine ⟨not_succeed (i := 0) first (by omega), iff_of_false changed ?_⟩
    rintro (⟨succeed, -⟩ | ⟨succeed, -⟩)
    · exact not_succeed (i := 0) first (by omega) succeed
    · exact not_succeed (i := 0) first (by omega) succeed
  | true =>
    have one : env.Succeed s.tick 1 := succeed_one.mpr first
    rw [clearJobPlan_some first (stored?_newest numbered surplus named finds)]
    have spec := deleteJobPlan_spec env s.tables.lastJobExecutionPlanID { s with tick := s.tick + 1 }
    dsimp only at spec ⊢
    cases deleted : JobPlanManager.deleteJobPlan env s.tables.lastJobExecutionPlanID { s with tick := s.tick + 1 } with
    | ok _ v =>
      rw [deleted] at spec
      obtain ⟨succeed, tick, tables⟩ := spec
      -- all three deletions take the surplus away
      refine ⟨(succeed_add (j := 1) (k := 3)).mpr ⟨one, succeed⟩, tick, ?_, ?_⟩
      · rw [tables]
        exact surplus.same_third numbered
      · rw [tables]
        exact Nat.le_of_lt surplus.fresh
    | error e v =>
      rw [deleted] at spec
      dsimp only
      -- the failure was in the first, the second or the third deletion
      rcases spec with ⟨fails, tables⟩ | ⟨succeed, fails, tables⟩ | ⟨succeed, fails, tables⟩
      · rw [tables]
        refine ⟨not_succeed fails (by omega), iff_of_false changed ?_⟩
        rintro (⟨succeed, -⟩ | ⟨succeed, -⟩)
        · exact not_succeed fails (by omega) succeed
        · exact not_succeed fails (by omega) succeed
      · -- the nodes are still there
        have two : env.Succeed s.tick 2 := succeed_add.mpr ⟨one, succeed⟩
        rw [tables, surplus.same_first numbered]
        refine ⟨not_succeed (i := 2) fails (by omega), fun none_ => .inl ⟨two, fails, none_⟩, ?_⟩
        rintro (⟨-, -, none_⟩ | ⟨succeed', -⟩)
        · exact none_
        · exact (not_succeed (i := 2) fails (by omega) succeed').elim
      · -- the jobs of the nodes are still there
        have three : env.Succeed s.tick 3 := (succeed_add (j := 1) (k := 2)).mpr ⟨one, succeed⟩
        rw [tables, surplus.same_second numbered]
        refine ⟨not_succeed (i := 3) fails (by omega), fun none_ => .inr ⟨three, fails, none_⟩, ?_⟩
        rintro (⟨-, fails', -⟩ | ⟨-, -, none_⟩)
        · exact (not_succeed (i := 2) fails' (by omega) three).elim
        · exact none_

/-- The plan finds the one before it: the two take each other's place, unless a call fails. -/
theorem surplus_turn (env : PlanEnv) (named : isBlank (some clusterId) = false) (surplus : t.Surplus previous s.tables)
    (finds : Finds clusterId jep.jepID previous) :
    match JobPlanManager.replaceJobPlan env clusterId jep s with
    | .ok _ v =>
      env.Succeed s.tick (5 + nodeCalls jep.jobPlanNodeList) ∧
        v.tick = s.tick + (5 + nodeCalls jep.jobPlanNodeList) ∧ t.Surplus jep v.tables
    | .error _ v => (t.SameTables v.tables ↔ FailsClearing env previous s.tick) ∧
        ¬ env.Succeed s.tick (5 + nodeCalls jep.jobPlanNodeList) := by
  -- clearing makes the tables as they were, so the failure that harms nothing is inside it
  have clears := clear_surplus numbered env named surplus finds
  unfold JobPlanManager.replaceJobPlan
  rw [bind_apply]
  cases cleared : JobPlanManager.clearJobPlan env clusterId jep.jepID s with
  | error e v =>
    rw [cleared] at clears
    obtain ⟨fails, same⟩ := clears
    refine ⟨same.trans ⟨?_, ?_⟩, fun all => fails (succeed_mono (by omega) all)⟩
    · rintro (first | second)
      · exact .inl first
      · exact .inr (.inl second)
    · rintro (first | second | ⟨four, -⟩)
      · exact .inl first
      · exact .inr second
      · exact (fails four).elim
  | ok _ v =>
    rw [cleared] at clears
    obtain ⟨four, tick, same, last⟩ := clears
    have saves := save_same numbered env same last jep
    -- four calls clear the old plan; then comes the row of the new one
    have calls : 5 + nodeCalls jep.jobPlanNodeList = 4 + (1 + nodeCalls jep.jobPlanNodeList) := by omega
    dsimp only
    rw [calls]
    cases saved : JobPlanManager.saveJobExecutionPlan env jep v with
    | ok _ w =>
      rw [saved] at saves
      obtain ⟨succeed, tick', surplus'⟩ := saves
      rw [tick] at succeed tick'
      exact ⟨succeed_add.mpr ⟨four, succeed⟩, by rw [tick', Nat.add_assoc], surplus'⟩
    | error e w =>
      rw [saved] at saves
      obtain ⟨same', fails⟩ := saves
      rw [tick] at same' fails
      refine ⟨same'.trans ⟨fun last_ => .inr (.inr ⟨four, last_⟩), ?_⟩, fun all => fails (succeed_add.mp all).2⟩
      rintro (⟨-, fails', -⟩ | ⟨-, fails', -⟩ | ⟨-, fails'⟩)
      · exact (not_succeed fails' (by omega) four).elim
      · exact (not_succeed fails' (by omega) four).elim
      · exact fails'

/-- The plan misses the one before it: there will be one too many. -/
theorem other_turn (env : PlanEnv) (named : isBlank (some clusterId) = false) (later : t.Later s.tables)
    (surplus : t.Surplus previous s.tables) (misses : ¬ Finds clusterId jep.jepID previous) :
    Triple (· = s) (JobPlanManager.replaceJobPlan env clusterId jep)
      (fun _ v => t.Later v.tables ∧ t.Spoiled v.tables) fun _ v => t.Touched v.tables := by
  have clears : Triple (· = s) (JobPlanManager.clearJobPlan env clusterId jep.jepID)
      (fun _ v => t.Later v.tables ∧ t.Touched v.tables) fun _ v => t.Touched v.tables := by
    rintro s rfl
    cases first : env.daoSucceeds s.tick with
    | false =>
      rw [clearJobPlan_error _ first]
      exact surplus.touched
    | true =>
      cases found : s.tables.stored? clusterId jep.jepID with
      | none =>
        rw [clearJobPlan_none first found]
        exact ⟨later, surplus.touched⟩
      | some old =>
        -- an old plan is deleted, the new one stays
        have member : old ∈ t.jobExecutionPlans := stored?_old surplus named misses found
        rw [clearJobPlan_some first found]
        have deletes := touched_delete env (t := t) (P := (· = s.tables)) old.id ?_ ?_
        · exact deletes _ rfl
        · rintro _ rfl
          have bound := numbered.planBound old member
          have fresh := surplus.fresh
          refine ⟨later, .inr ⟨_, List.mem_filter.mpr ⟨surplus.newest_mem, decide_eq_true ?_⟩, fresh⟩⟩
          dsimp only
          omega
        · rintro _ rfl
          exact surplus.touched
  exact clears.bind fun _ => touched_save env numbered jep

omit numbered in
theorem not_failsClearing {k : Nat} (all : env.Succeed n (5 + k)) : ¬ FailsClearing env previous n := by
  rintro (⟨-, fails, -⟩ | ⟨-, fails, -⟩ | ⟨-, fails⟩)
  · exact not_succeed fails (by omega) all
  · exact not_succeed fails (by omega) all
  · exact not_succeed fails (by omega) all

end Turn

/-! ### The first turn -/

/-- Something is stored under the first plan: its deletion cannot be made up. -/
theorem first_turn_stored (numbered : s.tables.Numbered) {old : PlanEntity}
    (found : s.tables.stored? clusterId jep.jepID = some old) :
    match JobPlanManager.replaceJobPlan env clusterId jep s with
    | .ok _ v => env.Succeed s.tick 2 ∧ s.tables.Later v.tables ∧ s.tables.Spoiled v.tables
    | .error _ v => s.tables.SameTables v.tables ↔ ¬ env.Succeed s.tick 2 := by
  have member : old ∈ s.tables.jobExecutionPlans := by
    have selected := List.mem_of_mem_head? found
    exact List.mem_of_mem_filter ((List.mem_insertionSort _).mp selected)
  -- once the old row is gone the tables have changed, whatever is done to the others
  have missing : ∀ u : PlanTables, u.jobExecutionPlans = (s.tables.deleteJobExecutionPlan old.id).jobExecutionPlans →
      s.tables.Touched u := by
    intro u plans
    refine .inl ⟨old, member, fun inside => ?_⟩
    rw [plans] at inside
    simpa using (List.mem_filter.mp inside).2
  unfold JobPlanManager.replaceJobPlan
  rw [bind_apply]
  cases first : env.daoSucceeds s.tick with
  | false =>
    rw [clearJobPlan_error _ first]
    exact iff_of_true ⟨rfl, rfl, rfl⟩ (not_succeed (i := 0) first (by omega))
  | true =>
    have one : env.Succeed s.tick 1 := succeed_one.mpr first
    rw [clearJobPlan_some first found]
    have spec := deleteJobPlan_spec env old.id { s with tick := s.tick + 1 }
    cases deleted : JobPlanManager.deleteJobPlan env old.id { s with tick := s.tick + 1 } with
    | error e v =>
      rw [deleted] at spec
      dsimp only at spec ⊢
      -- only the first deletion leaves the row when it fails
      rcases spec with ⟨fails, tables⟩ | ⟨succeed, -, tables⟩ | ⟨succeed, -, tables⟩
      · rw [tables]
        exact iff_of_true ⟨rfl, rfl, rfl⟩ (not_succeed fails (by omega))
      · refine iff_of_false (PlanTables.not_same_of_touched numbered (missing _ (by rw [tables]))) (not_not_intro ?_)
        exact succeed_add.mpr ⟨one, succeed⟩
      · refine iff_of_false (PlanTables.not_same_of_touched numbered (missing _ (by rw [tables]; rfl)))
          (not_not_intro ?_)
        exact (succeed_add (j := 1) (k := 1)).mpr ⟨one, succeed_mono (by omega) succeed⟩
    | ok _ v =>
      rw [deleted] at spec
      obtain ⟨succeed, -, tables⟩ := spec
      have two : env.Succeed s.tick 2 := (succeed_add (j := 1) (k := 1)).mpr ⟨one, succeed_mono (by omega) succeed⟩
      have touched : s.tables.Touched v.tables := missing _ (by rw [tables]; rfl)
      have later : s.tables.Later v.tables := by
        have self : s.tables.Later s.tables := ⟨numbered, Nat.le_refl _⟩
        rw [tables]
        exact self.fewer (PlanTables.fewer_deletePlan _ _)
      -- saving the new plan does not bring the old row back
      have saves := touched_save env numbered jep v ⟨later, touched⟩
      dsimp only
      cases saved : JobPlanManager.saveJobExecutionPlan env jep v with
      | ok _ w =>
        rw [saved] at saves
        exact ⟨two, saves⟩
      | error e w =>
        rw [saved] at saves
        exact iff_of_false (PlanTables.not_same_of_touched numbered saves) (not_not_intro two)

theorem first_turn_free (numbered : s.tables.Numbered) (free : s.tables.stored? clusterId jep.jepID = none) :
    match JobPlanManager.replaceJobPlan env clusterId jep s with
    | .ok _ v =>
      env.Succeed s.tick (2 + nodeCalls jep.jobPlanNodeList) ∧
        v.tick = s.tick + (2 + nodeCalls jep.jobPlanNodeList) ∧ s.tables.Surplus jep v.tables
    | .error _ v => (s.tables.SameTables v.tables ↔ ¬ env.Succeed s.tick 2) ∧
        ¬ env.Succeed s.tick (2 + nodeCalls jep.jobPlanNodeList) := by
  unfold JobPlanManager.replaceJobPlan
  rw [bind_apply]
  cases first : env.daoSucceeds s.tick with
  | false =>
    rw [clearJobPlan_error _ first]
    exact ⟨iff_of_true ⟨rfl, rfl, rfl⟩ (not_succeed (i := 0) first (by omega)), not_succeed (i := 0) first (by omega)⟩
  | true =>
    have one : env.Succeed s.tick 1 := succeed_one.mpr first
    rw [clearJobPlan_none first free]
    have saves := save_same (s := { s with tick := s.tick + 1 }) numbered env ⟨rfl, rfl, rfl⟩ (Nat.le_refl _) jep
    -- one call finds nothing to clear; then comes the row of the new plan
    have calls : 2 + nodeCalls jep.jobPlanNodeList = 1 + (1 + nodeCalls jep.jobPlanNodeList) := by omega
    rw [calls]
    dsimp only at saves ⊢
    cases saved : JobPlanManager.saveJobExecutionPlan env jep { s with tick := s.tick + 1 } with
    | ok _ v =>
      rw [saved] at saves
      obtain ⟨succeed, tick, surplus⟩ := saves
      exact ⟨succeed_add.mpr ⟨one, succeed⟩, tick.trans (Nat.add_assoc _ _ _), surplus⟩
    | error e v =>
      rw [saved] at saves
      obtain ⟨same, fails⟩ := saves
      refine ⟨same.trans ?_, fun all => fails (succeed_add.mp all).2⟩
      rw [succeed_succ (k := 1), and_iff_right one]
      exact (Bool.not_eq_true _).symm.to_iff

/-! ### The loop -/

/-- The turn in which a submission fails. -/
theorem saveJobPlans_throws {e : Throwable}
    (thrown : JobPlanManager.saveJobPlans env clusterId (jep :: jeps) s = .error e v) :
    JobPlanManager.replaceJobPlan env clusterId jep s = .error e v ∨
      ∃ saved w, JobPlanManager.replaceJobPlan env clusterId jep s = .ok saved w ∧
        JobPlanManager.saveJobPlans env clusterId jeps w = .error e v := by
  rcases bind_throws thrown with failed | ⟨saved, w, returned, rest⟩
  · exact .inl failed
  · rcases bind_throws rest with failed | ⟨_, _, _, ended⟩
    · exact .inr ⟨saved, w, returned, failed⟩
    · cases ended

theorem surplus_loop (numbered : t.Numbered) (named : isBlank (some clusterId) = false) {e : Throwable}
    (later : t.Later s.tables) (surplus : t.Surplus previous s.tables)
    (thrown : JobPlanManager.saveJobPlans env clusterId jeps s = .error e v) :
    t.SameTables v.tables ↔ FailsBetween env clusterId previous s.tick jeps := by
  -- each turn that returns leaves a surplus of its own plan, which the next turn must find
  induction jeps generalizing previous s with
  | nil => cases thrown
  | cons jep jeps ih =>
    unfold FailsBetween
    by_cases finds : Finds clusterId jep.jepID previous
    · have turn := surplus_turn numbered env named surplus finds
      rcases saveJobPlans_throws thrown with failed | ⟨saved, w, returned, rest⟩
      · rw [failed] at turn
        obtain ⟨same, fails⟩ := turn
        rw [same]
        constructor
        · exact fun clearing => ⟨finds, .inl clearing⟩
        · rintro ⟨-, clearing | ⟨succeed, -⟩⟩
          · exact clearing
          · exact (fails succeed).elim
      · -- the turn is over, and the failure is in the rest
        have numbered' : w.tables.Numbered := (keeps_replaceJobPlan clusterId jep).ok later.numbered returned
        rw [returned] at turn
        obtain ⟨succeed, tick, surplus'⟩ := turn
        rw [ih ⟨numbered', Nat.le_of_lt surplus'.fresh⟩ surplus' rest, tick]
        constructor
        · exact fun between => ⟨finds, .inr ⟨succeed, between⟩⟩
        · rintro ⟨-, clearing | ⟨-, between⟩⟩
          · exact (not_failsClearing succeed clearing).elim
          · exact between
    -- a plan of another name is not cleared, so the surplus stays
    · have turn := other_turn numbered env named later surplus finds
      have changed : t.Touched v.tables := by
        rcases saveJobPlans_throws thrown with failed | ⟨saved, w, returned, rest⟩
        · exact turn.error rfl failed
        · exact (spoiled_loop numbered clusterId jeps).error (turn.ok rfl returned) rest
      exact iff_of_false (PlanTables.not_same_of_touched numbered changed) fun between => finds between.1

/-- The whole loop of a submission with plans. -/
theorem loop_unchanged_iff (numbered : s.tables.Numbered) (named : isBlank (some clusterId) = false) {e : Throwable}
    (thrown : JobPlanManager.saveJobPlans env clusterId (jep :: jeps) s = .error e v) :
    s.tables.SameTables v.tables ↔ ¬ env.Succeed s.tick 2 ∨
      (s.tables.stored? clusterId jep.jepID = none ∧ env.Succeed s.tick (2 + nodeCalls jep.jobPlanNodeList) ∧
        FailsBetween env clusterId jep (s.tick + (2 + nodeCalls jep.jobPlanNodeList)) jeps) := by
  -- with an old row the first turn already changes the tables for good
  cases found : s.tables.stored? clusterId jep.jepID with
  | some old =>
    have turn := @first_turn_stored env _ _ _ numbered _ found
    have harmless : s.tables.SameTables v.tables ↔ ¬ env.Succeed s.tick 2 := by
      rcases saveJobPlans_throws thrown with failed | ⟨saved, w, returned, rest⟩
      · rw [failed] at turn
        exact turn
      · rw [returned] at turn
        have changed := (spoiled_loop numbered clusterId jeps).error turn.2 rest
        exact iff_of_false (PlanTables.not_same_of_touched numbered changed) (not_not_intro turn.1)
    simpa using harmless
  -- without one the first turn leaves a surplus that the next turn may take back
  | none =>
    have turn := @first_turn_free env _ _ _ numbered found
    rcases saveJobPlans_throws thrown with failed | ⟨saved, w, returned, rest⟩
    · rw [failed] at turn
      obtain ⟨same, fails⟩ := turn
      rw [same]
      constructor
      · exact .inl
      · rintro (early | ⟨-, succeed, -⟩)
        · exact early
        · exact (fails succeed).elim
    · have numbered' : w.tables.Numbered := (keeps_replaceJobPlan clusterId jep).ok numbered returned
      rw [returned] at turn
      obtain ⟨succeed, tick, surplus⟩ := turn
      rw [surplus_loop numbered named ⟨numbered', Nat.le_of_lt surplus.fresh⟩ surplus rest, tick]
      constructor
      · exact fun between => .inr ⟨rfl, succeed, between⟩
      · rintro (early | ⟨-, -, between⟩)
        · exact (early (succeed_mono (by omega) succeed)).elim
        · exact between

/-! ### The submission -/

/-- A failed call to Quartz is not passed on. -/
theorem onEach_throws_nothing (change : String → JMap QuartzJob → JMap QuartzJob) (jps : List PlanEntity) :
    Triple (fun _ => True) (JobPlanBuilder.onEach env change jps) (fun _ _ => True) fun _ _ => False := by
  induction jps with
  | nil => exact .pure fun _ _ => trivial
  | cons jp jps ih =>
    apply Triple.bind (Q := fun _ _ => True) fun _ _ => trivial
    intro n
    split
    · exact .bind (.modifying fun _ _ => trivial) fun _ => ih
    · exact .pure fun _ _ => trivial

theorem build_throws_nothing (jp : PlanEntity) :
    Triple (fun _ => True) (JobPlanBuilder.buildJobPlan env jp) (fun _ _ => True) fun _ _ => False := by
  unfold JobPlanBuilder.buildJobPlan
  split
  · exact .pure fun _ _ => trivial
  · exact .pure fun _ _ => trivial
  · split
    · apply Triple.bind (Q := fun _ _ => True) fun _ _ => trivial
      intro n
      split
      · apply Triple.bind (Q := fun _ _ => True) (.getting fun _ _ => trivial)
        intro s
        split
        · exact .pure fun _ _ => trivial
        · exact .bind (.modifying (Q := fun _ _ => True) fun _ _ => trivial) fun _ => .pure fun _ _ => trivial
      · exact .pure fun _ _ => trivial
    · exact .pure fun _ _ => trivial

theorem buildJobPlan_throws_nothing (jps : List PlanEntity) :
    Triple (fun _ => True) (JobPlanManager.buildJobPlan env jps) (fun _ _ => True) fun _ _ => False := by
  induction jps with
  | nil => exact .pure fun _ _ => trivial
  | cons jp jps ih =>
    exact (onEach_throws_nothing _ [jp]).bind fun _ => (build_throws_nothing jp).bind fun _ => ih

/-- A submission that is answered with false: it is refused, has no plans or fails in the loop. -/
theorem register_false (named : isBlank (some context.clusterId) = false)
    (returned : JobPlanManager.registerJobExecutionPlanSubmissionContext env context s = .ok false v) :
    (context.jobExecutionPlans = [] ∧ v = s) ∨
      ∃ e, JobPlanManager.saveJobPlans env context.clusterId context.jobExecutionPlans s = .error e v := by
  unfold JobPlanManager.registerJobExecutionPlanSubmissionContext JobPlanManager.saveJobPlan at returned
  rw [named, if_neg Bool.false_ne_true] at returned
  by_cases none_ : context.jobExecutionPlans = []
  · rw [none_] at returned
    cases returned
    exact .inl ⟨none_, rfl⟩
  · right
    have some_ : context.jobExecutionPlans.isEmpty = false := by simpa using none_
    rw [some_, if_neg Bool.false_ne_true] at returned
    rcases catching_returns returned with ended | ⟨e, u, thrown, -, handled⟩
    · rw [bind_apply] at ended
      split at ended
      next list t saved =>
        cases list with
        | none => cases ended
        | some jps =>
          change (JobPlanManager.buildJobPlan env jps >>= fun _ => pure true) t = _ at ended
          rw [bind_apply] at ended
          split at ended <;> cases ended
      · cases ended
    · cases handled
      rcases bind_throws thrown with failed | ⟨list, t, saved, rest⟩
      · rcases bind_throws failed with failed' | ⟨_, _, _, ended⟩
        · exact ⟨e, failed'⟩
        · cases ended
      · rw [bind_apply] at saved
        split at saved
        · cases saved
          -- the builds throw nothing
          rcases bind_throws rest with built | ⟨_, _, _, ended⟩
          · exact ((buildJobPlan_throws_nothing _).error trivial built).elim
          · cases ended
        · cases saved

/-- A submission that is answered with false leaves the rows of the three tables as they were
exactly when it fails harmlessly. -/
theorem register_unchanged_iff
    (reachable : Reachable (planSystem env (·.tables.Empty)) (fun _ _ => True) s)
    (returned : JobPlanManager.registerJobExecutionPlanSubmissionContext env context s = .ok false v) :
    s.tables.SameTables v.tables ↔ FailsHarmlessly env s context := by
  have numbered := numbered_of_reachable reachable
  unfold FailsHarmlessly
  cases named : isBlank (some context.clusterId) with
  | true =>
    unfold JobPlanManager.registerJobExecutionPlanSubmissionContext at returned
    rw [named] at returned
    cases returned
    exact iff_of_true ⟨rfl, rfl, rfl⟩ (.inl rfl)
  | false =>
    rcases register_false named returned with ⟨none_, rfl⟩ | ⟨e, thrown⟩
    · rw [none_]
      exact iff_of_true ⟨rfl, rfl, rfl⟩ (.inr trivial)
    · cases plans : context.jobExecutionPlans with
      | nil =>
        rw [plans] at thrown
        cases thrown
      | cons jep jeps =>
        rw [plans] at thrown
        rw [loop_unchanged_iff numbered named thrown]
        simp

/-! ### One failing call -/

/-- One call to the database fails. -/
def PlanEnv.failingAt (call : Nat) : PlanEnv := ⟨fun n => n != call, fun _ => true, fun _ _ => true⟩

/-- A plan is stored, and of the submission of its next version the first deletion fails. -/
theorem unchanged_before_first_row : ∃ s v, Reachable (planSystem (.failingAt 6) (·.tables.Empty)) (fun _ _ => True) s ∧
    JobPlanManager.registerJobExecutionPlanSubmissionContext (.failingAt 6) ⟨"c", [.plain "p" "b"]⟩ s = .ok false v ∧
      (∃ row ∈ s.tables.jobExecutionPlans, row.key = ("c", "p")) ∧ s.tables.SameTables v.tables := by
  let s := after ((PlanRequest.register ⟨"c", [.plain "p" "a"]⟩).run (.failingAt 6) {})
  have reachable : Reachable (planSystem (.failingAt 6) (·.tables.Empty)) (fun _ _ => True) s :=
    .next (a := .register _) (.start ⟨rfl, rfl, rfl⟩) trivial rfl
  have stored : ∃ row ∈ s.tables.jobExecutionPlans, row.key = ("c", "p") := by decide +kernel
  obtain ⟨v, returned⟩ : ∃ v, JobPlanManager.registerJobExecutionPlanSubmissionContext (.failingAt 6)
      ⟨"c", [.plain "p" "b"]⟩ s = .ok false v := ⟨_, rfl⟩
  refine ⟨s, v, reachable, returned, stored, (register_unchanged_iff reachable returned).mpr ?_⟩
  exact .inr (.inl (not_succeed (i := 1) rfl (by omega)))

/-- A plan is stored, and of the submission of its next version the deletion of the nodes fails:
the plan is lost. -/
theorem plan_lost : ∃ s v, Reachable (planSystem (.failingAt 7) (·.tables.Empty)) (fun _ _ => True) s ∧
    JobPlanManager.registerJobExecutionPlanSubmissionContext (.failingAt 7) ⟨"c", [.plain "p" "b"]⟩ s = .ok false v ∧
      (∃ row ∈ s.tables.jobExecutionPlans, row.key = ("c", "p")) ∧ v.tables.jobExecutionPlans = [] ∧
        ¬ s.tables.SameTables v.tables := by
  let s := after ((PlanRequest.register ⟨"c", [.plain "p" "a"]⟩).run (.failingAt 7) {})
  have reachable : Reachable (planSystem (.failingAt 7) (·.tables.Empty)) (fun _ _ => True) s :=
    .next (a := .register _) (.start ⟨rfl, rfl, rfl⟩) trivial rfl
  have stored : ∃ row ∈ s.tables.jobExecutionPlans, row.key = ("c", "p") := by decide +kernel
  have lost : (after (JobPlanManager.registerJobExecutionPlanSubmissionContext (.failingAt 7)
      ⟨"c", [.plain "p" "b"]⟩ s)).tables.jobExecutionPlans = [] := by decide +kernel
  refine ⟨s, _, reachable, rfl, stored, lost, fun same => ?_⟩
  obtain ⟨row, member, -⟩ := stored
  rw [← same.plans] at member
  exact absurd (lost ▸ member) List.not_mem_nil

end Hella

import Hella.Control.Columns
import Hella.Plans.Catalogue
import Hella.Web.Requests

/-!
# The plans the console holds

What a stored plan keeps for as long as it is stored: all but its state and its current job,
which the engine writes, and its schedule, which can be edited.
-/
namespace Hella

/-- The plan without the columns that are written after it has been stored. -/
def PlanEntity.outline (jep : PlanEntity) : PlanEntity :=
  { jep with toJobExecutionPlan := jep.toJobExecutionPlan.definition, cronType := none, cronExpression := "" }

namespace PlanTables

variable {t u : PlanTables} {key : String × String} {entry : PlanEntity} {id : Nat} {plans : List JobExecutionPlan}

/-- The entries of the catalogue, in outline. -/
def held (t : PlanTables) (key : String × String) : Option PlanEntity := (t.catalogue key).map (·.outline)

/-- The second tables have the rows of the first, in outline, and the same nodes. -/
structure Outlined (t u : PlanTables) : Prop where
  rows : u.jobExecutionPlans.map (·.outline) = t.jobExecutionPlans.map (·.outline)
  nodes : u.jobPlanNodes = t.jobPlanNodes
  metas : u.xjobMetas = t.xjobMetas
  lastPlan : u.lastJobExecutionPlanID = t.lastJobExecutionPlanID
  lastNode : u.lastJobPlanNodeID = t.lastJobPlanNodeID

/-- What the outline of a row has as well. -/
theorem Outlined.columns {α : Type} (outlined : Outlined t u) (column : PlanEntity → α)
    (kept : ∀ row, column row.outline = column row) :
      u.jobExecutionPlans.map column = t.jobExecutionPlans.map column := by
  have through (rows : List PlanEntity) : (rows.map (·.outline)).map column = rows.map column := by
    rw [List.map_map]
    exact List.map_congr_left fun row _ => kept row
  rw [← through, outlined.rows, through]

/-- A property of rows that is one of their outlines. -/
theorem Outlined.all {P : PlanEntity → Prop} (outlined : Outlined t u) (kept : ∀ row, P row.outline ↔ P row)
    (holds : ∀ row ∈ t.jobExecutionPlans, P row) : ∀ row ∈ u.jobExecutionPlans, P row := by
  intro row member
  have inside : row.outline ∈ t.jobExecutionPlans.map (·.outline) := outlined.rows ▸ List.mem_map_of_mem member
  obtain ⟨old, there, same⟩ := List.mem_map.mp inside
  rw [← kept, ← same, kept]
  exact holds old there

theorem Outlined.filed (outlined : Outlined t u) (filed : t.Filed) : u.Filed where
  planIDs := outlined.columns (·.id) (fun _ => rfl) ▸ filed.planIDs
  planBound := by
    rw [outlined.lastPlan]
    exact outlined.all (fun _ => .rfl) filed.planBound
  nodeBound := by
    rw [outlined.nodes, outlined.lastPlan]
    exact filed.nodeBound
  metaBound := by
    rw [outlined.metas, outlined.lastPlan]
    exact filed.metaBound
  keys := outlined.columns (·.key) (fun _ => rfl) ▸ filed.keys
  positive := outlined.all (fun _ => .rfl) filed.positive
  nodeIDs := by
    rw [outlined.nodes, outlined.lastNode]
    exact filed.nodeIDs
  metaNodeIDs := by
    rw [outlined.metas, outlined.lastNode]
    exact filed.metaNodeIDs

/-- Only the outlines of the rows matter. -/
theorem held_eq : t.held key =
    ((t.jobExecutionPlans.map (·.outline)).filter (·.key = key)).head?.map fun row => (t.loaded row).entry := by
  rw [held, catalogue, List.filter_map, List.head?_map, Option.map_map, Option.map_map]
  rfl

theorem Outlined.held (outlined : Outlined t u) : u.held = t.held := by
  have loads (row : PlanEntity) : u.loaded row = t.loaded row := by
    simp only [loaded, loadedNodes, nodesByJPID, xjobMetasByJPID, outlined.nodes, outlined.metas]
  funext key
  rw [held_eq, held_eq, outlined.rows]
  simp only [loads]

/-- The workflow code writes other columns only. -/
theorem outlined_restore (defines : plans.map (·.definition) = t.jobPlans.map (·.definition)) :
    Outlined t (t.restore plans) := by
  refine ⟨?_, rfl, rfl, rfl, rfl⟩
  rw [jobPlans, List.map_map] at defines
  change (t.jobExecutionPlans.zipWith _ plans).map PlanEntity.outline = _
  revert defines
  generalize t.jobExecutionPlans = rows
  intro defines
  induction rows generalizing plans with
  | nil => rfl
  | cons row rows ih =>
    cases plans with
    | nil => cases defines
    | cons plan plans =>
      rw [List.map_cons, List.map_cons, List.cons.injEq] at defines
      obtain ⟨same, rest⟩ := defines
      have columns : plan.id = row.id ∧ plan.event = row.event ∧ plan.ignoreError = row.ignoreError := by
        have id := congrArg JobExecutionPlan.id same
        have event := congrArg JobExecutionPlan.event same
        have ignoreError := congrArg JobExecutionPlan.ignoreError same
        exact ⟨id, event, ignoreError⟩
      rw [List.zipWith_cons_cons, List.map_cons, List.map_cons, ih rest]
      simp only [PlanEntity.outline, JobExecutionPlan.definition, columns]

/-- An edit changes the schedule. -/
theorem outlined_updateJobPlanCronExpression (id : Nat) (cronType : CronType) (cronExpression : String) :
    Outlined t (t.updateJobPlanCronExpression id cronType cronExpression) := by
  refine ⟨?_, rfl, rfl, rfl, rfl⟩
  change (t.jobExecutionPlans.map _).map PlanEntity.outline = _
  rw [List.map_map]
  apply List.map_congr_left
  intro row _
  rw [Function.comp]
  split
  · rfl
  · rfl

theorem held_congr (same : u.catalogue key = t.catalogue key) : u.held key = t.held key := by rw [held, same, held]

end PlanTables

end Hella

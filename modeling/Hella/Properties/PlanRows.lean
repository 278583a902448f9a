import Hella.Plans.Requests

/-!
# The plan tables stay consistent

Nothing in the database enforces it: a submission first deletes what is stored under the
key of a plan, also when the stored plan came with the same submission, and a node is
written after its plan and a job after its node.
-/
namespace Hella

open Exec Runs Text

variable {env : PlanEnv} {s t : PlanSystem} {request : PlanRequest} {key : String × String}

namespace PlanRequest

/-- Submissions and deletions, with identifiers that are not blank. -/
def Rewrites : PlanRequest → Prop
  | .register context => context.WellFormed
  | .delete clusterID jepID => isBlank (some clusterID) = false ∧ isBlank (some jepID) = false
  | .deleteByID _ => True
  | _ => False

/-- The request is about the plan. -/
def About (request : PlanRequest) (s : PlanSystem) (key : String × String) : Prop :=
  match request with
  | .register context => ∃ jep ∈ context.jobExecutionPlans, jep.key = key
  | .delete clusterID jepID => (clusterID, jepID) = key
  | .deleteByID id => ∃ row ∈ s.tables.jobExecutionPlans, row.id = id ∧ row.key = key
  | _ => True

end PlanRequest

/-- What a submission or a deletion does to the tables. -/
structure Rewritten (request : PlanRequest) (s t : PlanSystem) : Prop where
  consistent : t.tables.Consistent
  frame : ∀ key, ¬ request.About s key → PlanTables.SameRows s.tables t.tables key

theorem rewritten_register {context : JobExecutionPlanSubmissionContext} (calm : env.Calm)
    (consistent : s.tables.Consistent) (wellFormed : context.WellFormed) :
    Rewritten (.register context) s (after ((PlanRequest.register context).run env s)) := by
  apply returns_discard
  apply (registers calm wellFormed.clusterId).conseq
  intro _ t left_
  constructor
  · rw [left_.tables]
    exact consistent.replacePlans wellFormed.clusterId wellFormed.clusterIDs wellFormed.jepIDs
  · intro key outside
    rw [left_.tables]
    apply PlanTables.sameRows_replacePlans consistent.toKeyed wellFormed.clusterId
      wellFormed.clusterIDs wellFormed.jepIDs
    exact fun jep member same => outside ⟨jep, member, same⟩

theorem rewritten_delete {clusterID jepID : String} (calm : env.Calm) (consistent : s.tables.Consistent)
    (named : isBlank (some clusterID) = false) (named' : isBlank (some jepID) = false) :
    Rewritten (.delete clusterID jepID) s (after ((PlanRequest.delete clusterID jepID).run env s)) := by
  apply returns_discard
  apply (deleteJobExecutionPlan_calm calm clusterID jepID).conseq
  intro _ t left_
  constructor
  · rw [left_.tables]
    exact consistent.deletePlans _
  · intro key outside
    rw [left_.tables]
    apply PlanTables.sameRows_deletePlans
    intro deleted selected row member same
    obtain ⟨stored, own⟩ := (PlanTables.mem_select named named').mp selected
    -- IDs are unique, so the row is the selected one
    rw [consistent.eq_of_id member stored same, own]
    exact outside

theorem rewritten_deleteByID {id : Nat} (calm : env.Calm) (consistent : s.tables.Consistent) :
    Rewritten (.deleteByID id) s (after ((PlanRequest.deleteByID id).run env s)) := by
  apply returns_discard
  apply (deleteJobExecutionPlanByID_calm calm id).conseq
  intro _ t left_
  cases found : s.tables.byID? id with
  | none =>
    rw [found] at left_
    constructor
    · rw [left_.tables]
      exact consistent
    · intro key _
      rw [left_.tables]
      exact .refl _ _
  | some jep =>
    rw [found] at left_
    have selected : jep.id = id := (PlanTables.byID?_some found).2
    constructor
    · rw [left_.tables]
      exact consistent.deletePlan _
    · intro key outside
      rw [left_.tables]
      apply PlanTables.sameRows_deletePlan
      exact fun row member same own => outside ⟨row, member, same.trans selected, own⟩

theorem rewritten_of_step (calm : env.Calm) (consistent : s.tables.Consistent) (rewrites : request.Rewrites) :
    Rewritten request s (after (request.run env s)) := by
  cases request with
  | register context => exact rewritten_register calm consistent rewrites
  | delete clusterID jepID => exact rewritten_delete calm consistent rewrites.1 rewrites.2
  | deleteByID id => exact rewritten_deleteByID calm consistent
  | _ => exact rewrites.elim

/-- Plan tables stay consistent. In every state that submissions and deletions lead to from
empty tables, the keys of the plans are distinct, every node belongs to a stored plan and
every job to a stored node of its plan; and a request leaves the rows of the plans it is not
about as they are. -/
theorem plan_tables_consistent (calm : env.Calm)
    (reachable : Reachable (planSystem env (·.tables.Empty)) (fun _ request => request.Rewrites) s) :
    s.tables.Consistent ∧
      ∀ request t, request.Rewrites → (planSystem env (·.tables.Empty)).step s request t →
        ∀ key, ¬ request.About s key → PlanTables.SameRows s.tables t.tables key := by
  have consistent : s.tables.Consistent := by
    apply Reachable.invariant (I := fun s => s.tables.Consistent) _ _ reachable
    · exact fun s empty => empty.consistent
    · rintro s request _ consistent rewrites rfl
      exact (rewritten_of_step calm consistent rewrites).consistent
  constructor
  · exact consistent
  · rintro request _ rewrites rfl
    exact (rewritten_of_step calm consistent rewrites).frame

/-- A submission of two plans under one key, and then a deletion of another plan. -/
theorem plan_tables_consistent_twice :
    let s := after ((PlanRequest.register ⟨"c", [.plain "p" "old", .plain "p" "new"]⟩).run PlanEnv.calm {})
    s.tables.Consistent ∧
      PlanTables.SameRows s.tables (after ((PlanRequest.delete "c" "q").run PlanEnv.calm s)).tables ("c", "p") := by
  intro s
  have reachable : Reachable (planSystem PlanEnv.calm (·.tables.Empty)) (fun _ request => request.Rewrites) s :=
    .next (a := .register _) (.start ⟨rfl, rfl, rfl⟩) (plain_wellFormed ["old", "new"]) rfl
  obtain ⟨consistent, frame⟩ := plan_tables_consistent PlanEnv.calm_calm reachable
  constructor
  · exact consistent
  · apply frame (.delete "c" "q") _ ⟨by decide, by decide⟩ rfl
    change ¬ ("c", "q") = ("c", "p")
    decide

end Hella

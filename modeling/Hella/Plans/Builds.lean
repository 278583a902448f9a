import Hella.Plans.Consistency

/-!
# What a submission leaves in Quartz and in the plan table

The last plan of a submission with a job key decides what lies under it, and the last with a
key which row is stored.
-/
namespace Hella

open Text

variable {env : PlanEnv} {t : PlanTables} {jobs : JMap QuartzJob} {clusterId name : String} {jep : PlanEntity}
  {before rest jeps : List PlanEntity}

/-! ### The builds of a submission -/

theorem lookup_rebuild_self (env : PlanEnv) (jobs : JMap QuartzJob) (jep : PlanEntity) :
    (env.rebuild jobs jep).lookup jep.qJobName = if env.builds jep then some jep.quartzJob else none := by
  unfold PlanEnv.rebuild
  split
  · exact AList.lookup_insert _
  · exact AList.lookup_erase _ _

theorem lookup_rebuild_ne (ne : name ≠ jep.qJobName) : (env.rebuild jobs jep).lookup name = jobs.lookup name := by
  unfold PlanEnv.rebuild
  split
  · rw [AList.lookup_insert_ne ne, AList.lookup_erase_ne ne]
  · exact AList.lookup_erase_ne ne

/-- The row a submitted plan gets. -/
def PlanTables.savedRow (clusterId : String) (t : PlanTables) (jep : PlanEntity) : PlanEntity :=
  { jep with id := (t.cleared clusterId jep.jepID).lastJobExecutionPlanID + 1 }

theorem toBuild_cons (scheduled : JobPlanManager.isLocal clusterId jep = true) :
    t.toBuild clusterId (jep :: jeps) = t.savedRow clusterId jep ::
      (t.replacePlan clusterId jep).toBuild clusterId jeps := by
  have scheduled' : JobPlanManager.isLocal clusterId (t.savedRow clusterId jep) = true := scheduled
  rw [PlanTables.toBuild]
  exact if_pos scheduled'

theorem toBuild_append : t.toBuild clusterId (before ++ jeps) =
    t.toBuild clusterId before ++ (before.foldl (PlanTables.replacePlan clusterId) t).toBuild clusterId jeps := by
  induction before generalizing t with
  | nil => rfl
  | cons first before ih =>
    rw [List.cons_append, PlanTables.toBuild, PlanTables.toBuild, ih, List.foldl_cons]
    split <;> rfl

/-- The jobs after a submission. -/
def PlanEnv.built (env : PlanEnv) (clusterId : String) (t : PlanTables) (jeps : List PlanEntity)
    (jobs : JMap QuartzJob) : JMap QuartzJob := (t.toBuild clusterId jeps).foldl env.rebuild jobs

theorem lookup_built_ne (others : ∀ other ∈ jeps, other.qJobName ≠ name) :
    (env.built clusterId t jeps jobs).lookup name = jobs.lookup name := by
  unfold PlanEnv.built
  induction jeps generalizing t jobs with
  | nil => rfl
  | cons first jeps ih =>
    have tail := fun {t jobs} => @ih t jobs fun other member => others other (by simp [member])
    rw [PlanTables.toBuild]
    split
    · rw [List.foldl_cons, tail]
      exact lookup_rebuild_ne (others first (by simp)).symm
    · exact tail

/-- The last plan of a submission with a job key decides what lies under it. -/
theorem lookup_built_last (env : PlanEnv) (t : PlanTables) (jobs : JMap QuartzJob) (before : List PlanEntity)
    (scheduled : JobPlanManager.isLocal clusterId jep = true)
    (last : ∀ other ∈ rest, other.qJobName ≠ jep.qJobName) :
    (env.built clusterId t (before ++ jep :: rest) jobs).lookup jep.qJobName =
      if env.builds jep then
        some ((before.foldl (PlanTables.replacePlan clusterId) t).savedRow clusterId jep).quartzJob
      else none := by
  unfold PlanEnv.built
  rw [toBuild_append, List.foldl_append, toBuild_cons scheduled, List.foldl_cons]
  apply (lookup_built_ne last).trans
  exact lookup_rebuild_self env _ (PlanTables.savedRow clusterId _ jep)

/-- The last plan with a property, which is given as a value of `f`. -/
theorem exists_last {β : Type} {f : PlanEntity → β} {value : β} (some_ : ∃ other ∈ jeps, f other = value) :
    ∃ first other later, jeps = first ++ other :: later ∧ f other = value ∧ ∀ another ∈ later, f another ≠ value := by
  induction jeps with
  | nil =>
    obtain ⟨_, member, _⟩ := some_
    cases member
  | cons jep jeps ih =>
    by_cases again : ∃ other ∈ jeps, f other = value
    · obtain ⟨first, other, later, split, same, last⟩ := ih again
      exact ⟨jep :: first, other, later, by rw [split, List.cons_append], same, last⟩
    · push Not at again
      obtain ⟨other, member, same⟩ := some_
      rcases List.mem_cons.mp member with rfl | later
      · exact ⟨[], other, jeps, rfl, same, again⟩
      · exact (again other later same).elim

/-- The row of the new version is not touched by the plans after it. -/
theorem newRow_mem (keyed : t.Keyed) (named : isBlank (some clusterId) = false)
    (own : ∀ other ∈ before ++ jep :: rest, other.clusterID = clusterId)
    (named' : ∀ other ∈ before ++ jep :: rest, isBlank (some other.jepID) = false)
    (newest : ∀ other ∈ rest, other.key ≠ jep.key) :
    ((before.foldl (PlanTables.replacePlan clusterId) t).cleared clusterId jep.jepID).newRow jep ∈
      ((before ++ jep :: rest).foldl (PlanTables.replacePlan clusterId) t).jobExecutionPlans := by
  have first : (before.foldl (PlanTables.replacePlan clusterId) t).Keyed := by
    apply keyed.replacePlans named
    · exact fun other member => own other (by simp [member])
    · exact fun other member => named' other (by simp [member])
  have second := first.replacePlan (own jep (by simp)) named (named' jep (by simp))
  rw [List.foldl_append, List.foldl_cons]
  have same := PlanTables.sameRows_replacePlans second named (fun other member => own other (by simp [member]))
    (fun other member => named' other (by simp [member])) newest
  have stored : ((before.foldl (PlanTables.replacePlan clusterId) t).cleared clusterId jep.jepID).newRow jep ∈
      (PlanTables.replacePlan clusterId (before.foldl (PlanTables.replacePlan clusterId) t) jep).plansOf jep.key := by
    apply List.mem_filter.mpr
    constructor
    · rw [PlanTables.replacePlan, (PlanTables.insertPlan_plans _ _).1]
      exact List.mem_append_right _ (List.mem_singleton.mpr rfl)
    · exact decide_eq_true rfl
  rw [← same.plans] at stored
  exact List.mem_of_mem_filter stored

end Hella

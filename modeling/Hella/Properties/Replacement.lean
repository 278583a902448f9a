import Hella.Plans.Builds
import Hella.Plans.Failures

/-!
# Which jobs a new version of a plan leaves

The old row of a plan is found by cluster and plan ID, its old job by the job key of the
new version, in which the name stands as well. A new version with another name therefore
leaves the job of the old one in Quartz.
-/
namespace Hella

open Exec Runs Text

variable {env : PlanEnv} {s u : PlanSystem} {t : PlanTables} {jobs : JMap QuartzJob} {clusterId name : String}
  {jep : PlanEntity} {before rest jeps : List PlanEntity} {context : JobExecutionPlanSubmissionContext}

/-- The plan a job belongs to. -/
def QuartzJob.key (job : QuartzJob) : String × String := (job.clusterID, job.jepID)

/-- Neither rows nor jobs. -/
structure PlanSystem.Fresh (s : PlanSystem) : Prop where
  tables : s.tables.Empty
  quartz : s.quartz = ∅

/-- A submission. -/
def PlanRequest.Submits (request : PlanRequest) : Prop :=
  ∃ context : JobExecutionPlanSubmissionContext, request = .register context ∧ context.WellFormed

/-- The jobs that belong to the plan are those built from its new version: one under its job
key, with the ID of its row, if it can be built at all. -/
def OnlyNewJob (env : PlanEnv) (jep : PlanEntity) (s : PlanSystem) : Prop :=
  ∃ row ∈ s.tables.jobExecutionPlans, row = { jep with id := row.id, jobPlanNodeList := [] } ∧
    ∀ name job, (s.quartz.lookup name = some job ∧ job.key = row.key) ↔
      (env.builds row = true ∧ name = row.qJobName ∧ job = row.quartzJob)

/-- When the new version takes the place of every other job of the plan. -/
structure TakesOver (env : PlanEnv) (jobs : JMap QuartzJob) (before : List PlanEntity) (jep : PlanEntity)
    (rest : List PlanEntity) : Prop where
  /-- an old job lies under the job key of a submitted plan -/
  old : ∀ name job, jobs.lookup name = some job → job.key = jep.key →
    ∃ other ∈ before ++ jep :: rest, other.qJobName = name
  /-- an earlier version in the submission has its job key taken by a later plan -/
  earlier : ∀ first other later, before = first ++ other :: later → other.key = jep.key → env.builds other = true →
    ∃ taker ∈ later ++ jep :: rest, taker.qJobName = other.qJobName
  /-- no later plan takes the job key of the new version -/
  later : env.builds jep = true → ∀ other ∈ rest, other.qJobName ≠ jep.qJobName

/-! ### The new version -/

section Version

variable (local_ : ∀ other ∈ before ++ jep :: rest, JobPlanManager.isLocal clusterId other = true)
  (newest : ∀ other ∈ rest, other.key ≠ jep.key)
include local_ newest

/-- Once more the cases are which plan of the submission comes last under a job key. -/
theorem jobs_of_takesOver (takes : TakesOver env jobs before jep rest) (name : String) (job : QuartzJob) :
    ((env.built clusterId t (before ++ jep :: rest) jobs).lookup name = some job ∧ job.key = jep.key) ↔
      (env.builds jep = true ∧ name = jep.qJobName ∧
        job = ((before.foldl (PlanTables.replacePlan clusterId) t).savedRow clusterId jep).quartzJob) := by
  constructor
  · rintro ⟨found, belongs⟩
    -- the job under a key is that of the last plan submitted under it
    by_cases taken : ∃ other ∈ before ++ jep :: rest, other.qJobName = name
    · obtain ⟨first, other, later, split, rfl, last⟩ := exists_last taken
      have scheduled : JobPlanManager.isLocal clusterId other = true := local_ other (by rw [split]; simp)
      rw [split, lookup_built_last env t jobs first scheduled last] at found
      split at found
      next builds =>
        cases found
        rcases List.append_eq_append_iff.mp split with ⟨middle, left, right⟩ | ⟨middle, left, right⟩
        · rcases List.cons_eq_append_iff.mp right with ⟨none_, same⟩ | ⟨tail, same, later'⟩
          · -- the last plan under the key is the new version
            cases same
            rw [none_, List.append_nil] at left
            rw [left]
            exact ⟨builds, rfl, rfl⟩
          · exact (newest other (by rw [later']; simp) belongs).elim
        · rcases List.cons_eq_append_iff.mp right with ⟨none_, same⟩ | ⟨tail, same, later'⟩
          · cases same
            rw [none_, List.append_nil] at left
            rw [left]
            exact ⟨builds, rfl, rfl⟩
          · -- an earlier version is not the last plan under its key
            rw [same] at left
            obtain ⟨taker, member, taken'⟩ := takes.earlier first other tail left belongs builds
            rw [← later'] at member
            exact (last taker member taken').elim
      · cases found
    -- no plan was submitted under this key, so the job is an old one
    · push Not at taken
      rw [lookup_built_ne taken] at found
      obtain ⟨other, member, same⟩ := takes.old name job found belongs
      exact (taken other member same).elim
  · rintro ⟨builds, rfl, rfl⟩
    rw [lookup_built_last env t jobs before (local_ jep (by simp)) (takes.later builds), builds]
    exact ⟨rfl, rfl⟩

theorem takesOver_of_jobs
    (jobs_ : ∀ name job, ((env.built clusterId t (before ++ jep :: rest) jobs).lookup name = some job ∧
      job.key = jep.key) ↔
      (env.builds jep = true ∧ name = jep.qJobName ∧
        job = ((before.foldl (PlanTables.replacePlan clusterId) t).savedRow clusterId jep).quartzJob)) :
    TakesOver env jobs before jep rest := by
  constructor
  · intro name job found belongs
    by_contra free
    push Not at free
    -- nothing has touched the old job
    have kept := (jobs_ name job).mp ⟨(lookup_built_ne free).trans found, belongs⟩
    exact free jep (by simp) kept.2.1.symm
  · intro first other later split belongs builds
    by_contra free
    push Not at free
    have whole : before ++ jep :: rest = first ++ other :: (later ++ jep :: rest) := by
      rw [split, List.append_assoc, List.cons_append]
    have scheduled : JobPlanManager.isLocal clusterId other = true := local_ other (by rw [whole]; simp)
    have found := lookup_built_last env t jobs first scheduled free
    rw [← whole, builds, if_pos rfl] at found
    have kept := (jobs_ _ _).mp ⟨found, belongs⟩
    exact free jep (by simp) kept.2.1.symm
  · intro builds other member same
    obtain ⟨first, another, later, split, same', last⟩ :=
      exists_last ⟨other, member, same⟩
    have whole : before ++ jep :: rest = (before ++ jep :: first) ++ another :: later := by
      rw [split, List.append_assoc, List.cons_append]
    have inside : another ∈ rest := by rw [split]; simp
    have scheduled : JobPlanManager.isLocal clusterId another = true := local_ another (by simp [inside])
    rw [← same'] at last
    have found := lookup_built_last env t jobs (before ++ jep :: first) scheduled last
    rw [← whole, same', ((jobs_ _ _).mpr ⟨builds, rfl, rfl⟩).1] at found
    split at found
    · -- the job under the key would belong to the later plan
      have own := congrArg QuartzJob.key (Option.some.inj found)
      exact newest another inside own.symm
    · cases found

end Version

/-- Failures of the database in earlier submissions do not double a plan. -/
theorem keyed_of_submissions
    (reachable : Reachable (planSystem env PlanSystem.Fresh) (fun _ request => request.Submits) s) :
    s.tables.Keyed := by
  apply Reachable.invariant (I := fun s => s.tables.Keyed) _ _ reachable
  · exact fun s fresh => fresh.tables.consistent.toKeyed
  · rintro s _ _ keyed ⟨context, rfl, wellFormed⟩ rfl
    exact (keeps_register wellFormed).discard.after keyed

/-- After any submissions, with or without failures of the database, and a submission that is
answered with true: the jobs of a plan are those of its new version exactly when the new
version takes over. -/
theorem onlyNewJob_iff (quartz : ∀ n, env.quartzSucceeds n = true)
    (reachable : Reachable (planSystem env PlanSystem.Fresh) (fun _ request => request.Submits) s)
    (wellFormed : context.WellFormed)
    (local_ : ∀ other ∈ context.jobExecutionPlans, JobPlanManager.isLocal context.clusterId other = true)
    (plans : context.jobExecutionPlans = before ++ jep :: rest) (newest : ∀ other ∈ rest, other.key ≠ jep.key)
    (returned : JobPlanManager.registerJobExecutionPlanSubmissionContext env context s = .ok true u) :
    OnlyNewJob env jep u ↔ TakesOver env s.quartz before jep rest := by
  have keyed := keyed_of_submissions reachable
  obtain ⟨named, own, named'⟩ := wellFormed
  have calm := PlanEnv.calm_answering quartz
  obtain ⟨answer, v, returned', left_⟩ := registers (s := s) calm named
  rw [register_true returned] at returned'
  cases returned'
  rw [plans] at local_ own named' left_
  have tables : u.tables = _ := left_.tables
  have jobs : u.quartz = env.built context.clusterId s.tables (before ++ jep :: rest) s.quartz := left_.quartz
  have inside := newRow_mem keyed named own named' newest
  rw [← tables] at inside
  constructor
  · rintro ⟨row, member, same, only⟩
    have keyed' : u.tables.Keyed := by
      rw [tables]
      exact keyed.replacePlans named own named'
    -- there is one row under the key
    have one : row = _ := keyed'.eq_of_key member inside (by rw [same]; rfl)
    subst one
    apply takesOver_of_jobs local_ newest
    intro name job
    rw [← jobs]
    exact only name job
  · intro takes
    refine ⟨_, inside, rfl, fun name job => ?_⟩
    rw [jobs]
    exact jobs_of_takesOver local_ newest takes name job

/-! ### A new version under the old name, and under a new one -/

/-- The engine has one plan. -/
def onePlan : PlanSystem := after ((PlanRequest.register ⟨"c", [.plain "p" "old"]⟩).run PlanEnv.calm {})

theorem onePlan_reachable :
    Reachable (planSystem PlanEnv.calm PlanSystem.Fresh) (fun _ request => request.Submits) onePlan :=
  .next (a := .register _) (.start ⟨⟨rfl, rfl, rfl⟩, rfl⟩) ⟨_, rfl, plain_wellFormed ["old"]⟩ rfl

theorem onePlan_keys : onePlan.quartz.keys = [(PlanEntity.plain "p" "old").qJobName] := by decide +kernel

theorem onePlan_job : onePlan.quartz.lookup (PlanEntity.plain "p" "old").qJobName =
    some ⟨false, 1, "c", "p", "old"⟩ := by decide +kernel

/-- Another version under the old name takes over. -/
theorem onlyNewJob_sameName : ∃ u, JobPlanManager.registerJobExecutionPlanSubmissionContext PlanEnv.calm
    ⟨"c", [.plain "p" "old"]⟩ onePlan = .ok true u ∧ OnlyNewJob PlanEnv.calm (.plain "p" "old") u := by
  obtain ⟨answer, u, returned, rfl, -⟩ :=
    register_calm (s := onePlan) PlanEnv.calm_calm (plain_wellFormed ["old"]).clusterId (by simp)
  refine ⟨u, returned, ?_⟩
  apply (onlyNewJob_iff PlanEnv.calm_calm.quartz onePlan_reachable (plain_wellFormed ["old"]) (by simp; decide)
    (List.nil_append _).symm (by simp) returned).mpr
  constructor
  · intro name job found _
    have member : name ∈ onePlan.quartz.keys := AList.lookup_isSome.mp (by rw [found]; rfl)
    rw [onePlan_keys] at member
    exact ⟨.plain "p" "old", by simp, (List.mem_singleton.mp member).symm⟩
  · intro first other later split
    simp at split
  · simp

/-- A version with another name leaves the old job, whose row is gone. -/
theorem renamed_leaves_old_job : ∃ s u,
    Reachable (planSystem PlanEnv.calm PlanSystem.Fresh) (fun _ request => request.Submits) s ∧
      (∃ row ∈ s.tables.jobExecutionPlans, row.key = (PlanEntity.plain "p" "new").key) ∧
      JobPlanManager.isLocal "c" (.plain "p" "new") = true ∧ PlanEnv.calm.builds (.plain "p" "new") = true ∧
      JobPlanManager.registerJobExecutionPlanSubmissionContext PlanEnv.calm ⟨"c", [.plain "p" "new"]⟩ s = .ok true u ∧
      (∃ name job, u.quartz.lookup name = some job ∧ job.key = (PlanEntity.plain "p" "new").key ∧
        ∀ row ∈ u.tables.jobExecutionPlans, row.id ≠ job.jobExecutionPlanID) ∧
      ¬ OnlyNewJob PlanEnv.calm (.plain "p" "new") u := by
  obtain ⟨answer, u, returned, rfl, left_⟩ :=
    register_calm (s := onePlan) PlanEnv.calm_calm (plain_wellFormed ["new"]).clusterId (by simp)
  have local_ : JobPlanManager.isLocal "c" (.plain "p" "new") = true := by decide
  have renamed : (PlanEntity.plain "p" "new").qJobName ≠ (PlanEntity.plain "p" "old").qJobName := by decide +kernel
  have found : u.quartz.lookup (PlanEntity.plain "p" "old").qJobName = some ⟨false, 1, "c", "p", "old"⟩ := by
    rw [left_.quartz, ← onePlan_job]
    exact lookup_built_ne (by simpa using renamed)
  refine ⟨onePlan, u, onePlan_reachable, by decide +kernel, local_, rfl, returned, ?_, ?_⟩
  · refine ⟨_, _, found, rfl, ?_⟩
    rw [left_.tables]
    decide +kernel
  · rintro ⟨row, -, same, only⟩
    obtain ⟨-, name, -⟩ := (only _ _).mp ⟨found, by rw [same]; rfl⟩
    rw [same] at name
    exact renamed name.symm

end Hella

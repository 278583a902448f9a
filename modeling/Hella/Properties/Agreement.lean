import Hella.Plans.Builds
import Hella.Plans.Failures

/-!
# Plan rows and Quartz jobs

Every operation writes the row and the job apart. Pausing and resuming keep the job, the
operation that disables a plan deletes it, and resuming does not bring it back: a plan that
was disabled by a late firing is shown as able and never fires again.
-/
namespace Hella

open Exec Runs Text

variable {env : PlanEnv} {s : PlanSystem} {t u : PlanTables} {jobs : JMap QuartzJob} {name key : String}
  {row jep : PlanEntity} {id : Nat} {context : JobExecutionPlanSubmissionContext}

/-! ### Agreement -/

/-- There is a job under the key that will fire. -/
def Active (jobs : JMap QuartzJob) (key : String) : Prop := ∃ job, jobs.lookup key = some job ∧ job.paused = false

/-- The plan has a schedule. -/
def PlanEntity.Scheduled (row : PlanEntity) : Prop := row.cronType = some .simple ∨ row.cronType = some .cron

structure PlanEntity.Agrees (row : PlanEntity) (jobs : JMap QuartzJob) : Prop where
  able : row.Scheduled → row.state = .able → Active jobs row.qJobName
  disable : row.state = .disable → ¬ Active jobs row.qJobName

/-- Plan state and scheduler agree. -/
def Agree (s : PlanSystem) : Prop := ∀ row ∈ s.tables.jobExecutionPlans, row.Agrees s.quartz

/-- What the requests keep: the rows agree, and each has an ID and a job key of its own. -/
structure Agreeing (t : PlanTables) (jobs : JMap QuartzJob) : Prop where
  keyed : t.Keyed
  positive : ∀ row ∈ t.jobExecutionPlans, row.id ≠ 0
  apart : ∀ row ∈ t.jobExecutionPlans, ∀ other ∈ t.jobExecutionPlans, row.qJobName = other.qJobName → row = other
  agree : ∀ row ∈ t.jobExecutionPlans, row.Agrees jobs

/-- The plan is, to the tables, the one with its job key. -/
def PlanTables.Current (t : PlanTables) (jep : PlanEntity) : Prop :=
  ∀ row ∈ t.jobExecutionPlans, row.id = jep.id ↔ row.qJobName = jep.qJobName

/-- What a loop over rows it has read knows of the next one. -/
structure PlanTables.Knows (t : PlanTables) (jep : PlanEntity) : Prop where
  positive : jep.id ≠ 0
  current : t.Current jep
  cluster : ∀ row ∈ t.jobExecutionPlans, row.id = jep.id → row.clusterID = jep.clusterID

/-- What agreement takes of a request. -/
def PlanRequest.Careful (env : PlanEnv) (s : PlanSystem) : PlanRequest → Prop
  | .register context =>
    -- the plans are able and can be scheduled here, and no two plans share a job key
    context.WellFormed ∧
      (∀ jep ∈ context.jobExecutionPlans, jep.state = .able ∧
        (jep.Scheduled → JobPlanManager.isLocal context.clusterId jep = true ∧ env.builds jep = true)) ∧
      (∀ jep ∈ context.jobExecutionPlans, ∀ row ∈ s.tables.jobExecutionPlans,
        row.qJobName = jep.qJobName → row.key = jep.key) ∧
      ∀ jep ∈ context.jobExecutionPlans, ∀ other ∈ context.jobExecutionPlans,
        other.qJobName = jep.qJobName → other.key = jep.key
  | .pause jobExecutionPlan =>
    -- the plan handed over has not been replaced
    jobExecutionPlan.id ≠ 0 ∧ s.tables.Current jobExecutionPlan
  | .resume id =>
    -- the job is still there
    ∀ row ∈ s.tables.jobExecutionPlans, row.id = id → row.Scheduled → row.qJobName ∈ s.quartz
  | .resumeOf clusterID jepID =>
    ∀ row, s.tables.stored? clusterID jepID = some row → row.Scheduled → row.qJobName ∈ s.quartz
  | _ => True

/-! ### Changes in Quartz -/

theorem lookup_setPaused_self (paused : Bool) :
    (setPaused paused key jobs).lookup key = (jobs.lookup key).map fun job => { job with paused := paused } := by
  unfold setPaused
  cases found : jobs.lookup key with
  | none => simp [found]
  | some job => simp

theorem lookup_setPaused_ne (paused : Bool) (ne : name ≠ key) :
    (setPaused paused key jobs).lookup name = jobs.lookup name := by
  unfold setPaused
  cases jobs.lookup key with
  | none => rfl
  | some job => exact AList.lookup_insert_ne ne

theorem not_active_paused : ¬ Active (setPaused true key jobs) key := by
  rintro ⟨job, found, running⟩
  rw [lookup_setPaused_self] at found
  obtain ⟨old, -, rfl⟩ := Option.map_eq_some_iff.mp found
  cases running

theorem active_resumed (present : key ∈ jobs) : Active (setPaused false key jobs) key := by
  obtain ⟨job, found⟩ := Option.isSome_iff_exists.mp (AList.lookup_isSome.mpr present)
  exact ⟨{ job with paused := false }, by rw [lookup_setPaused_self, found]; rfl, rfl⟩

theorem not_active_erased : ¬ Active (jobs.erase key) key := by
  rintro ⟨job, found, -⟩
  rw [AList.lookup_erase] at found
  cases found

theorem Active.congr {jobs' : JMap QuartzJob} (same : jobs'.lookup key = jobs.lookup key) :
    Active jobs' key ↔ Active jobs key := by
  unfold Active
  rw [same]

/-- A row is concerned by what lies under its own job key. -/
theorem PlanEntity.Agrees.congr {jobs' : JMap QuartzJob} (agrees : row.Agrees jobs)
    (same : jobs'.lookup row.qJobName = jobs.lookup row.qJobName) : row.Agrees jobs' := by
  constructor
  · rw [Active.congr same]
    exact agrees.able
  · rw [Active.congr same]
    exact agrees.disable

/-! ### Changes of one plan -/

theorem mem_updateState {clusterID : Option String} {state : PlanState} :
    row ∈ (t.updateState id clusterID state).jobExecutionPlans ↔ ∃ old ∈ t.jobExecutionPlans,
      (if (id = 0 ∨ old.id = id) ∧ (isBlank clusterID = true ∨ some old.clusterID = clusterID) then
        { old with state := state } else old) = row := List.mem_map

/-- Neither the ID nor the job key of a row is changed. -/
theorem Agreeing.updateState {jobs' : JMap QuartzJob} {clusterID : Option String} {state : PlanState}
    (agreeing : Agreeing t jobs)
    (rows : ∀ old ∈ t.jobExecutionPlans,
      if (id = 0 ∨ old.id = id) ∧ (isBlank clusterID = true ∨ some old.clusterID = clusterID) then
        { old with state := state }.Agrees jobs' else old.Agrees jobs') :
    Agreeing (t.updateState id clusterID state) jobs' where
  keyed := agreeing.keyed.updateState id clusterID state
  positive row member := by
    obtain ⟨old, stored, rfl⟩ := mem_updateState.mp member
    have positive := agreeing.positive old stored
    -- the update keeps the ids and the keys, so what held of the old rows holds of the new
    split <;> exact positive
  apart row member other member' same := by
    obtain ⟨old, stored, rfl⟩ := mem_updateState.mp member
    obtain ⟨old', stored', rfl⟩ := mem_updateState.mp member'
    have names : old.qJobName = old'.qJobName := by
      split at same <;> split at same <;> exact same
    rw [agreeing.apart old stored old' stored' names]
  agree row member := by
    obtain ⟨old, stored, rfl⟩ := mem_updateState.mp member
    have agrees := rows old stored
    split
    next cond =>
      rw [if_pos cond] at agrees
      exact agrees
    next cond =>
      rw [if_neg cond] at agrees
      exact agrees

theorem Agreeing.current (agreeing : Agreeing t jobs) (member : row ∈ t.jobExecutionPlans) : t.Current row := by
  intro other stored
  constructor
  · intro same
    rw [agreeing.keyed.eq_of_id stored member same]
  · intro same
    rw [agreeing.apart other stored row member same]

theorem Agreeing.knows (agreeing : Agreeing t jobs) (member : row ∈ t.jobExecutionPlans) : t.Knows row where
  positive := agreeing.positive row member
  current := agreeing.current member
  cluster other stored same := by rw [agreeing.keyed.eq_of_id stored member same]

/-- Another plan may change its state meanwhile. -/
theorem PlanTables.Knows.updateState {clusterID : Option String} {state : PlanState} (knows : t.Knows jep) (id : Nat) :
    (t.updateState id clusterID state).Knows jep where
  positive := knows.positive
  current row member := by
    obtain ⟨old, stored, rfl⟩ := mem_updateState.mp member
    have current := knows.current old stored
    split <;> exact current
  cluster row member := by
    obtain ⟨old, stored, rfl⟩ := mem_updateState.mp member
    have cluster := knows.cluster old stored
    split <;> exact cluster

theorem Agreeing.pause (agreeing : Agreeing t jobs) (positive : jep.id ≠ 0) (current : t.Current jep) :
    Agreeing (t.updateState jep.id none .disable) (setPaused true jep.qJobName jobs) := by
  apply agreeing.updateState
  intro old stored
  split
  next own =>
    have same : old.id = jep.id := own.1.resolve_left positive
    refine ⟨fun _ able => (nomatch able), fun _ => ?_⟩
    change ¬ Active _ old.qJobName
    rw [(current old stored).mp same]
    exact not_active_paused
  next other =>
    apply (agreeing.agree old stored).congr
    apply lookup_setPaused_ne
    intro same
    exact other ⟨.inr ((current old stored).mpr same), .inl rfl⟩

theorem Agreeing.resume (agreeing : Agreeing t jobs) (member : row ∈ t.jobExecutionPlans)
    (present : row.Scheduled → row.qJobName ∈ jobs) :
    Agreeing (t.updateState row.id none .able) (setPaused false row.qJobName jobs) := by
  have current := agreeing.current member
  apply agreeing.updateState
  intro old stored
  split
  next own =>
    have same : old = row := agreeing.keyed.eq_of_id stored member (own.1.resolve_left (agreeing.positive row member))
    subst same
    exact ⟨fun scheduled _ => active_resumed (present scheduled), fun disabled => (nomatch disabled)⟩
  next other =>
    apply (agreeing.agree old stored).congr
    apply lookup_setPaused_ne
    intro same
    exact other ⟨.inr ((current old stored).mpr same), .inl rfl⟩

theorem Agreeing.disable (agreeing : Agreeing t jobs) (known : t.Knows jep) :
    Agreeing (t.updateState jep.id (some jep.clusterID) .disable) (jobs.erase jep.qJobName) := by
  apply agreeing.updateState
  intro old stored
  split
  next own =>
    have same : old.id = jep.id := own.1.resolve_left known.positive
    refine ⟨fun _ able => (nomatch able), fun _ => ?_⟩
    change ¬ Active _ old.qJobName
    rw [(known.current old stored).mp same]
    exact not_active_erased
  next other =>
    apply (agreeing.agree old stored).congr
    apply AList.lookup_erase_ne
    intro same
    -- the row with the key is the one that is disabled
    have own : old.id = jep.id := (known.current old stored).mpr same
    exact other ⟨.inr own, .inr (congrArg some (known.cluster old stored own))⟩

theorem Agreeing.delete (agreeing : Agreeing t jobs) (current : t.Current jep) :
    Agreeing (t.deletePlan jep.id) (jobs.erase jep.qJobName) where
  keyed := agreeing.keyed.fewer (PlanTables.fewer_deletePlan t jep.id)
  positive row member := agreeing.positive row (PlanTables.mem_deletePlan.mp member).1
  apart row member other member' :=
    agreeing.apart row (PlanTables.mem_deletePlan.mp member).1 other (PlanTables.mem_deletePlan.mp member').1
  agree row member := by
    obtain ⟨stored, ne⟩ := PlanTables.mem_deletePlan.mp member
    apply (agreeing.agree row stored).congr
    apply AList.lookup_erase_ne
    exact fun same => ne ((current row stored).mpr same)

/-- Several plans are deleted, first their jobs and then their rows. -/
theorem Agreeing.deletes {rows : List PlanEntity} (agreeing : Agreeing t jobs) (current : ∀ row ∈ rows, t.Current row) :
    Agreeing (rows.foldl (fun t row => t.deletePlan row.id) t)
      (rows.foldl (fun jobs row => jobs.erase row.qJobName) jobs) := by
  induction rows generalizing t jobs with
  | nil => exact agreeing
  | cons jep rows ih =>
    apply ih (agreeing.delete (current jep (by simp)))
    intro other member row stored
    exact current other (by simp [member]) row (PlanTables.mem_deletePlan.mp stored).1

/-! ### Submissions -/

/-- A row after a submission is an old one or that of a submitted plan. -/
theorem row_cases {clusterId : String} {plans : List PlanEntity} (keyed : t.Keyed)
    (named : isBlank (some clusterId) = false) (own : ∀ jep ∈ plans, jep.clusterID = clusterId)
    (named' : ∀ jep ∈ plans, isBlank (some jep.jepID) = false)
    (member : row ∈ (plans.foldl (PlanTables.replacePlan clusterId) t).jobExecutionPlans) :
    (row ∈ t.jobExecutionPlans ∧ ∀ jep ∈ plans, jep.key ≠ row.key) ∨
      ∃ before jep rest, plans = before ++ jep :: rest ∧ (∀ other ∈ rest, other.key ≠ jep.key) ∧
        row = ((before.foldl (PlanTables.replacePlan clusterId) t).cleared clusterId jep.jepID).newRow jep := by
  by_cases submitted : ∃ jep ∈ plans, jep.key = row.key
  · right
    obtain ⟨before, jep, rest, split, same, newest⟩ := exists_last submitted
    rw [← same] at newest
    have keyed' := keyed.replacePlans named own named'
    rw [split] at own named' member keyed'
    have stored := newRow_mem keyed named own named' newest
    exact ⟨before, jep, rest, split, newest, keyed'.eq_of_key member stored same.symm⟩
  · left
    push Not at submitted
    have same := PlanTables.sameRows_replacePlans keyed named own named' submitted
    have inside : row ∈ (plans.foldl (PlanTables.replacePlan clusterId) t).plansOf row.key :=
      List.mem_filter.mpr ⟨member, decide_eq_true rfl⟩
    rw [same.plans] at inside
    exact ⟨List.mem_of_mem_filter inside, submitted⟩

theorem Agreeing.register (agreeing : Agreeing s.tables s.quartz)
    (careful : (PlanRequest.register context).Careful env s) :
    Agreeing (context.jobExecutionPlans.foldl (PlanTables.replacePlan context.clusterId) s.tables)
      (env.built context.clusterId s.tables context.jobExecutionPlans s.quartz) := by
  obtain ⟨⟨named, own, named'⟩, able, apart, apart'⟩ := careful
  have keyed' := agreeing.keyed.replacePlans named own named'
  refine ⟨keyed', fun row member => ?_, fun row member other member' same => ?_, fun row member => ?_⟩
  · rcases row_cases agreeing.keyed named own named' member with ⟨old, -⟩ | ⟨before, jep, rest, -, -, rfl⟩
    · exact agreeing.positive row old
    · exact Nat.succ_ne_zero _
  -- an old row and a new one never share a job key, nor do two plans submitted together
  · rcases row_cases agreeing.keyed named own named' member with ⟨old, others⟩ | ⟨before, jep, rest, split, -, rfl⟩
    · rcases row_cases agreeing.keyed named own named' member' with ⟨old', -⟩ | ⟨before', jep', rest', split', -, rfl⟩
      · exact agreeing.apart row old other old' same
      · have inside : jep' ∈ context.jobExecutionPlans := by rw [split']; simp
        exact (others jep' inside (apart jep' inside row old same).symm).elim
    · have inside : jep ∈ context.jobExecutionPlans := by rw [split]; simp
      rcases row_cases agreeing.keyed named own named' member' with ⟨old', others⟩ |
        ⟨before', jep', rest', split', -, rfl⟩
      · exact (others jep inside (apart jep inside other old' same.symm).symm).elim
      · have inside' : jep' ∈ context.jobExecutionPlans := by rw [split']; simp
        exact keyed'.eq_of_key member member' (apart' jep' inside' jep inside same)
  · rcases row_cases agreeing.keyed named own named' member with ⟨old, others⟩ | ⟨before, jep, rest, split, newest, rfl⟩
    · -- no submitted plan has its job key
      apply (agreeing.agree row old).congr
      apply lookup_built_ne
      intro jep inside same
      exact others jep inside (apart jep inside row old same.symm).symm
    -- the job under the key is that of the last plan submitted with it
    · have inside : jep ∈ context.jobExecutionPlans := by rw [split]; simp
      obtain ⟨able_, scheduled⟩ := able jep inside
      constructor
      · intro scheduled_ _
        obtain ⟨local_, builds⟩ := scheduled scheduled_
        have last : ∀ other ∈ rest, other.qJobName ≠ jep.qJobName := by
          intro other later same
          have inside' : other ∈ context.jobExecutionPlans := by rw [split]; simp [later]
          exact newest other later (apart' jep inside other inside' same)
        have found := lookup_built_last env s.tables s.quartz before local_ last
        rw [← split, builds] at found
        exact ⟨_, found, rfl⟩
      · intro disabled
        have state : jep.state = .disable := disabled
        rw [able_] at state
        cases state

/-! ### One request -/

/-- The system agrees; see `Agreeing`. -/
def PlanSystem.Agreeing (s : PlanSystem) : Prop := Hella.Agreeing s.tables s.quartz

theorem PlanSystem.Leaves.agreeing {v : PlanSystem} (left_ : s.Leaves t jobs v) (agreeing : Hella.Agreeing t jobs) :
    v.Agreeing := by
  unfold PlanSystem.Agreeing
  rw [left_.tables, left_.quartz]
  exact agreeing

theorem PlanSystem.Leaves.knows {v : PlanSystem} (left_ : s.Leaves t jobs v) (knows : t.Knows jep) :
    v.tables.Knows jep := by
  rw [left_.tables]
  exact knows

/-- A loop over rows that writes one after the other. -/
theorem forM_agreeing {body : PlanEntity → PlanM Unit} {rows : List PlanEntity} (agreeing : s.Agreeing)
    (knows : ∀ jep ∈ rows, s.tables.Knows jep)
    (turn : ∀ jep v, v.Agreeing → v.tables.Knows jep → Returns (body jep) v fun _ w =>
      w.Agreeing ∧ ∀ other, v.tables.Knows other → w.tables.Knows other) :
    Returns (rows.forM body) s fun _ v => v.Agreeing := by
  have loop : Returns (rows.forM body) s fun _ v => v.Agreeing ∧ ∀ jep ∈ [], v.tables.Knows jep := Returns.forM
    (I := fun rows (v : PlanSystem) => v.Agreeing ∧ ∀ jep ∈ rows, v.tables.Knows jep)
    (fun jep rest v ⟨agreeing, knows⟩ => (turn jep v agreeing (knows jep (by simp))).conseq
      fun _ w ⟨agreeing', kept⟩ => ⟨agreeing', fun other member => kept other (knows other (by simp [member]))⟩)
    rows ⟨agreeing, knows⟩
  exact loop.conseq fun _ _ holds => holds.1

theorem selected_knows {clusterID jepID : String} {state : Option PlanState} (agreeing : s.Agreeing) :
    ∀ row ∈ s.tables.selectJobExecutionPlan 0 (some clusterID) (some jepID) state, s.tables.Knows row :=
  fun _ selected => agreeing.knows (List.mem_of_mem_filter ((List.mem_insertionSort _).mp selected))

section Requests

variable (calm : env.Calm)
include calm

theorem pauseOf_agreeing (clusterID jepID : String) (agreeing : s.Agreeing) :
    Returns (JobPlanManager.pauseJobExecutionPlans env clusterID jepID) s fun _ v => v.Agreeing := by
  refine .bind (Returns.catching (queryJobPlan_calm calm clusterID jepID (some .able))) fun list v ⟨same, left_⟩ => ?_
  subst same
  refine .bind ?_ fun _ w agreeing => .pure agreeing
  apply forM_agreeing (left_.agreeing agreeing)
  · exact fun row selected => left_.knows (selected_knows agreeing row selected)
  · intro jep v agreeing knows
    refine (pauseJobExecutionPlan_calm calm jep).bind fun _ w left_ => .pure ⟨?_, ?_⟩
    · exact left_.agreeing (agreeing.pause knows.positive knows.current)
    · exact fun other knows => left_.knows (knows.updateState jep.id)

theorem resume_agreeing (id : Nat) (agreeing : s.Agreeing)
    (present : ∀ row ∈ s.tables.jobExecutionPlans, row.id = id → row.Scheduled → row.qJobName ∈ s.quartz) :
    Returns (JobPlanManager.resumeJobExecutionPlan env id) s fun _ v => v.Agreeing := by
  apply (resumeJobExecutionPlan_calm calm id).conseq
  intro _ v left_
  cases found : s.tables.byID? id with
  | none =>
    rw [found] at left_
    exact left_.agreeing agreeing
  | some row =>
    rw [found] at left_
    obtain ⟨member, rfl⟩ := PlanTables.byID?_some found
    exact left_.agreeing (agreeing.resume member (present row member rfl))

theorem resumeOf_agreeing (clusterID jepID : String) (agreeing : s.Agreeing)
    (present : ∀ row, s.tables.stored? clusterID jepID = some row → row.Scheduled → row.qJobName ∈ s.quartz) :
    Returns (JobPlanManager.resumeJobExecutionPlans env clusterID jepID) s fun _ v => v.Agreeing := by
  refine .bind (Returns.catching (queryJobPlan_calm calm clusterID jepID none)) fun list v ⟨same, left_⟩ => ?_
  cases list with
  | nil => exact .pure (left_.agreeing agreeing)
  | cons jep rest =>
    have found : s.tables.stored? clusterID jepID = some jep := by
      unfold PlanTables.stored?
      rw [← same]
      rfl
    have member : jep ∈ s.tables.jobExecutionPlans :=
      List.mem_of_mem_filter ((List.mem_insertionSort _).mp (List.mem_of_mem_head? found))
    apply resume_agreeing calm jep.id (left_.agreeing agreeing)
    intro row stored own
    rw [left_.tables] at stored
    rw [left_.quartz, agreeing.keyed.eq_of_id stored member own]
    exact present jep found

theorem disable_agreeing (id : Nat) (agreeing : s.Agreeing) :
    Returns (JobPlanManager.disableJobExecutionPlans env id) s fun _ v => v.Agreeing := by
  apply (disableJobExecutionPlans_calm calm id).conseq
  intro _ v left_
  cases found : s.tables.byID? id with
  | none =>
    rw [found] at left_
    exact left_.agreeing agreeing
  | some row =>
    rw [found] at left_
    exact left_.agreeing (agreeing.disable (agreeing.knows (PlanTables.byID?_some found).1))

theorem disableOf_agreeing (clusterID jepID : String) (agreeing : s.Agreeing) :
    Returns (JobPlanManager.disableJobExecutionPlansOf env clusterID jepID) s fun _ v => v.Agreeing := by
  refine (queryJobPlan_calm calm clusterID jepID none).bind fun list v ⟨same, left_⟩ => ?_
  subst same
  refine .bind ?_ fun _ w agreeing => .pure agreeing
  apply forM_agreeing (left_.agreeing agreeing)
  · exact fun row selected => left_.knows (selected_knows agreeing row selected)
  · intro jep v agreeing knows
    apply (disableJobExecutionPlan_calm calm jep).conseq
    intro _ w left_
    constructor
    · exact left_.agreeing (agreeing.disable knows)
    · exact fun other knows => left_.knows (knows.updateState jep.id)

/-- A firing that comes late deletes the job of a plan that is disabled anyway. -/
theorem publishEvent_agreeing (id : Nat) (agreeing : s.Agreeing) :
    Returns (JobPlanManager.publishEvent env id) s fun _ v => v.Agreeing := by
  refine (queryJobPlanByID_calm calm id).bind fun found v ⟨same, left_⟩ => ?_
  have agreeing' : v.Agreeing := left_.agreeing agreeing
  cases found with
  | none => exact .modifying agreeing'
  | some row =>
    dsimp only
    split
    · exact (disable_agreeing calm id agreeing').bind fun _ w agreeing => .pure agreeing
    · exact .modifying agreeing'

theorem agreeing_of_step {request : PlanRequest} (agreeing : s.Agreeing) (careful : request.Careful env s) :
    (after (request.run env s)).Agreeing := by
  -- a registration, a pause and a resumption need the hypothesis; the others find their rows themselves
  cases request with
  | register context =>
    apply returns_discard
    apply (registers calm careful.1.clusterId).conseq
    exact fun _ v left_ => left_.agreeing (agreeing.register careful)
  | pause jep =>
    apply returns_discard
    apply (pauseJobExecutionPlan_calm calm jep).conseq
    exact fun _ v left_ => left_.agreeing (agreeing.pause careful.1 careful.2)
  | pauseOf clusterID jepID => exact returns_discard (pauseOf_agreeing calm clusterID jepID agreeing)
  | resume id => exact returns_discard (resume_agreeing calm id agreeing careful)
  | resumeOf clusterID jepID => exact returns_discard (resumeOf_agreeing calm clusterID jepID agreeing careful)
  | disable id => exact returns_discard (disable_agreeing calm id agreeing)
  | disableOf clusterID jepID => exact returns_discard (disableOf_agreeing calm clusterID jepID agreeing)
  | delete clusterID jepID =>
    apply returns_discard
    apply (deleteJobExecutionPlan_calm calm clusterID jepID).conseq
    intro _ v left_
    apply left_.agreeing
    exact agreeing.deletes fun row selected => (selected_knows agreeing row selected).current
  | deleteByID id =>
    apply returns_discard
    apply (deleteJobExecutionPlanByID_calm calm id).conseq
    intro _ v left_
    cases found : s.tables.byID? id with
    | none =>
      rw [found] at left_
      exact left_.agreeing agreeing
    | some row =>
      rw [found] at left_
      exact left_.agreeing (agreeing.delete (agreeing.current (PlanTables.byID?_some found).1))
  | publishEvent id => exact (publishEvent_agreeing calm id agreeing).after

end Requests

/-! ### Whole runs -/

/-- Plan state and scheduler agree as long as the requests are careful. -/
theorem agree_of_careful (calm : env.Calm)
    (reachable : Reachable (planSystem env (·.tables.Empty)) (fun s request => request.Careful env s) s) : Agree s := by
  have agreeing : s.Agreeing := by
    apply Reachable.invariant (I := PlanSystem.Agreeing) _ _ reachable
    · intro s empty
      refine ⟨empty.consistent.toKeyed, ?_, ?_, ?_⟩ <;> simp [empty.jobExecutionPlans]
    · rintro s request _ agreeing careful rfl
      exact agreeing_of_step calm agreeing careful
  exact agreeing.agree

/-- A plan is registered and paused, and its firing comes late: its job is deleted. -/
theorem agree_after_pause :
    Agree (after ((PlanRequest.publishEvent 1).run PlanEnv.calm (after ((PlanRequest.pauseOf "c" "p").run PlanEnv.calm
      (after ((PlanRequest.register ⟨"c", [.plain "p" "a"]⟩).run PlanEnv.calm {})))))) := by
  have careful : (PlanRequest.register ⟨"c", [.plain "p" "a"]⟩).Careful PlanEnv.calm {} := by
    refine ⟨plain_wellFormed ["a"], fun jep member => ?_, by simp, by simp⟩
    rw [List.mem_singleton.mp member]
    exact ⟨rfl, fun _ => ⟨by decide, rfl⟩⟩
  have paused : Reachable (planSystem .calm (·.tables.Empty)) (fun s request => request.Careful .calm s) _ :=
    .next (a := .pauseOf "c" "p") (.next (a := .register _) (.start ⟨rfl, rfl, rfl⟩) careful rfl) trivial rfl
  exact agree_of_careful PlanEnv.calm_calm (.next (a := .publishEvent 1) paused trivial rfl)

/-! ### A plan that is able and never fires -/

/-- Submissions of plans that are able and can be scheduled here. -/
def Schedulable (env : PlanEnv) (request : PlanRequest) : Prop :=
  ∀ context, request = .register context → context.WellFormed ∧ ∀ jep ∈ context.jobExecutionPlans,
    jep.state = .able ∧ JobPlanManager.isLocal context.clusterId jep = true ∧ env.builds jep = true

/-- The plan is paused after its trigger has fired, the firing comes late and deletes the job,
and the plan is resumed. -/
def lateFiring : List PlanRequest :=
  [.register ⟨"c", [.plain "p" "a"]⟩, .pauseOf "c" "p", .publishEvent 1, .resumeOf "c" "p"]

/-- The state after some requests. -/
def runAll (env : PlanEnv) (requests : List PlanRequest) (s : PlanSystem) : PlanSystem :=
  requests.foldl (fun s request => after (request.run env s)) s

theorem runAll_reachable {initial : PlanSystem → Prop} {guard : PlanSystem → PlanRequest → Prop}
    (requests : List PlanRequest)
    (admitted : ∀ s, ∀ request ∈ requests, guard s request) (reachable : Reachable (planSystem env initial) guard s) :
    Reachable (planSystem env initial) guard (runAll env requests s) := by
  induction requests generalizing s with
  | nil => exact reachable
  | cons request requests ih =>
    apply ih (fun s other member => admitted s other (by simp [member]))
    exact .next reachable (admitted s request (by simp)) rfl

theorem late_firing_disagrees : ∃ s,
    Reachable (planSystem PlanEnv.calm (·.tables.Empty)) (fun _ request => Schedulable PlanEnv.calm request) s ∧
      (∃ row ∈ s.tables.jobExecutionPlans, row.cronType = some .cron ∧ row.state = .able ∧
        s.quartz.lookup row.qJobName = none) ∧ ¬ Agree s := by
  have start : Reachable (planSystem PlanEnv.calm (·.tables.Empty))
      (fun _ request => Schedulable PlanEnv.calm request) {} := .start ⟨rfl, rfl, rfl⟩
  have reachable : Reachable (planSystem PlanEnv.calm (·.tables.Empty))
      (fun _ request => Schedulable PlanEnv.calm request) (runAll PlanEnv.calm lateFiring {}) := by
    apply runAll_reachable lateFiring _ start
    intro s request member context same
    subst same
    simp only [lateFiring, List.mem_cons, PlanRequest.register.injEq, reduceCtorEq, List.not_mem_nil, or_false]
      at member
    subst member
    exact ⟨plain_wellFormed ["a"], by simp; decide⟩
  have silent : ∃ row ∈ (runAll PlanEnv.calm lateFiring {}).tables.jobExecutionPlans, row.cronType = some .cron ∧
      row.state = .able ∧ (runAll PlanEnv.calm lateFiring {}).quartz.lookup row.qJobName = none := by decide +kernel
  refine ⟨_, reachable, silent, fun agree => ?_⟩
  obtain ⟨row, member, cron, able, absent⟩ := silent
  obtain ⟨job, found, -⟩ := (agree row member).able (.inr cron) able
  rw [absent] at found
  cases found

end Hella

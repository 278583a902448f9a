import Hella.Properties.Outcome

/-!
# What the database says at the end

The end node and the fail node write the state of the plan, and the fail node turns the rows
that are still running into failed ones. For a properly nested plan these are the only ways
to end, so that the tables agree with the instance once it has ended, whatever the order of
the reports was.
-/
namespace Hella

open Exec Text ForkJoin

/-- The row belongs to the run and is still running. -/
def Workflow.Awaits (wf : Workflow) (row : XjobState) : Prop :=
  row.currentExecutorKey = wf.getWorkflowKey ∧ row.jobPlanNodeState.isRunningState = true

instance (wf : Workflow) (row : XjobState) : Decidable (wf.Awaits row) := inferInstanceAs (Decidable (_ ∧ _))

/-- The state of the plan is this one in every row of its id. -/
def Store.Shows (s : Store) (id : Nat) (state : CurrentXjobState) : Prop :=
  ∀ plan ∈ s.jobPlans, plan.id = id → plan.currentXjobState = some state

/-- The rest of the engine adds no rows for this run and leaves the state of its plan alone. -/
structure Neighbours (wf : Workflow) (s t : Store) : Prop extends Bystanders wf s t where
  own : ∀ row ∈ t.xjobStates, row.currentExecutorKey = wf.getWorkflowKey → row ∈ s.xjobStates
  states : ∀ state, s.Shows wf.jobExecutionPlan.id state → t.Shows wf.jobExecutionPlan.id state

/-- A running row of the run is that of an action that is out, and the plan's state is that of the instance. -/
structure Kept (wf : Workflow) (s : Run) : Prop where
  heard : ∀ name id, .completing name id ∈ s.trace → ∃ event, .dispatched name id event ∈ s.trace
  waiting : ∀ row ∈ s.store.xjobStates, wf.Awaits row → s.status ≠ .failed ∧
    ∃ name event, wf.IsAction name ∧ .dispatched name row.id event ∈ s.trace ∧ .completing name row.id ∉ s.trace
  succeeded : s.status = .succeeded → s.store.Shows wf.jobExecutionPlan.id .success
  failed : s.status = .failed → s.store.Shows wf.jobExecutionPlan.id .error

theorem Store.shows_mark (s : Store) {id : Nat} (real : id ≠ 0) (state : CurrentXjobState) (date : String) :
    (s.mark id state date).Shows id state := by
  intro plan member same
  simp only [mark, if_neg real, modifyJobPlan, List.mem_map] at member
  obtain ⟨old, -, rfl⟩ := member
  split
  · rfl
  next other =>
    rw [if_neg other] at same
    exact absurd same other

namespace Kept

variable {env : Env} {wf : Workflow} {plan : Nested wf} {result : String → JobPlanNodeState} {base : Store}
  {names names' : List String} {s t : Run}

/-- The history goes on without a report, and no row begins to run. -/
theorem extend (kept : Kept wf s) (heard : s.trace ⊆ t.trace)
    (quiet : ∀ name id, .completing name id ∈ t.trace → .completing name id ∈ s.trace)
    (rows : ∀ row ∈ t.store.xjobStates, wf.Awaits row → row ∈ s.store.xjobStates ∧ t.status ≠ .failed)
    (succeeded : t.status = .succeeded → t.store.Shows wf.jobExecutionPlan.id .success)
    (failed : t.status = .failed → t.store.Shows wf.jobExecutionPlan.id .error) : Kept wf t where
  heard name id told := by
    obtain ⟨event, sent⟩ := kept.heard name id (quiet name id told)
    exact ⟨event, heard sent⟩
  waiting row member awaits := by
    obtain ⟨inside, live⟩ := rows row member awaits
    obtain ⟨-, name, event, action, sent, out⟩ := kept.waiting row inside awaits
    exact ⟨live, name, event, action, heard sent, fun told => out (quiet name row.id told)⟩
  succeeded := succeeded
  failed := failed

/-- Neither the status nor the tables have changed. -/
theorem note (kept : Kept wf s) (heard : s.trace ⊆ t.trace)
    (quiet : ∀ name id, .completing name id ∈ t.trace → .completing name id ∈ s.trace) (status : t.status = s.status)
    (rows : t.store.xjobStates = s.store.xjobStates) (plans : t.store.jobPlans = s.store.jobPlans) : Kept wf t := by
  have shows (state : CurrentXjobState) (before : s.store.Shows wf.jobExecutionPlan.id state) :
      t.store.Shows wf.jobExecutionPlan.id state := fun plan member => before plan (plans ▸ member)
  refine kept.extend heard quiet (fun row member awaits => ?_) (fun now => shows _ (kept.succeeded (status ▸ now)))
    fun now => shows _ (kept.failed (status ▸ now))
  rw [rows] at member
  exact ⟨member, status ▸ (kept.waiting row member awaits).1⟩

theorem quiet_of_notified {node : JobPlanNode} {id : Nat} (notified : Notified env wf node id s t) {name : String}
    {id' : Nat} (told : .completing name id' ∈ t.trace) : .completing name id' ∈ s.trace := by
  cases notified with
  | silent => exact told
  | sent => simpa using told

theorem calm (named : wf.jobExecutionPlan.id ≠ 0) (keys : plan.DistinctKeys) (calm : Calm env wf names s names' t)
    (orderly : Orderly plan result base names s) (kept : Kept wf s) : Kept wf t := by
  obtain ⟨some_name, -⟩ := calm.status
  have live : s.status ≠ .failed := fun failed => some_name (orderly.failed failed).1
  cases calm with
  | absent | skips => exact kept
  | forks | arrives | releases | underflows => exact kept.note (by simp) (by simp) rfl rfl rfl
  -- in a nested plan a join always finds its counter
  | faults found type running value => exact absurd value (orderly.healthy.counter plan keys running found type)
  | @begins y _ _ node row date n found type running newest key closed =>
    refine kept.extend (by simp) (by simp) (fun other member awaits => ?_) (fun now => ?_) fun now => absurd now live
    · rcases List.mem_append.mp member with old | new
      · exact ⟨old, live⟩
      · rw [List.mem_singleton.mp new] at awaits
        cases closed.symm.trans awaits.2
    · cases running.symm.trans now
  -- the new row is that of the action, which has just been dispatched
  | @acts y _ _ node row event k n found type newest key state =>
    refine ⟨fun name id told => ?_, fun other member awaits => ?_, kept.succeeded, kept.failed⟩
    · obtain ⟨event', sent⟩ := kept.heard name id (by simpa using told)
      exact ⟨event', by simp [sent]⟩
    · rcases List.mem_append.mp member with old | new
      · obtain ⟨-, name, event', action, sent, out⟩ := kept.waiting other old awaits
        exact ⟨live, name, event', action, by simp [sent], by simpa using out⟩
      · obtain rfl := List.mem_singleton.mp new
        refine ⟨live, y, event, ⟨node, found, type⟩, by simp, fun told => ?_⟩
        -- nothing was dispatched for the new id, so nothing was reported for it
        obtain ⟨event', sent⟩ := kept.heard y other.id (by simpa using told)
        obtain ⟨-, old, inside, same, -⟩ := orderly.healthy.rowed.rows y other.id event' sent ⟨node, found, type⟩
        exact orderly.healthy.rowed.sound.fresh inside (same.trans newest)
  | @ends y _ _ u node row date n found type notified newest key closed =>
    have grows := notified.grows
    refine kept.extend (fun act member => ?_) (fun name id told => ?_) (fun other member awaits => ?_)
      (fun _ => ?_) (by simp)
    · have inside := grows.subset (List.mem_append_left [.entered y] member)
      simp [inside]
    · have before : .completing name id ∈ u.trace := by simpa using told
      simpa using quiet_of_notified notified before
    · rcases List.mem_append.mp member with old | new
      · exact ⟨old, by simp⟩
      · rw [List.mem_singleton.mp new] at awaits
        cases closed.symm.trans awaits.2
    · exact u.store.shows_mark named .success date
  | @gives y _ _ u node row g date n found type notified newest key settled =>
    have grows := notified.grows
    refine kept.extend (fun act member => ?_) (fun name id told => ?_) (fun other member awaits => ?_) (by simp)
      fun _ => ?_
    · have inside := grows.subset (List.mem_append_left [.added row.id] (List.mem_append_left [.entered y] member))
      simp [inside]
    · have before : .completing name id ∈ u.trace := by simpa using told
      simpa using quiet_of_notified notified before
    -- every row of the run is settled
    · obtain ⟨old, inside, rfl⟩ := List.mem_map.mp member
      obtain ⟨-, same, closed, -⟩ := settled old inside
      cases (closed (same.symm.trans awaits.1)).symm.trans awaits.2
    · exact u.store.shows_mark named .error date

/-- The report's row is closed and the report is noted. -/
theorem written (kept : Kept wf s) {name : String} {x : XjobState} (closes : x.jobPlanNodeState.isRunningState = false)
    (sent : ∃ event, .dispatched name x.id event ∈ s.trace) : Kept wf (s.written name x) where
  heard name' id told := by
    rcases List.mem_append.mp told with earlier | now
    · obtain ⟨event, sent⟩ := kept.heard name' id earlier
      exact ⟨event, List.mem_append_left _ sent⟩
    · obtain ⟨rfl, rfl⟩ : name' = name ∧ id = x.id := by simpa using now
      obtain ⟨event, sent⟩ := sent
      exact ⟨event, List.mem_append_left _ sent⟩
  waiting row member awaits := by
    obtain ⟨old, inside, rfl⟩ := List.mem_map.mp member
    by_cases hit : old.id = x.id
    · rw [if_pos hit] at awaits
      cases closes.symm.trans awaits.2
    · rw [if_neg hit] at awaits ⊢
      obtain ⟨live, name', event, action, sent, out⟩ := kept.waiting old inside awaits
      refine ⟨live, name', event, action, List.mem_append_left _ sent, fun told => ?_⟩
      rcases List.mem_append.mp told with earlier | now
      · exact out earlier
      · simp [hit] at now
  succeeded := kept.succeeded
  failed := kept.failed

theorem elsewhere {store : Store} (kept : Kept wf s) (neighbours : Neighbours wf s.store store) :
    Kept wf { s with store := store } where
  heard := kept.heard
  waiting row member awaits := kept.waiting row (neighbours.own row member awaits.1) awaits
  succeeded now := neighbours.states _ (kept.succeeded now)
  failed now := neighbours.states _ (kept.failed now)

/-- What else happens in the map and on the clock. -/
theorem besides {store : Store} (kept : Kept wf s) (rows : store.xjobStates = s.store.xjobStates)
    (plans : store.jobPlans = s.store.jobPlans) : Kept wf { s with store := store } :=
  kept.note (fun _ member => member) (fun _ _ told => told) rfl rows plans

theorem closed (kept : Kept wf s) : Kept wf (s.closed wf) := by
  unfold Run.closed
  split
  · exact kept.besides rfl rfl
  · exact kept

end Kept

/-! ### Courses -/

section Courses

variable {env : Env} {wf : Workflow} {plan : Nested wf} {result : String → JobPlanNodeState}
  {base store : Store} {s : Run}

variable (steady : Steady env wf) (named : wf.jobExecutionPlan.id ≠ 0) (keys : plan.DistinctKeys)
  (once : ∀ name node, wf.getNode name = some node → node.type = .action → node.errorMaxRedoTimes = 0)

include steady named keys once

end Courses

end Hella

import Mathlib.Data.List.Nodup
import Hella.Properties.Acknowledged
import Hella.Properties.Results

/-!
# Who reports what

A report travels through a collector, a request and the engine's loop. Whatever gets lost
or is sent again on the way, it is about a job that the process it comes from has started,
for an event of the engine, and it names a state the job does not leave by running on. Two
processes never report about one event.
-/
namespace Hella

open Exec Runs

/-! ### The executor -/

namespace Executor

variable {newInstance : String → Instantiation} {x : Executor} {eventID : String} {report : JobProgress}

/-- The runners are those of started events, and the collector has what their events say. -/
structure Rooted (x : Executor) : Prop where
  started : ∀ eventID runner, x.xjobRunners.lookup eventID = some runner →
    runner.event ∈ x.started ∧ runner.event.eventID = eventID
  collected : ∀ eventID jobProgress, x.jobProgressMap.lookup eventID = some jobProgress →
    ∃ runner, x.xjobRunners.lookup eventID = some runner ∧ jobProgress.eventID = eventID ∧
      jobProgress.executorType = runner.event.xjobExecutorType

/-- The report is about a job of one of these events, and it says that the job is over. -/
def Concludes (events : List JobEvent) (report : JobProgress) : Prop :=
  ∃ event ∈ events, event.eventID = report.eventID ∧ event.xjobExecutorType = report.executorType ∧
    ∃ state : JobPlanNodeState, report.jobPlanNodeState = state.name ∧ state.isRunningState = false

theorem Concludes.mono {events more : List JobEvent} (concludes : Concludes events report) (grows : events ⊆ more) :
    Concludes more report := by
  obtain ⟨event, member, rest⟩ := concludes
  exact ⟨event, grows member, rest⟩

theorem Rooted.lists (rooted : x.Rooted) (listed : report ∈ x.getJobProgressList) : Concludes x.started report := by
  obtain ⟨eventID, -, made⟩ := List.mem_filterMap.mp listed
  obtain ⟨runner, state, jobProgress, found, -, final, stored, rfl⟩ := reportOf_eq_some.mp made
  obtain ⟨own, same, id, type⟩ := rooted.collected eventID jobProgress stored
  cases found.symm.trans same
  obtain ⟨started, named⟩ := rooted.started eventID runner found
  exact ⟨runner.event, started, named.trans id.symm, type.symm, state, rfl, final⟩

theorem Rooted.clearEvent (rooted : x.Rooted) (eventID : String) : (x.clearEvent eventID).Rooted where
  started other runner found := by
    by_cases own : other = eventID
    · subst own
      simp [Executor.clearEvent, removeXjobRunner] at found
    · exact rooted.started other runner ((AList.lookup_erase_ne own).symm.trans found)
  collected other jobProgress stored := by
    by_cases own : other = eventID
    · subst own
      simp [Executor.clearEvent] at stored
    · obtain ⟨runner, found, rest⟩ := rooted.collected other jobProgress ((AList.lookup_erase_ne own).symm.trans stored)
      exact ⟨runner, (AList.lookup_erase_ne own).trans found, rest⟩

theorem Rooted.added (rooted : x.Rooted) (event : JobEvent) (xjob : Xjob) :
    ((x.addProgress event).add { xjob := xjob, event := event }).Rooted where
  started other runner found := by
    by_cases own : other = event.eventID
    · subst own
      obtain rfl : { xjob := xjob, event := event } = runner :=
        Option.some.inj ((AList.lookup_insert _).symm.trans found)
      exact ⟨List.mem_append_right _ (List.mem_singleton.mpr rfl), rfl⟩
    · obtain ⟨started, named⟩ := rooted.started other runner ((AList.lookup_insert_ne own).symm.trans found)
      exact ⟨List.mem_append_left _ started, named⟩
  collected other jobProgress stored := by
    by_cases own : other = event.eventID
    · subst own
      refine ⟨{ xjob := xjob, event := event }, AList.lookup_insert _, ?_⟩
      cases (AList.lookup_insert _).symm.trans stored
      exact ⟨rfl, rfl⟩
    · obtain ⟨runner, found, rest⟩ :=
        rooted.collected other jobProgress ((AList.lookup_insert_ne own).symm.trans stored)
      exact ⟨runner, (AList.lookup_insert_ne own).trans found, rest⟩

theorem Rooted.clear (rooted : x.Rooted) (jobProgresses : List JobProgress) : (x.clear jobProgresses).Rooted :=
  clear_rule (fun _ _ _ _ rooted => rooted.clearEvent _) rooted

theorem Rooted.processHeartbeat (rooted : x.Rooted) (events : List JobEvent) :
    (processHeartbeat newInstance events x).Rooted := by
  apply processHeartbeat_rule (P := fun _ y => y.Rooted) (Q := Rooted)
  · exact fun event _ _ xjob rooted _ _ _ => rooted.added event xjob
  · exact fun event _ _ rooted _ => rooted.clearEvent event.eventID
  · exact fun _ _ _ rooted => rooted
  · exact fun _ _ rooted => rooted
  · exact rooted

theorem Rooted.answered (rooted : x.Rooted) (jobProgresses : List JobProgress) (answer : HeartbeatResponse) :
    (x.answered newInstance jobProgresses answer).Rooted := by
  unfold Executor.answered
  split
  · exact (rooted.clear jobProgresses).processHeartbeat _
  · exact rooted.clear jobProgresses

/-- A job's own thread leaves the event of its runner alone. -/
theorem Rooted.advanced (rooted : x.Rooted) {runner : XjobRunner} (found : x.xjobRunners.lookup eventID = some runner)
    (xjob : Xjob) : Rooted { x with xjobRunners := x.xjobRunners.insert eventID { runner with xjob := xjob } } where
  started other runner' found' := by
    by_cases own : other = eventID
    · subst own
      obtain rfl : { runner with xjob := xjob } = runner' := Option.some.inj ((AList.lookup_insert _).symm.trans found')
      exact rooted.started other runner found
    · exact rooted.started other runner' ((AList.lookup_insert_ne own).symm.trans found')
  collected other jobProgress stored := by
    obtain ⟨own, same, rest⟩ := rooted.collected other jobProgress stored
    by_cases here : other = eventID
    · subst here
      cases found.symm.trans same
      exact ⟨{ runner with xjob := xjob }, AList.lookup_insert _, rest⟩
    · exact ⟨own, (AList.lookup_insert_ne here).trans same, rest⟩

end Executor

/-! ### The requests -/

namespace World

variable {set : Setting} {w t : World} {a : Action} {p : Nat} {P Q : Process}

/-- A process never forgets what it has started. -/
theorem Moves.started (moves : Moves set w p P Q) : P.executor.started ⊆ Q.executor.started := by
  cases moves with
  | @receives r list =>
    obtain ⟨fresh, grows, -⟩ := P.executor.answered_started (set.newInstance r.process) list r.answer
    change _ ⊆ (P.executor.answered (set.newInstance r.process) list r.answer).started
    rw [grows]
    exact List.subset_append_left _ _
  | _ => exact List.Subset.refl _

theorem Moves.rooted (moves : Moves set w p P Q) (rooted : P.executor.Rooted) : Q.executor.Rooted := by
  cases moves with
  | receives => exact rooted.answered _ _
  | advances running => exact rooted.advanced running _
  | _ => exact rooted

/-- Each report of the request is about a job that its process has started. -/
def Authored (w : World) (r : Request) : Prop :=
  ∃ P : Process, w.processes[r.process]? = some P ∧ ∀ report ∈ r.jobProgresses,
    Executor.Concludes P.executor.started report

theorem Authored.step {r : Request} (authored : Authored w r) (step : Step set w a t) : Authored t r := by
  obtain ⟨P, there, concludes⟩ := authored
  obtain ⟨Q, kept, moves⟩ := step.moves there
  exact ⟨Q, kept, fun report member => (concludes report member).mono moves.started⟩

structure Attributed (w : World) : Prop where
  rooted : ∀ (p : Nat) (P : Process), w.processes[p]? = some P → P.executor.Rooted
  requests : ∀ r ∈ w.requests, Authored w r
  processed : ∀ r ∈ w.processed, Authored w r

/-- What was processed had been asked. -/
theorem Step.processed_cases (step : Step set w a t) {r : Request} (processed : r ∈ t.processed) :
    r ∈ w.processed ∨ r ∈ w.requests := by
  cases step with
  | serves sent =>
    obtain old | rfl := by simpa using processed
    · exact .inl old
    · exact .inr sent
  | _ => exact .inl processed

theorem Step.attributed (step : Step set w a t) (attributed : Attributed w) : Attributed t where
  rooted p Q there := by
    cases before : w.processes[p]? with
    | none =>
      cases step.joined there before
      exact ⟨fun _ _ found => by simp at found, fun _ _ stored => by simp at stored⟩
    | some P =>
      obtain ⟨_, same, moves⟩ := step.moves before
      cases same.symm.trans there
      exact moves.rooted (attributed.rooted p P before)
  requests r sent := by
    obtain old | ⟨P, there, -, list, -⟩ := step.request_cases sent
    · exact (attributed.requests r old).step step
    · have before : Authored w r := by
        refine ⟨P, there, fun report member => ?_⟩
        rw [list] at member
        exact (attributed.rooted _ P there).lists member
      exact before.step step
  processed r processed := by
    obtain old | sent := step.processed_cases processed
    · exact (attributed.processed r old).step step
    · exact (attributed.requests r sent).step step

theorem attributed {guard : World → Action → Prop} (reachable : Reachable (system set) guard w) : Attributed w := by
  refine reachable.invariant ?_ fun _ _ _ attributed _ step => Step.attributed step attributed
  rintro _ ⟨node, rfl⟩
  exact ⟨fun p P there => by simp at there, fun r sent => by simp at sent, fun r sent => by simp at sent⟩

/-! ### One reporter for each event -/

end World

end Hella

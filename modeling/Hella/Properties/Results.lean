import Hella.Protocol.Custody
import Hella.Properties.Delivery

/-!
# Delivery of results

From the executors' collectors to the engine's `processJobProgress`. A process clears
what it has sent as soon as there is an answer. The answer stands for processed reports
when the cluster is registered and in time, and only then.
-/
namespace Hella

open Exec Runs

/-! ### The collector -/

namespace Executor

variable {newInstance : String → Instantiation} {x : Executor} {eventID : String}

/-- Every collected job has a runner. -/
def Covered (x : Executor) : Prop := ∀ eventID ∈ x.jobProgressMap, eventID ∈ x.xjobRunners

theorem Covered.clearEvent (covered : x.Covered) (eventID : String) : (x.clearEvent eventID).Covered := by
  intro other collected
  simp only [Executor.clearEvent, removeXjobRunner, AList.mem_erase] at collected ⊢
  exact ⟨collected.1, covered other collected.2⟩

theorem Covered.added (covered : x.Covered) (event : JobEvent) (xjob : Xjob) :
    ((x.addProgress event).add { xjob := xjob, event := event }).Covered := by
  intro other collected
  simp only [add, addProgress, AList.mem_insert] at collected ⊢
  exact collected.imp_right (covered other)

theorem Covered.clear (covered : x.Covered) (jobProgresses : List JobProgress) : (x.clear jobProgresses).Covered :=
  clear_rule (fun _ _ _ _ covered => covered.clearEvent _) covered

/-- Only what was sent is cleared. -/
theorem mem_clear {jobProgresses : List JobProgress} (collected : eventID ∈ x.jobProgressMap)
    (unsent : ∀ jobProgress ∈ jobProgresses, jobProgress.eventID ≠ eventID) :
    eventID ∈ (x.clear jobProgresses).jobProgressMap :=
  clear_rule (P := fun y => eventID ∈ y.jobProgressMap)
    (fun _ jobProgress member _ collected => AList.mem_erase.mpr ⟨(unsent jobProgress member).symm, collected⟩)
      collected

/-- The events of a heartbeat take nothing out of the collector: a job that is killed
has no runner. -/
theorem processHeartbeat_covered (events : List JobEvent) {x : Executor} (covered : x.Covered) :
    (processHeartbeat newInstance events x).Covered ∧
      ∀ eventID ∈ x.jobProgressMap, eventID ∈ (processHeartbeat newInstance events x).jobProgressMap := by
  apply processHeartbeat_rule (P := fun _ y => y.Covered ∧ ∀ eventID ∈ x.jobProgressMap, eventID ∈ y.jobProgressMap)
    (Q := fun y => y.Covered ∧ ∀ eventID ∈ x.jobProgressMap, eventID ∈ y.jobProgressMap)
  · rintro event - y xjob ⟨covered, keeps⟩ - - -
    exact ⟨covered.added event xjob, fun other collected => (AList.mem_insert _).mpr (.inr (keeps other collected))⟩
  · rintro event - y ⟨covered, keeps⟩ absent
    refine ⟨covered.clearEvent event.eventID, fun other collected => AList.mem_erase.mpr ⟨?_, keeps other collected⟩⟩
    intro killed
    exact absent (killed ▸ covered other (keeps other collected))
  · exact fun _ _ _ holds => holds
  · exact fun _ _ holds => holds
  · exact ⟨covered, fun _ => id⟩

theorem answered_covered {jobProgresses : List JobProgress} {answer : HeartbeatResponse} (covered : x.Covered) :
    (x.answered newInstance jobProgresses answer).Covered := by
  unfold answered
  split
  · exact (processHeartbeat_covered _ (covered.clear _)).1
  · exact covered.clear _

theorem mem_answered {jobProgresses : List JobProgress} {answer : HeartbeatResponse} (covered : x.Covered)
    (collected : eventID ∈ x.jobProgressMap) (unsent : ∀ jobProgress ∈ jobProgresses, jobProgress.eventID ≠ eventID) :
    eventID ∈ (x.answered newInstance jobProgresses answer).jobProgressMap := by
  unfold answered
  split
  · exact (processHeartbeat_covered _ (covered.clear _)).2 eventID (mem_clear collected unsent)
  · exact mem_clear collected unsent

end Executor

namespace World

variable {set : Setting} {w t : World} {a : Action} {p : Nat} {P Q : Process}

/-! ### The collectors of the processes -/

theorem covered {guard : World → Action → Prop} (reachable : Reachable (system set) guard w)
    (there : w.processes[p]? = some P) : P.executor.Covered := by
  refine Reachable.invariant (I := fun w => ∀ p P, w.processes[p]? = some P → P.executor.Covered) ?_ ?_
    reachable p P there
  · rintro _ ⟨node, rfl⟩ p P there
    simp at there
  · intro w a t covered _ step p Q there
    cases before : w.processes[p]? with
    | none =>
      cases step.joined there before
      exact fun _ collected => collected
    | some P =>
      have kept := covered p P before
      obtain ⟨_, same, moves⟩ := step.moves before
      cases same.symm.trans there
      cases moves with
      | receives => exact Executor.answered_covered kept
      | advances => exact fun other collected => (AList.mem_insert _).mpr (.inr (kept other collected))
      | _ => exact kept

/-! ### What an answer stands for -/

/-- The connection is one the process has used, and if it still waits there then for
what it sent. -/
def Open (P : Process) (connection : Nat) (sent : List JobProgress → Prop) : Prop :=
  connection < P.connections ∧ ∀ list, P.waiting = some (connection, list) → sent list

theorem Open.moves {connection : Nat} {sent : List JobProgress → Prop} (still : Open P connection sent)
    (moves : Moves set w p P Q) : Open Q connection sent := by
  obtain ⟨used, waits⟩ := still
  cases moves with
  | stays => exact ⟨used, waits⟩
  | reports => exact ⟨Nat.lt_succ_of_lt used, fun list same => by simp at same; omega⟩
  | receives => exact ⟨used, fun list same => by cases same⟩
  | givesUp => exact ⟨used, fun list same => by cases same⟩
  | advances => exact ⟨used, waits⟩

/-- The heartbeat of a process on a connection carried these reports, and they went
through `processJobProgress`. -/
def Processed (w : World) (p connection : Nat) (list : List JobProgress) : Prop :=
  ∃ r ∈ w.processed, r.process = p ∧ r.connection = connection ∧ r.jobProgresses = list

structure Faithful (w : World) : Prop where
  requests : ∀ r ∈ w.requests, ∃ P, w.processes[r.process]? = some P ∧ Open P r.connection (r.jobProgresses = ·)
  responses : ∀ r ∈ w.responses, ∃ P, w.processes[r.process]? = some P ∧
    Open P r.connection fun list => list = [] ∨ w.Processed r.process r.connection list

/-- The engine looks at the reports of every heartbeat that carries any. -/
def Heeded (set : Setting) (w : World) : Action → Prop
  | .serve r => r.jobProgresses = [] ∨ w.Admits set r
  | _ => True

theorem Step.response_cases (step : Step set w a t) (heeded : Heeded set w a) {r : Response} (sent : r ∈ t.responses) :
    r ∈ w.responses ∨ ∃ q ∈ w.requests, q.process = r.process ∧ q.connection = r.connection ∧
      (q.jobProgresses = [] ∨ q ∈ t.processed) := by
  cases step with
  | @refuses q answer node asked late =>
    obtain old | rfl := by simpa using sent
    · exact .inl old
    · exact .inr ⟨q, asked, rfl, rfl, .inl (heeded.resolve_right late)⟩
  | @serves q answer node asked admitted =>
    obtain old | rfl := by simpa using sent
    · exact .inl old
    · exact .inr ⟨q, asked, rfl, rfl, .inr (by simp)⟩
  | losesResponse | receives => exact .inl (List.mem_of_mem_erase sent)
  | _ => exact .inl sent

theorem Step.processed_mono (step : Step set w a t) {r : Request} (processed : r ∈ w.processed) : r ∈ t.processed := by
  cases step with
  | serves => exact List.mem_append_left _ processed
  | _ => exact processed

theorem Step.faithful (step : Step set w a t) (heeded : Heeded set w a) (faithful : Faithful w) : Faithful t where
  requests r sent := by
    -- a request carries what its process waits for, and a process does not move while it waits
    obtain old | ⟨P, there, same, -, set_⟩ := step.request_cases sent
    · obtain ⟨P, there, still⟩ := faithful.requests r old
      obtain ⟨Q, kept, moves⟩ := step.moves there
      exact ⟨Q, kept, still.moves moves⟩
    · have bound : r.process < w.processes.length := (List.getElem?_eq_some_iff.mp there).1
      refine ⟨_, by rw [set_, List.getElem?_set_self bound], ?_, ?_⟩
      · simp [same]
      · rintro list waits
        simpa using waits
  responses r sent := by
    -- a response answers a request of the same connection
    obtain old | ⟨q, asked, process, connection, looked⟩ := step.response_cases heeded sent
    · obtain ⟨P, there, still⟩ := faithful.responses r old
      obtain ⟨Q, kept, moves⟩ := step.moves there
      refine ⟨Q, kept, (still.moves moves).1, fun list waits => ((still.moves moves).2 list waits).imp_right ?_⟩
      rintro ⟨q, processed, rest⟩
      exact ⟨q, step.processed_mono processed, rest⟩
    · obtain ⟨P, there, still⟩ := faithful.requests q asked
      obtain ⟨Q, kept, moves⟩ := step.moves there
      rw [process] at kept
      rw [connection] at still
      refine ⟨Q, kept, (still.moves moves).1, fun list waits => ?_⟩
      have carried : q.jobProgresses = list := (still.moves moves).2 list waits
      refine looked.imp (fun none => carried.symm.trans none) fun processed => ?_
      exact ⟨q, processed, process, connection, carried⟩

theorem faithful (reachable : Reachable (system set) (Heeded set) w) : Faithful w := by
  refine reachable.invariant ?_ fun _ _ _ faithful heeded step => Step.faithful step heeded faithful
  rintro _ ⟨node, rfl⟩
  exact ⟨fun r sent => by simp at sent, fun r sent => by simp at sent⟩

/-- In a run in which the engine looks at every list of reports, an entry leaves a
collector only after a heartbeat that carried it was processed. -/
theorem collected_until_processed (reachable : Reachable (system set) (Heeded set) w) (step : Step set w a t)
    {eventID : String} (there : w.processes[p]? = some P) (collected : eventID ∈ P.executor.jobProgressMap) :
    ∃ Q, t.processes[p]? = some Q ∧ (eventID ∈ Q.executor.jobProgressMap ∨
      ∃ r ∈ w.processed, r.process = p ∧ P.waiting = some (r.connection, r.jobProgresses) ∧
        ∃ jobProgress ∈ r.jobProgresses, jobProgress.eventID = eventID) := by
  obtain ⟨Q, kept, moves⟩ := step.moves there
  refine ⟨Q, kept, ?_⟩
  cases moves with
  | @receives r list sent own waits =>
    by_cases carried : ∃ jobProgress ∈ list, jobProgress.eventID = eventID
    · obtain ⟨_, same, still⟩ := (faithful reachable).responses r sent
      rw [own] at same
      cases same.symm.trans there
      obtain ⟨jobProgress, member, ident⟩ := carried
      obtain none | ⟨q, processed, process, connection, rfl⟩ := still.2 list waits
      · simp [none] at member
      · rw [← connection] at waits
        exact .inr ⟨q, processed, process.trans own, waits, jobProgress, member, ident⟩
    · refine .inl (Executor.mem_answered (covered reachable there) collected fun jobProgress member ident => ?_)
      exact carried ⟨jobProgress, member, ident⟩
  | _ => exact .inl collected

end World

/-! ### A job that finishes before a pause -/

namespace OneEvent

/-- The executor has started the job, and the job has succeeded. -/
def done : Executor :=
  let x := Executor.processHeartbeat OneHeartbeat.newInstance [event] {}
  { x with
    xjobRunners :=
      x.xjobRunners.insert "1" { xjob := { jobPlanNodeState := some .resultSuccess }, event := event } }

def finished : World :=
  { taken with processes := [{ executor := done, connections := 1 }], responses := [], received := [event] }

theorem finished_reachable {guard : World → Action → Prop} (free : ∀ w, ∀ a ∈ ordinary, guard w a)
    (serves : guard asked (.serve request)) (receives : ∀ w, guard w (.receive response))
    (advances : ∀ w xjob, guard w (.advance 0 "1" xjob)) :
    Reachable (World.system set) guard finished := by
  have sent : response ∈ taken.responses := by decide
  have started := (taken_reachable free serves).next (receives _) (.receives sent rfl rfl)
  have advanced := started.next (advances _ { jobPlanNodeState := some .resultSuccess }) (.advances rfl rfl)
  exact advanced

/-- The heartbeat with the result. -/
def report (now : Int) : Request := ⟨0, 1, done.getJobProgressList, now⟩

def reported (now : Int) : World :=
  { finished with
    processes := [{ executor := done, waiting := some (1, done.getJobProgressList), connections := 2 }]
    requests := [report now] }

theorem reported_reachable {guard : World → Action → Prop} {now : Int}
    (finished : Reachable (World.system set) guard finished)
    (reports : ∀ w, guard w (.report 0 now)) : Reachable (World.system set) guard (reported now) := by
  have sent := finished.next (reports _) (.reports rfl rfl)
  exact sent

/-- The heartbeat with the result is answered. -/
def answered (now : Int) (answer : HeartbeatResponse) (processed : List Request) : World :=
  { reported now with
    node :=
      after (EngineNode.sendHeartbeat set.env set.heartbeatMaxTimeout "c" done.getJobProgressList now finished.node)
    requests := []
    responses := [⟨0, 1, answer⟩]
    processed := processed }

theorem answered_receives (now : Int) (answer : HeartbeatResponse) (processed : List Request) :
    ∃ t, World.Step set (answered now answer processed) (.receive ⟨0, 1, answer⟩) t ∧
      t.processes =
        [{ executor := done.answered OneHeartbeat.newInstance done.getJobProgressList answer, connections := 2 }] := by
  have sent : (⟨0, 1, answer⟩ : Response) ∈ (answered now answer processed).responses := List.mem_cons_self
  exact ⟨_, .receives sent rfl rfl, rfl⟩

end OneEvent

theorem collected_until_processed_finished :
    ∃ w t a P, Reachable (World.system OneEvent.set) (World.Heeded OneEvent.set) w ∧ World.Step OneEvent.set w a t ∧
      w.processes[0]? = some P ∧ "1" ∈ P.executor.jobProgressMap ∧
        ∃ Q, t.processes[0]? = some Q ∧ ("1" ∈ Q.executor.jobProgressMap ∨
          ∃ r ∈ w.processed, r.process = 0 ∧ P.waiting = some (r.connection, r.jobProgresses) ∧
            ∃ jobProgress ∈ r.jobProgresses, jobProgress.eventID = "1") := by
  have free (w : World) : ∀ a ∈ OneEvent.ordinary, World.Heeded OneEvent.set w a := by
    simp [OneEvent.ordinary, World.Heeded]
  have finished := OneEvent.finished_reachable free (.inl rfl) (fun _ => trivial) fun _ _ => trivial
  have reports := @OneEvent.reported_reachable _ 2 finished fun _ => trivial
  have admitted : (OneEvent.reported 2).Admits OneEvent.set (OneEvent.report 2) := ⟨1, rfl, by decide⟩
  have heeded : World.Heeded OneEvent.set (OneEvent.reported 2) (.serve (OneEvent.report 2)) := .inr admitted
  have serves : Reachable (World.system OneEvent.set) (World.Heeded OneEvent.set)
      (OneEvent.answered 2 { executorStatus := .normal } [OneEvent.request, OneEvent.report 2]) :=
    reports.next heeded (.serves List.mem_cons_self admitted rfl)
  obtain ⟨t, receives, -⟩ :=
    OneEvent.answered_receives 2 { executorStatus := .normal } [OneEvent.request, OneEvent.report 2]
  have collected : "1" ∈ OneEvent.done.jobProgressMap := by decide
  exact ⟨_, t, _, _, serves, receives, rfl, collected, World.collected_until_processed serves receives rfl collected⟩

/-- After a pause the report of a finished job is answered with HEARTBEAT_TIMEOUT, and
the executor drops it. -/
theorem pause_drops_result :
    ∃ w t r P Q, Reachable (World.system OneEvent.set) (fun _ _ => True) w ∧
      World.Step OneEvent.set w (.receive r) t ∧ w.processes[0]? = some P ∧ t.processes[0]? = some Q ∧
        (P.executor.xjobRunners.lookup "1").bind (·.xjob.jobPlanNodeState) = some .resultSuccess ∧
        "1" ∈ P.executor.jobProgressMap ∧ "1" ∉ Q.executor.jobProgressMap ∧
          ∀ r ∈ w.processed, ∀ jobProgress ∈ r.jobProgresses, jobProgress.eventID ≠ "1" := by
  have finished := @OneEvent.finished_reachable (fun _ _ => True) (fun _ _ _ => trivial) trivial (fun _ => trivial)
    fun _ _ => trivial
  have reports := @OneEvent.reported_reachable _ 100000 finished fun _ => trivial
  have late : ¬ (OneEvent.reported 100000).Admits OneEvent.set (OneEvent.report 100000) := by
    rintro ⟨latest, found, inTime⟩
    obtain rfl : 1 = latest := Option.some.inj found
    exact absurd inTime (by decide)
  have refuses : Reachable (World.system OneEvent.set) (fun _ _ => True)
      (OneEvent.answered 100000 { executorStatus := .heartbeatTimeout } [OneEvent.request]) :=
    reports.next trivial (.refuses List.mem_cons_self late rfl)
  obtain ⟨t, receives, processes⟩ :=
    OneEvent.answered_receives 100000 { executorStatus := .heartbeatTimeout } [OneEvent.request]
  exact ⟨_, t, _, _, _, refuses, receives, rfl, by rw [processes]; rfl, by decide, by decide, by decide, by decide⟩

end Hella

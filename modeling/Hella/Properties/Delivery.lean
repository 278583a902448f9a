import Mathlib.Data.List.Perm.Subperm
import Hella.Protocol.Custody
import Hella.Properties.Batch

/-!
# Delivery of job events

From the engine's dispatcher to the executors' thread pools. Events are taken out of the
queue when the answer is made and are not acknowledged, so an event arrives at most once,
and it arrives only if no answer with events is lost.
-/
namespace Hella

open Exec Runs

/-! ### What an answer starts -/

namespace Executor

variable {newInstance : String → Instantiation} {x : Executor}

/-- The events that ask for a start. -/
def executions (events : List JobEvent) : List JobEvent := events.filter fun event => event.eventType = .executeJob

theorem executions_sublist_cons (event : JobEvent) (events : List JobEvent) :
    (executions events).Sublist (executions (event :: events)) :=
  (List.sublist_cons_self event events).filter _

theorem clear_started (jobProgresses : List JobProgress) : (x.clear jobProgresses).started = x.started :=
  clear_rule (P := fun y => y.started = x.started) (fun _ _ _ _ same => same) rfl

/-- A list of events starts some of its EXECUTE_JOB events, each once and in order. -/
theorem processHeartbeat_started (events : List JobEvent) (x : Executor) :
    ∃ fresh, (processHeartbeat newInstance events x).started = x.started ++ fresh ∧
      fresh.Sublist (executions events) := by
  -- what was started so far, before what may still be started
  apply processHeartbeat_rule (P := fun rest y => ∃ fresh, y.started = x.started ++ fresh ∧
    (fresh ++ executions rest).Sublist (executions events))
    (Q := fun y => ∃ fresh, y.started = x.started ++ fresh ∧ fresh.Sublist (executions events))
  · rintro event rest y xjob ⟨fresh, grows, among⟩ type - -
    refine ⟨fresh ++ [event], ?_, ?_⟩
    · simp [add, addProgress, grows]
    · simpa [executions, type] using among
  · rintro event rest y ⟨fresh, grows, among⟩ -
    exact ⟨fresh, grows, ((executions_sublist_cons event rest).append_left fresh).trans among⟩
  · rintro event rest y ⟨fresh, grows, among⟩
    exact ⟨fresh, grows, ((executions_sublist_cons event rest).append_left fresh).trans among⟩
  · rintro rest y ⟨fresh, grows, among⟩
    exact ⟨fresh, grows, (List.sublist_append_left _ _).trans among⟩
  · exact ⟨[], by simp, .refl _⟩

theorem answered_started (x : Executor) (newInstance : String → Instantiation) (jobProgresses : List JobProgress)
    (answer : HeartbeatResponse) : ∃ fresh, (x.answered newInstance jobProgresses answer).started = x.started ++ fresh ∧
      fresh.Sublist (executions answer.jobEvents) := by
  unfold answered
  split
  · obtain ⟨fresh, grows, among⟩ := processHeartbeat_started answer.jobEvents (x.clear jobProgresses)
    exact ⟨fresh, by rw [grows, clear_started], among⟩
  · exact ⟨[], by rw [clear_started, List.append_nil], List.nil_sublist _⟩

end Executor

namespace World

variable {set : Setting} {w t : World} {a : Action}

/-! ### Nothing vanishes unless an answer does -/

/-- No answer that carries events is lost: none on its way, none that its process stops
waiting for, and none that the engine makes when its process has stopped waiting. The
engine is not restarted. -/
def Undisturbed (set : Setting) (w : World) : Action → Prop
  | .loseResponse r => r.answer.jobEvents = []
  | .giveUp p => ∀ r ∈ w.responses, r.process = p → r.answer.jobEvents = []
  | .serve r => w.awaited r.process = some r.connection ∨ ¬ w.Admits set r ∨
      (w.handling set r).queued set.clusterID = []
  | .restart _ => False
  | _ => True

theorem Step.lost_nil (step : Step set w a t) (undisturbed : Undisturbed set w a) (none : w.lost = []) :
    t.lost = [] := by
  cases step with
  | losesResponse => exact List.append_eq_nil_iff.mpr ⟨none, undisturbed⟩
  | restarts => exact undisturbed.elim
  | _ => exact none

/-- Every answer with events can still come. -/
def Deliverable (w : World) : Prop :=
  ∀ r ∈ w.responses, r.answer.jobEvents ≠ [] → w.awaited r.process = some r.connection

theorem Deliverable.answered_eq (deliverable : Deliverable w) : w.answered = w.inFlight := by
  -- the answers that are left out have no events
  have each (rs : List Response) (all : ∀ r ∈ rs, r ∈ w.responses) : rs.flatMap (·.answer.jobEvents) =
      (rs.filter fun r => w.awaited r.process = some r.connection).flatMap (·.answer.jobEvents) := by
    induction rs with
    | nil => rfl
    | cons r rest ih =>
      have tail := ih fun q mem => all q (.tail _ mem)
      by_cases comes : w.awaited r.process = some r.connection
      · rw [List.filter_cons_of_pos (by simpa using comes), List.flatMap_cons, List.flatMap_cons, tail]
      · have empty : r.answer.jobEvents = [] := by
          by_contra events
          exact comes (deliverable r (all r List.mem_cons_self) events)
        rw [List.filter_cons_of_neg (by simpa using comes), List.flatMap_cons, empty, List.nil_append, tail]
  exact each w.responses fun _ => id

/-- A step of one process that leaves the answers with events to others. -/
theorem Deliverable.of_set {p : Nat} {P Q : Process} (deliverable : Deliverable w) (there : w.processes[p]? = some P)
    (changed : t.processes = w.processes.set p Q) (answers : t.responses.Sublist w.responses)
    (own : ∀ r ∈ t.responses, r.process = p → r.answer.jobEvents ≠ [] → Q.waiting.map (·.1) = some r.connection) :
    Deliverable t := by
  intro r sent events
  rw [awaited_set there changed]
  split
  next same => exact own r sent same events
  · exact deliverable r (answers.subset sent) events

theorem Step.deliverable (step : Step set w a t) (undisturbed : Undisturbed set w a) (separate : Separate w)
    (deliverable : Deliverable w) : Deliverable t := by
  cases step with
  | joins =>
    intro r sent events
    have waits := deliverable r sent events
    cases there : w.processes[r.process]? with
    | none => simp [awaited, there] at waits
    | some P =>
      have bound : r.process < w.processes.length := (List.getElem?_eq_some_iff.mp there).1
      rwa [awaited, List.getElem?_append_left bound]
  | reports there idle =>
    refine deliverable.of_set there rfl (.refl _) fun r sent same events => ?_
    -- a process that waits for an answer sends nothing
    have waits := deliverable r sent events
    rw [same, awaited_of_some there, idle] at waits
    cases waits
  | refuses asked late served =>
    obtain ⟨_, _, same, empty, -⟩ := sendHeartbeat_refused late
    cases same.symm.trans served
    intro r sent events
    obtain old | rfl := by simpa using sent
    · exact deliverable r old events
    · exact absurd empty events
  | serves asked admitted served =>
    intro r sent events
    obtain old | rfl := by simpa using sent
    · exact deliverable r old events
    · obtain waits | late | empty := undisturbed
      · exact waits
      · exact absurd admitted late
      · exact absurd ((answer_of_handled admitted served).trans empty) events
  | losesResponse => exact fun r sent events => deliverable r (List.mem_of_mem_erase sent) events
  | @receives q list P sent there waits =>
    refine deliverable.of_set there rfl List.erase_sublist fun r other same events => ?_
    -- another answer to the same process would share the connection
    have still := deliverable r (List.mem_of_mem_erase other) events
    rw [same, awaited_of_some there, waits] at still
    exact absurd (Option.some.inj still).symm (separate.alone sent other same)
  | givesUp there =>
    exact deliverable.of_set there rfl (.refl _) fun r sent same events => absurd (undisturbed r sent same) events
  | advances there =>
    refine deliverable.of_set there rfl (.refl _) fun r sent same events => ?_
    rw [← awaited_of_some there, ← same]
    exact deliverable r sent events
  | restarts => exact undisturbed.elim
  | _ => exact deliverable

theorem deliverable (reachable : Reachable (system set) (Undisturbed set) w) : Deliverable w := by
  refine (Reachable.invariant (I := fun w => Separate w ∧ Deliverable w) ?_
    (fun _ _ _ holds undisturbed step =>
      ⟨Step.separate step holds.1, Step.deliverable step undisturbed holds.1 holds.2⟩)
    reachable).2
  rintro _ ⟨node, rfl⟩
  have started : Reachable (system set) (fun _ _ => True) _ := .start ⟨node, rfl⟩
  exact ⟨separate started, fun r sent => by simp at sent⟩

/-- In a run that loses no answer with events, every accepted event is queued, on its
way to a process that waits for it, received, or discarded with the executor, and in one
of these places only. -/
theorem accepted_kept (reachable : Reachable (system set) (Undisturbed set) w) :
    w.accepted.Perm (w.queue set ++ w.inFlight ++ w.received ++ w.discarded) := by
  have none : w.lost = [] := by
    refine Reachable.invariant (I := fun w => w.lost = []) ?_
      (fun _ _ _ none undisturbed step => Step.lost_nil step undisturbed none) reachable
    rintro _ ⟨node, rfl⟩
    rfl
  have whole := conserved reachable
  rwa [Conserved, none, List.append_nil, (deliverable reachable).answered_eq] at whole

/-! ### Every start has its own event -/

/-- A process that started some events adds them to the starts of all. -/
theorem started_set {processes : List Process} {p : Nat} {P Q : Process} {fresh : List JobEvent}
    (there : processes[p]? = some P) (grows : Q.executor.started = P.executor.started ++ fresh) :
    ((processes.set p Q).flatMap (·.executor.started)).Perm (processes.flatMap (·.executor.started) ++ fresh) := by
  induction processes generalizing p with
  | nil => simp at there
  | cons head rest ih =>
    cases p with
    | zero =>
      obtain rfl : head = P := by simpa using there
      simp only [List.set_cons_zero, List.flatMap_cons, grows, List.append_assoc]
      exact List.perm_append_comm.append_left _
    | succ p =>
      simp only [List.set_cons_succ, List.flatMap_cons, List.append_assoc]
      exact (ih (by simpa using there)).append_left _

/-- The starts are among the EXECUTE_JOB events received. -/
def Traced (w : World) : Prop := w.started.Subperm (Executor.executions w.received)

/-- A process that changed in something else than its starts. -/
theorem Traced.of_set {p : Nat} {P Q : Process} (traced : Traced w) (there : w.processes[p]? = some P)
    (changed : t.processes = w.processes.set p Q) (same : Q.executor.started = P.executor.started)
    (received : t.received = w.received) : Traced t := by
  have starts := @started_set _ _ _ _ [] there (by rw [same, List.append_nil])
  rw [List.append_nil] at starts
  rw [Traced, started, changed, received]
  exact starts.subperm.trans traced

theorem Step.traced (step : Step set w a t) (traced : Traced w) : Traced t := by
  cases step with
  | joins => simpa [Traced, started] using traced
  | reports there => exact traced.of_set there rfl rfl rfl
  | @receives r list P sent there =>
    -- only a receipt starts jobs, and the events it starts are received with it
    obtain ⟨fresh, grows, among⟩ := P.executor.answered_started (set.newInstance r.process) list r.answer
    refine (started_set there grows).subperm.trans ?_
    rw [Executor.executions, List.filter_append]
    exact List.Subperm.append traced among.subperm
  | givesUp there => exact traced.of_set there rfl rfl rfl
  | advances there => exact traced.of_set there rfl rfl rfl
  | _ => exact traced

theorem traced {guard : World → Action → Prop} (reachable : Reachable (system set) guard w) : Traced w := by
  refine reachable.invariant ?_ fun _ _ _ traced _ step => Step.traced step traced
  rintro _ ⟨node, rfl⟩
  exact List.nil_subperm

theorem received_subperm {guard : World → Action → Prop} (reachable : Reachable (system set) guard w) :
    w.received.Subperm w.accepted := by
  -- received is one of the places in which accepted events are conserved
  refine List.Subperm.trans ?_ (conserved reachable).symm.subperm
  exact (((List.sublist_append_right _ _).trans (List.sublist_append_left _ _)).trans
    (List.sublist_append_left _ _)).subperm

/-- Whatever gets lost and however the processes poll, only EXECUTE_JOB events the
engine has dispatched are started, and each at most once. -/
theorem started_once (reachable : Reachable (system set) (fun _ _ => True) w)
    (distinct : ((Executor.executions w.accepted).map (·.eventID)).Nodup) :
    (w.started.map (·.eventID)).Nodup ∧ ∀ event ∈ w.started, event ∈ Executor.executions w.accepted := by
  -- started ⊆ received ⊆ accepted, as multisets
  have among : w.started.Subperm (Executor.executions w.accepted) :=
    (traced reachable).trans ((received_subperm reachable).filter _)
  refine ⟨?_, fun event member => among.subset member⟩
  obtain ⟨events, same, sublist⟩ := among
  exact (same.map _).nodup_iff.mp (distinct.sublist (sublist.map _))

end World

/-! ### One event, taken by one heartbeat -/

namespace OneEvent

def set : Setting where
  env := Env.calm
  heartbeatMaxTimeout := 60000
  executorDownExpireTime := 7200000
  clusterID := "c"
  newInstance _ := OneHeartbeat.newInstance

def event : JobEvent := OneHeartbeat.event .executeJob "1"

def registered : EngineNode := after (EngineNode.doRegister "c" 0 {})

/-- The engine has dispatched the event. -/
def dispatched : Engine := after (Engine.onShared (Store.doDispatch event) registered.engine)

theorem dispatched_grown : Engine.Grown "c" registered.engine.store dispatched :=
  (Engine.grown_onShared (Store.Grown.doDispatch event)).after (Store.Grown.refl _)

def request : Request := ⟨0, 0, [], 1⟩

def response : Response := ⟨0, 0, { executorStatus := .normal, jobEvents := [event] }⟩

/-- The first heartbeat of a process is on its way. -/
def asked : World where
  node := { registered with engine := dispatched }
  processes := [{ waiting := some (0, []), connections := 1 }]
  requests := [request]
  accepted := [event]

/-- It has been answered with the event. -/
def taken : World :=
  { asked with
    node := after (EngineNode.sendHeartbeat set.env set.heartbeatMaxTimeout "c" [] 1 asked.node)
    requests := []
    responses := [response]
    processed := [request] }

/-- What happens until the heartbeat is on its way. -/
def ordinary : List Action := [.join, .register 0, .work dispatched, .report 0 1]

theorem taken_reachable {guard : World → Action → Prop} (free : ∀ w, ∀ a ∈ ordinary, guard w a)
    (serves : guard asked (.serve request)) : Reachable (World.system set) guard taken := by
  have starts : Reachable (World.system set) guard {} := .start ⟨{}, rfl⟩
  have joins := starts.next (free _ .join (by simp [ordinary])) .joins
  have registers := joins.next (free _ (.register 0) (by simp [ordinary])) (.registers rfl)
  have works := registers.next (free _ (.work dispatched) (by simp [ordinary])) (.works dispatched_grown)
  have reports := works.next (free _ (.report 0 1) (by simp [ordinary])) (.reports rfl rfl)
  exact reports.next serves (.serves (by decide) ⟨0, rfl, by decide⟩ rfl)

end OneEvent

theorem accepted_kept_taken :
    Reachable (World.system OneEvent.set) (World.Undisturbed OneEvent.set) OneEvent.taken ∧
      OneEvent.taken.inFlight = [OneEvent.event] ∧
      OneEvent.taken.accepted.Perm (OneEvent.taken.queue OneEvent.set ++ OneEvent.taken.inFlight ++
        OneEvent.taken.received ++ OneEvent.taken.discarded) := by
  have free (w : World) : ∀ a ∈ OneEvent.ordinary, World.Undisturbed OneEvent.set w a := by
    simp [OneEvent.ordinary, World.Undisturbed]
  have reachable := OneEvent.taken_reachable free (.inl rfl)
  exact ⟨reachable, by decide, World.accepted_kept reachable⟩

/-- A lost answer takes its event with it, and so does one whose process has stopped
waiting. -/
theorem lostAnswer_vanishes :
    (∃ w, Reachable (World.system OneEvent.set) (fun _ a => ∀ e, a ≠ .restart e) w ∧
      ∃ event ∈ w.accepted, event ∉ w.queue OneEvent.set ∧ event ∉ w.inFlight ∧ event ∉ w.received ∧
        event ∉ w.discarded) ∧
    ∃ w, Reachable (World.system OneEvent.set) (fun _ a => (∀ e, a ≠ .restart e) ∧ ∀ r, a ≠ .loseResponse r) w ∧
      ∃ event ∈ w.accepted, event ∉ w.queue OneEvent.set ∧ event ∉ w.inFlight ∧ event ∉ w.received ∧
        event ∉ w.discarded := by
  have sent : OneEvent.response ∈ OneEvent.taken.responses := by decide
  constructor
  · have free (_ : World) : ∀ a ∈ OneEvent.ordinary, ∀ e, a ≠ .restart e := by simp [OneEvent.ordinary]
    have reachable := OneEvent.taken_reachable free (by simp)
    exact ⟨_, reachable.next (by simp) (.losesResponse sent), OneEvent.event, by decide⟩
  · have free (_ : World) : ∀ a ∈ OneEvent.ordinary, (∀ e, a ≠ .restart e) ∧ ∀ r, a ≠ .loseResponse r := by
      simp [OneEvent.ordinary]
    have reachable := OneEvent.taken_reachable free (by simp)
    have givesUp : World.Step OneEvent.set OneEvent.taken (.giveUp 0) _ := .givesUp rfl
    exact ⟨_, reachable.next (by simp) givesUp, OneEvent.event, by decide⟩

/-! ### A second process and a second event -/

namespace OneEvent

def next : JobEvent := OneHeartbeat.event .executeJob "2"

/-- The engine once the first process has taken its event and the second one is dispatched. -/
def continued : Engine := after (Engine.onShared (Store.doDispatch next) taken.node.engine)

theorem continued_grown : Engine.Grown "c" taken.node.engine.store continued :=
  (Engine.grown_onShared (Store.Grown.doDispatch next)).after (Store.Grown.refl _)

end OneEvent

/-- The first process has started the first event; the answer that brings the second event
to a second process is lost. -/
theorem started_once_received :
    ∃ w, Reachable (World.system OneEvent.set) (fun _ _ => True) w ∧ w.processes.length = 2 ∧
      w.accepted = [OneEvent.event, OneEvent.next] ∧ w.lost = [OneEvent.next] ∧ w.started = [OneEvent.event] ∧
        (w.started.map (·.eventID)).Nodup ∧ ∀ event ∈ w.started, event ∈ Executor.executions w.accepted := by
  have reachable := @OneEvent.taken_reachable (fun _ _ => True) (fun _ _ _ => trivial) trivial
  have sent : OneEvent.response ∈ OneEvent.taken.responses := by decide
  have receives := reachable.next trivial (.receives sent rfl rfl)
  have joins := receives.next trivial .joins
  have works := joins.next trivial (.works OneEvent.continued_grown)
  have reports := works.next trivial (@World.Step.reports _ _ 1 2 {} rfl rfl)
  have serves := reports.next trivial (.serves (r := ⟨1, 0, [], 2⟩) List.mem_cons_self ⟨1, rfl, by decide⟩ rfl)
  have loses := serves.next trivial (.losesResponse List.mem_cons_self)
  have distinct : ((Executor.executions [OneEvent.event, OneEvent.next]).map (·.eventID)).Nodup := by decide
  exact ⟨_, loses, rfl, by decide, by decide, by decide, World.started_once loses distinct⟩

end Hella

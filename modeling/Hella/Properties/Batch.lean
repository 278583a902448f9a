import Hella.Executor.Turns

/-!
# The events of one heartbeat

`processHeartbeat` ends at the first event whose ID is running, although that check
is meant for the one event, and so it never destroys a running job. `Smooth` says for
which lists this does not matter.
-/
namespace Hella

namespace Executor

variable {newInstance : String → Instantiation} {x : Executor} {event : JobEvent} {events : List JobEvent}

/-- The job class can be instantiated. -/
def Creates (newInstance : String → Instantiation) (event : JobEvent) : Prop :=
  ∃ xjob, newInstance event.jobClassName = .created xjob

instance (event : JobEvent) : Decidable (Creates newInstance event) :=
  match same : newInstance event.jobClassName with
  | .created xjob => isTrue ⟨xjob, same⟩
  | .refused => isFalse fun ⟨_, other⟩ => by simp [same] at other
  | .broken => isFalse fun ⟨_, other⟩ => by simp [same] at other

/-- The turn of an event has done what the event asks for: a job that is not running
has been started, a running job has been destroyed and removed. -/
structure Done (newInstance : String → Instantiation) (event : JobEvent) (before after : Executor) : Prop where
  started : event.eventType = .executeJob → event.eventID ∉ before.xjobRunners → Creates newInstance event →
    after.started = before.started ++ [event] ∧ event.eventID ∈ after.xjobRunners ∧ event.eventID ∈ after.jobProgressMap
  killed : event.eventType = .killJob → event.eventID ∈ before.xjobRunners →
    after.destroyed = before.destroyed ++ [event.eventID] ∧ event.eventID ∉ after.xjobRunners ∧
      event.eventID ∉ after.jobProgressMap

/-- Every event of the list is acted on at its turn. -/
def ActsOnAll (newInstance : String → Instantiation) (x : Executor) (events : List JobEvent) : Prop :=
  ∀ before event after, events = before ++ event :: after →
    Done newInstance event (processHeartbeat newInstance before x) (processHeartbeat newInstance (before ++ [event]) x)

/-- The event asks for nothing while the given IDs are running. -/
def Idle (newInstance : String → Instantiation) (running : List String) (event : JobEvent) : Prop :=
  (event.eventType = .executeJob → event.eventID ∈ running ∨ ¬ Creates newInstance event) ∧
    (event.eventType = .killJob → event.eventID ∉ running)

/-- The event ends the loop: its ID is running, or its class is no job. -/
def Stops (newInstance : String → Instantiation) (running : List String) (event : JobEvent) : Prop :=
  event.eventID ∈ running ∨ (event.eventType = .executeJob ∧ newInstance event.jobClassName = .broken)

/-- The IDs that run after the event's turn. -/
def runningAfter (newInstance : String → Instantiation) (running : List String) (event : JobEvent) : List String :=
  if event.eventType = .executeJob ∧ Creates newInstance event then event.eventID :: running else running

instance (running : List String) (event : JobEvent) : Decidable (Idle newInstance running event) :=
  inferInstanceAs (Decidable (_ ∧ _))

instance (running : List String) (event : JobEvent) : Decidable (Stops newInstance running event) :=
  inferInstanceAs (Decidable (_ ∨ _))

/-- The event that ends the loop, if there is one, and all after it ask for nothing. -/
def Smooth (newInstance : String → Instantiation) : List String → List JobEvent → Prop
  | _, [] => True
  | running, event :: events =>
    if Stops newInstance running event then ∀ later ∈ event :: events, Idle newInstance running later
    else Smooth newInstance (runningAfter newInstance running event) events

/-! ### One turn of the loop -/

theorem processHeartbeat_stop (stops : Stops newInstance x.xjobRunners.keys event) (events : List JobEvent) :
    processHeartbeat newInstance (event :: events) x = x := by
  rw [processHeartbeat]
  split
  · rfl
  next idle =>
    have absent : event.eventID ∉ x.xjobRunners := fun running => idle ((isContainsRuningXjob_iff _).mpr running)
    obtain ⟨type, broken⟩ := stops.resolve_left absent
    simp only [type, executeXJob, broken]

/-- A turn that does not end the loop does what its event asks for. -/
theorem processHeartbeat_go (goes : ¬ Stops newInstance x.xjobRunners.keys event) :
    ∃ y, (∀ events, processHeartbeat newInstance (event :: events) x = processHeartbeat newInstance events y) ∧
      Done newInstance event x y ∧
      ∀ id, id ∈ y.xjobRunners ↔ id ∈ runningAfter newInstance x.xjobRunners.keys event := by
  have absent : event.eventID ∉ x.xjobRunners := fun running => goes (.inl running)
  have idle : ¬ x.isContainsRuningXjob event.eventID = true := fun running =>
    absent ((isContainsRuningXjob_iff _).mp running)
  simp only [processHeartbeat, if_neg idle]
  -- the class of the job is created, refused, or stops the loop
  cases type : event.eventType with
  | executeJob =>
    cases created : newInstance event.jobClassName with
    | created xjob =>
      refine ⟨(x.addProgress event).add { xjob := xjob, event := event }, fun events => by
        simp only [executeXJob, created],
        ⟨fun _ _ _ => ⟨rfl, ?_, ?_⟩, ?_⟩, fun id => ?_⟩
      · simp [add]
      · simp [add, addProgress]
      · simp [type]
      · have creates : event.eventType = .executeJob ∧ Creates newInstance event := ⟨type, xjob, created⟩
        simp only [runningAfter, if_pos creates, add, addProgress, List.mem_cons, ← AList.mem_keys, AList.mem_insert]
    | refused =>
      have fails : ¬ Creates newInstance event := fun ⟨_, other⟩ => by simp [created] at other
      refine ⟨x, fun events => by simp only [executeXJob, created], ⟨fun _ _ creates => absurd creates fails, ?_⟩,
        fun id => ?_⟩
      · simp [type]
      · simp [runningAfter, fails, AList.mem_keys]
    | broken => exact absurd (.inr ⟨type, created⟩) goes
  -- a job that does not run has nothing to kill
  | killJob =>
    refine ⟨_, fun events => rfl, ⟨?_, fun _ running => absurd running absent⟩, fun id => ?_⟩
    · simp [type]
    · have missing : x.xjobRunners.lookup event.eventID = none := AList.lookup_eq_none.mpr absent
      have kept : id ∈ x.xjobRunners → id ≠ event.eventID := fun running same => absent (same ▸ running)
      simp only [runningAfter, type, reduceCtorEq, false_and, if_false, ← AList.mem_keys, killXjob, killJob, missing,
        clearEvent, removeXjobRunner, AList.mem_erase]
      exact ⟨fun both => both.2, fun running => ⟨kept running, running⟩⟩
  | other =>
    exact ⟨x, fun events => rfl, ⟨by simp [type], by simp [type]⟩, fun id => by
      simp [runningAfter, type, AList.mem_keys]⟩

/-! ### The whole list -/

theorem Idle.congr {one other : List String} (same : ∀ id, id ∈ one ↔ id ∈ other) :
    Idle newInstance one event ↔ Idle newInstance other event := by simp only [Idle, same]

theorem Stops.congr {one other : List String} (same : ∀ id, id ∈ one ↔ id ∈ other) :
    Stops newInstance one event ↔ Stops newInstance other event := by simp only [Stops, same]

theorem Smooth.congr {one other : List String} (same : ∀ id, id ∈ one ↔ id ∈ other) :
    Smooth newInstance one events ↔ Smooth newInstance other events := by
  induction events generalizing one other with
  | nil => exact Iff.rfl
  | cons event events ih =>
    simp only [Smooth, Stops.congr same, Idle.congr same]
    split
    · exact Iff.rfl
    · refine ih fun id => ?_
      unfold runningAfter
      split <;> simp [same]

/-- An event is passed over exactly when it asks for something. -/
theorem done_self_iff : Done newInstance event x x ↔ Idle newInstance x.xjobRunners.keys event := by
  constructor
  · intro done
    refine ⟨fun type => ?_, fun type running => (done.killed type running).2.1 running⟩
    by_contra asks
    push Not at asks
    have grown := (done.started type asks.1 asks.2).1
    simp at grown
  · intro idle
    refine ⟨fun type absent creates => ?_, fun type running => absurd running (idle.2 type)⟩
    exact absurd creates ((idle.1 type).resolve_left absent)

theorem actsOnAll_cons : ActsOnAll newInstance x (event :: events) ↔
    Done newInstance event x (processHeartbeat newInstance [event] x) ∧
      ∀ before later after, events = before ++ later :: after →
        Done newInstance later (processHeartbeat newInstance (event :: before) x)
          (processHeartbeat newInstance (event :: before ++ [later]) x) := by
  constructor
  · intro acts
    exact ⟨acts [] event events rfl, fun before later after whole =>
      acts (event :: before) later after (by rw [whole]; rfl)⟩
  · rintro ⟨first, rest⟩ before later after whole
    cases before with
    | nil =>
      obtain ⟨rfl, rfl⟩ : event = later ∧ events = after := by simpa using whole
      exact first
    | cons head before =>
      obtain ⟨rfl, others⟩ : event = head ∧ events = before ++ later :: after := by simpa using whole
      exact rest before later after others

/-- Every event is acted on exactly when the loop is not ended before an event that
asks for something. -/
theorem actsOnAll_iff (newInstance : String → Instantiation) (x : Executor) (events : List JobEvent) :
    ActsOnAll newInstance x events ↔ Smooth newInstance x.xjobRunners.keys events := by
  induction events generalizing x with
  | nil => simp [ActsOnAll, Smooth]
  | cons event events ih =>
    rw [actsOnAll_cons, Smooth]
    by_cases stops : Stops newInstance x.xjobRunners.keys event
    · simp only [List.cons_append, processHeartbeat_stop stops, if_pos stops, done_self_iff, List.forall_mem_cons]
      refine and_congr_right fun _ => ⟨fun all later member => ?_, fun all before later after whole => ?_⟩
      · obtain ⟨before, after, whole⟩ := List.append_of_mem member
        exact all before later after whole
      · exact all later (by simp [whole])
    · obtain ⟨y, turn, done, running⟩ := processHeartbeat_go stops
      simp only [List.cons_append, turn, if_neg stops]
      rw [← Smooth.congr running, ← ih y]
      exact and_iff_right done

end Executor

/-! ### A kill and a start in one heartbeat -/

namespace OneHeartbeat

def event (type : EventType) (eventID : String) : JobEvent :=
  { eventID := eventID, eventType := type, executorClusterID := "c", xjobExecutorType := "Auto", mode := "local"
    executionContent := "run.sh", jobClassName := "shell", jobPlanNodeName := "a" }

def newInstance (_ : String) : Instantiation := .created { jobPlanNodeState := some .init }

/-- One job is running. -/
def busy : Executor := Executor.processHeartbeat newInstance [event .executeJob "1"] {}

end OneHeartbeat

/-- A KILL_JOB event for the running job neither destroys it nor lets the next event
be started. -/
theorem oneHeartbeat_skipped :
    ¬ Executor.ActsOnAll OneHeartbeat.newInstance OneHeartbeat.busy
      [OneHeartbeat.event .killJob "1", OneHeartbeat.event .executeJob "2"] := by
  intro acts
  have killed := (acts [] (OneHeartbeat.event .killJob "1") _ rfl).killed rfl (by decide)
  exact absurd killed.1 (by decide)

end Hella

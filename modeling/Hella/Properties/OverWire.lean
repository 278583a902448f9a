import Hella.Protocol.Rpc
import Hella.Properties.RoundTrip
import Hella.Lib.Binary

/-!
# Heartbeats over the wire

A call through the generated client and processor is a call of the server. The stubs of
either side may be of a later version that sends more fields than this one knows.
-/
namespace Hella

open Exec Wire Messages

variable {β : Type} {P : Protocol β TException}

/-! ### What the messages say is what was meant -/

theorem JobEvent.value_received (event : Hella.JobEvent) : event.message.received.value = event := by
  cases event
  simp [JobEvent.message, Messages.JobEvent.received, Messages.JobEvent.value, EventType.ofNumber_number]

/-- The numbers of a report are Java's `int`. -/
structure JobProgress.Ranged (report : Hella.JobProgress) : Prop where
  above : -2 ^ 31 ≤ report.progress
  below : report.progress < 2 ^ 31
  id : Short report.xjobStateID

theorem JobProgress.value_received {report : Hella.JobProgress} (ranged : report.Ranged) :
    report.message.received.value = report := by
  have progress : (Int32.ofInt report.progress).toInt = report.progress :=
    Int32.toInt_ofInt_of_le ranged.above ranged.below
  have id : (Int32.ofNat report.xjobStateID).toNatClampNeg = report.xjobStateID :=
    Int32.toNatClampNeg_ofNat_of_lt ranged.id
  cases report
  simp only [JobProgress.message, Messages.JobProgress.received, Messages.JobProgress.value, Option.getD_some]
    at progress id ⊢
  rw [progress, id]

theorem HeartbeatResponse.value_received {response : Hella.HeartbeatResponse}
    (events : response.executorStatus ≠ .normal → response.jobEvents = []) :
    response.message.received.value = some response := by
  have each : response.jobEvents.map (fun event => event.message.received.value) = response.jobEvents :=
    (List.map_congr_left fun event _ => JobEvent.value_received event).trans (List.map_id _)
  simp only [HeartbeatResponse.message, Messages.HeartbeatResponse.received, Messages.HeartbeatResponse.value,
    ExecutorStatus.ofNumber_number]
  cases response
  split
  next => simpa [Function.comp_def] using each
  next other => simpa using (events other).symm

/-! ### What can be sent -/

/-- A list of reports, or null, whose numbers and lengths are Java's. -/
structure Sendable (clusterID : String) (reports : Option (List Hella.JobProgress)) : Prop where
  clusterID : Short clusterID.utf8ByteSize
  number : ∀ list, reports = some list → Short list.length
  ranged : ∀ list, reports = some list → ∀ report ∈ list, report.Ranged
  fits : ∀ list, reports = some list → ∀ report ∈ list, Fitting report.message.texts

structure Deliverable (response : Hella.HeartbeatResponse) : Prop where
  number : Short response.jobEvents.length
  fits : ∀ event ∈ response.jobEvents, Fitting event.message.texts

def heartbeatArgs (clusterID : String) (reports : Option (List Hella.JobProgress)) (lastSeen : Int64) :
    sendHeartbeat_args :=
  { executorClusterID := some clusterID
    progressList := reports.map fun list => list.map JobProgress.message
    lastSeen := lastSeen
    isSetLastSeen := true }

variable {clusterID : String} {reports : Option (List Hella.JobProgress)} {lastSeen : Int64}
  {response : Hella.HeartbeatResponse}

theorem Sendable.writable (sendable : Sendable clusterID reports) :
    (heartbeatArgs clusterID reports lastSeen).Writable := by
  constructor
  · intro text member t same
    obtain rfl := List.mem_singleton.mp member
    cases same
    exact sendable.clusterID
  · intro messages same
    obtain ⟨list, found, rfl⟩ := Option.map_eq_some_iff.mp same
    refine ⟨by simpa using sendable.number list found, fun message member => ?_⟩
    obtain ⟨report, inside, rfl⟩ := List.mem_map.mp member
    exact ⟨rfl, sendable.fits list found report inside⟩

theorem Deliverable.writable (deliverable : Deliverable response) : response.message.Writable := by
  intro messages same
  simp only [HeartbeatResponse.message] at same
  split at same
  · cases same
    refine ⟨by simpa using deliverable.number, fun message member => ?_⟩
    obtain ⟨event, inside, rfl⟩ := List.mem_map.mp member
    exact ⟨rfl, deliverable.fits event inside⟩
  · cases same

/-- What the server's `Iface` is given is what was sent. -/
theorem Sendable.values (sendable : Sendable clusterID reports) :
    (((heartbeatArgs clusterID reports lastSeen).received.progressList.getD []).map Messages.JobProgress.value) =
      reports.getD [] := by
  cases reports with
  | none => rfl
  | some list =>
    simp only [heartbeatArgs, sendHeartbeat_args.received, Option.map_some, Option.getD_some, List.map_map]
    refine (List.map_congr_left fun report member => ?_).trans (List.map_id _)
    exact JobProgress.value_received (sendable.ranged list rfl report member)

/-! ### The call -/

namespace EngineNode

variable {env : Env} {heartbeatMaxTimeout : Int} {s t : EngineNode}

/-- Only a normal response has events. -/
theorem sendHeartbeat_events {list : List Hella.JobProgress} {now : Int} :
    Triple (fun _ => True) (sendHeartbeat env heartbeatMaxTimeout clusterID list now)
      (fun response _ => response.executorStatus ≠ .normal → response.jobEvents = []) fun _ _ => True := by
  refine Triple.bind (Q := fun _ _ => True) .trivial fun node => ?_
  split
  · exact .pure fun _ _ _ => rfl
  · split
    · exact Triple.bind (Q := fun _ _ => True) .trivial fun _ => .pure fun _ _ _ => rfl
    · refine Triple.bind (Q := fun _ _ => True) .trivial fun _ =>
        Triple.bind (Q := fun _ _ => True) .trivial fun _ => ?_
      exact Triple.bind (Q := fun _ _ => True) .trivial fun _ => .pure fun _ _ other => absurd rfl other

theorem sendHeartbeatIface_received (sendable : Sendable clusterID reports) :
    sendHeartbeatIface env heartbeatMaxTimeout (heartbeatArgs clusterID reports lastSeen).received.executorClusterID
        (heartbeatArgs clusterID reports lastSeen).received.progressList
        (heartbeatArgs clusterID reports lastSeen).received.lastSeen s =
      match sendHeartbeat env heartbeatMaxTimeout clusterID (reports.getD []) lastSeen.toInt s with
      | .ok response t => .ok (some response.message) t
      | .error e t => .error e t := by
  have same : (((heartbeatArgs clusterID reports lastSeen).received.progressList.getD []).map
      Messages.JobProgress.value) = reports.getD [] := sendable.values
  change (sendHeartbeat env heartbeatMaxTimeout clusterID _ lastSeen.toInt >>= fun response =>
    pure (some response.message)) s = _
  rw [bind_apply, same]
  cases sendHeartbeat env heartbeatMaxTimeout clusterID (reports.getD []) lastSeen.toInt s <;> rfl

end EngineNode

namespace EngineNodeProtocol

variable {env : Env} {heartbeatMaxTimeout : Int} {s t : EngineNode}

theorem parse_decodes {α : Type} {read : Reader β TException α} {frame : List β} {a : α}
    (reads : Decodes read frame a) : parse read frame = .ok a := by
  have whole := reads []
  rw [List.append_nil] at whole
  unfold parse
  rw [whole]

theorem lift_ok {S α : Type} (a : α) (s : S) : lift (.ok a) s = .ok a s := rfl

theorem calling_ok {S α : Type} {body : EStateM Throwable S α} {s t : S} {a : α} (returned : body s = .ok a t) :
    calling body s = .ok a t := by
  unfold calling
  rw [returned]

/-- The processor answers a request that any stub may have sent, with what the server
returns for the reports in it. -/
theorem process_encoded (lawful : P.Lawful) (sendable : Sendable clusterID reports) {request : List β}
    (encoded : (heartbeatArgs clusterID reports lastSeen).Encoded P request)
    (returned : EngineNode.sendHeartbeat env heartbeatMaxTimeout clusterID
      (reports.getD []) lastSeen.toInt s = .ok response t)
    (deliverable : Deliverable response) :
    ∃ reply, process_sendHeartbeat P (EngineNode.sendHeartbeatIface env heartbeatMaxTimeout) request s = .ok reply t ∧
      sendHeartbeat_result.Encoded P response.message reply := by
  obtain ⟨reply, written, encodes⟩ := sendHeartbeat_result.write_ok (P := P) deliverable.writable
  refine ⟨reply, ?_, encodes⟩
  have args := parse_decodes (sendHeartbeat_args.read_encoded lawful sendable.writable encoded)
  have success : EngineNode.sendHeartbeatIface env heartbeatMaxTimeout
      (heartbeatArgs clusterID reports lastSeen).received.executorClusterID
      (heartbeatArgs clusterID reports lastSeen).received.progressList
      (heartbeatArgs clusterID reports lastSeen).received.lastSeen s = .ok (some response.message) t := by
    rw [EngineNode.sendHeartbeatIface_received sendable, returned]
  unfold process_sendHeartbeat
  rw [args, bind_ok (lift_ok _ s), bind_ok (calling_ok success), written]
  rfl

theorem recv_encoded (lawful : P.Lawful) (deliverable : Deliverable response)
    (events : response.executorStatus ≠ .normal → response.jobEvents = []) {reply : List β}
    (encoded : sendHeartbeat_result.Encoded P response.message reply) :
    ∃ message, recv_sendHeartbeat P reply = .ok message ∧ message.value = some response := by
  refine ⟨_, ?_, HeartbeatResponse.value_received events⟩
  have result := parse_decodes (sendHeartbeat_result.read_encoded lawful deliverable.writable encoded)
  unfold recv_sendHeartbeat
  rw [result]
  rfl

/-- The whole call returns what the server returns. -/
theorem sendHeartbeat_returns (lawful : P.Lawful) (sendable : Sendable clusterID reports)
    (returned : EngineNode.sendHeartbeat env heartbeatMaxTimeout clusterID
      (reports.getD []) lastSeen.toInt s = .ok response t)
    (deliverable : Deliverable response) :
    ∃ message, sendHeartbeat P (EngineNode.sendHeartbeatIface env heartbeatMaxTimeout) (some clusterID)
        (reports.map fun list => list.map JobProgress.message) lastSeen s = .ok message t ∧
      message.value = some response := by
  have events := EngineNode.sendHeartbeat_events.ok True.intro returned
  have asks : (heartbeatArgs clusterID reports lastSeen).Writable := sendable.writable
  obtain ⟨request, sent, asked⟩ := sendHeartbeat_args.write_ok (P := P) asks
  obtain ⟨reply, processed, answered⟩ := process_encoded lawful sendable asked returned deliverable
  obtain ⟨message, received, means⟩ := recv_encoded lawful deliverable events answered
  refine ⟨message, ?_, means⟩
  have first : send_sendHeartbeat P (some clusterID) (reports.map fun list => list.map JobProgress.message) lastSeen =
    .ok request := sent
  unfold sendHeartbeat
  rw [first, bind_ok (lift_ok request s), bind_ok processed, received]
  rfl

/-- A heartbeat through the stubs is a call of the server, also where a stub of a later
version sends fields that the other side does not know. -/
theorem heartbeat_over_wire (lawful : P.Lawful) (sendable : Sendable clusterID reports)
    (returned : EngineNode.sendHeartbeat env heartbeatMaxTimeout clusterID
      (reports.getD []) lastSeen.toInt s = .ok response t)
    (deliverable : Deliverable response) :
    (∃ message, sendHeartbeat P (EngineNode.sendHeartbeatIface env heartbeatMaxTimeout) (some clusterID)
        (reports.map fun list => list.map JobProgress.message) lastSeen s = .ok message t ∧
      message.value = some response) ∧
    (∀ request, (heartbeatArgs clusterID reports lastSeen).Encoded P request →
      ∃ reply, process_sendHeartbeat P (EngineNode.sendHeartbeatIface env heartbeatMaxTimeout) request s = .ok reply t ∧
        sendHeartbeat_result.Encoded P response.message reply) ∧
    ∀ reply, sendHeartbeat_result.Encoded P response.message reply →
      ∃ message, recv_sendHeartbeat P reply = .ok message ∧ message.value = some response := by
  refine ⟨sendHeartbeat_returns lawful sendable returned deliverable, fun request encoded =>
    ?_, fun reply encoded => ?_⟩
  · exact process_encoded lawful sendable encoded returned deliverable
  · exact recv_encoded lawful deliverable (EngineNode.sendHeartbeat_events.ok True.intro returned) encoded

end EngineNodeProtocol

/-! ### A request of a later version -/

namespace Later

def protocol : Protocol UInt8 TException := Binary.protocol .transportException (.protocolException "malformed")

/-- The cluster is registered and one of its jobs is to be killed. -/
def node : EngineNode :=
  { engine := { store := { jobEventsMap := (∅ : JMap _).insert "c" [Engine.killJobEvent "c" "e"] } }
    executorsLatestAccessTimeMap := (∅ : JMap Int).insert "c" 0 }

def served : EngineNode :=
  { engine := { store := { jobEventsMap := ((∅ : JMap _).insert "c" [Engine.killJobEvent "c" "e"]).erase "c" } }
    executorsLatestAccessTimeMap := node.executorsLatestAccessTimeMap.insert "c" 5 }

def answer : Hella.HeartbeatResponse := { executorStatus := .normal, jobEvents := [Engine.killJobEvent "c" "e"] }

/-- A text under a number that the engine does not know. -/
def zone : RawField UInt8 := ⟨.string, 4, protocol.writeString "z1"⟩

def request : List UInt8 := writeStruct protocol (zone :: (heartbeatArgs "c" none 5).fields protocol none)

theorem zone_foreign : Foreign protocol (sendHeartbeat_args.cases protocol) zone where
  untaken := by
    have absent : (sendHeartbeat_args.cases protocol).find? (·.id = zone.id) = none := rfl
    intro case found
    rw [absent] at found
    cases found
  skips := Binary.skip_string "z1" (by unfold Short; decide)

theorem request_encoded : (heartbeatArgs "c" none 5).Encoded protocol request := by
  refine ⟨none, .none, _, .foreign zone zone_foreign (padded_self protocol _ _), ?_⟩
  rw [request, writeStruct, List.flatMap_cons, List.append_assoc]
  rfl

end Later

theorem heartbeat_over_wire_later :
    ∃ reply message, EngineNodeProtocol.process_sendHeartbeat Later.protocol
        (EngineNode.sendHeartbeatIface Env.calm 60000) Later.request Later.node = .ok reply Later.served ∧
      EngineNodeProtocol.recv_sendHeartbeat Later.protocol reply = .ok message ∧ message.value = some Later.answer := by
  have sendable : Sendable "c" none := by
    constructor
    · unfold Short
      decide
    all_goals
      intro list same
      cases same
  have deliverable : Deliverable Later.answer := by
    constructor
    · unfold Short
      decide
    · intro event member text inside t same
      obtain rfl := List.mem_singleton.mp member
      subst same
      have one : t = "e" ∨ t = "c" ∨ t = "" := by
        simpa [Engine.killJobEvent, JobEvent.message, Messages.JobEvent.texts] using inside
      unfold Short
      rcases one with rfl | rfl | rfl <;> decide
  have returned : EngineNode.sendHeartbeat Env.calm 60000 "c" ((none : Option (List Hella.JobProgress)).getD [])
      (5 : Int64).toInt Later.node = .ok Later.answer Later.served := by
    rfl
  obtain ⟨-, asked, answered⟩ :=
    EngineNodeProtocol.heartbeat_over_wire (P := Later.protocol) Binary.lawful sendable returned deliverable
  obtain ⟨reply, processed, encoded⟩ := asked _ Later.request_encoded
  obtain ⟨message, received, means⟩ := answered reply encoded
  exact ⟨reply, message, processed, received, means⟩

end Hella

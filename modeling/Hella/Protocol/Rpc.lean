import Hella.Engine.Server
import Hella.Protocol.Messages

/-!
# `EngineNodeProtocol`

The generated client and processor around the engine's server. The envelope of a call,
its name and number, belongs to the transport; a call here is the arguments it carries
there and the result it carries back.
-/
namespace Hella

open Exec Wire Messages

/-! ### What the messages say -/

/-- The numbers of `Constant`. -/
def EventType.number : EventType → Int32
  | executeJob => 0
  | killJob => 1
  | other => 2

def EventType.ofNumber (n : Int32) : EventType :=
  if n = 0 then .executeJob else if n = 1 then .killJob else .other

theorem EventType.ofNumber_number (type : EventType) : ofNumber type.number = type := by
  cases type <;> rfl

def ExecutorStatus.number : ExecutorStatus → Int32
  | unregister => 0
  | heartbeatTimeout => 1
  | normal => 2

/-- `none` is a code that the client does not support. -/
def ExecutorStatus.ofNumber (n : Int32) : Option ExecutorStatus :=
  if n = 0 then some .unregister else if n = 1 then some .heartbeatTimeout else if n = 2 then some .normal else none

theorem ExecutorStatus.ofNumber_number (status : ExecutorStatus) : ofNumber status.number = some status := by
  cases status <;> rfl

def JobEvent.message (event : JobEvent) : Messages.JobEvent :=
  { eventType := event.eventType.number
    eventID := some event.eventID
    executorClusterID := some event.executorClusterID
    xjobExecutorType := some event.xjobExecutorType
    mode := some event.mode
    executionContent := some event.executionContent
    jobClassName := some event.jobClassName
    jobPlanNodeName := some event.jobPlanNodeName
    executeUser := event.executeUser
    argsValue := event.argsValue }

/-- A message that was read has its required texts. -/
def Messages.JobEvent.value (struct : Messages.JobEvent) : Hella.JobEvent :=
  { eventID := struct.eventID.getD ""
    eventType := EventType.ofNumber struct.eventType
    executorClusterID := struct.executorClusterID.getD ""
    xjobExecutorType := struct.xjobExecutorType.getD ""
    mode := struct.mode.getD ""
    executeUser := struct.executeUser
    executionContent := struct.executionContent.getD ""
    jobClassName := struct.jobClassName.getD ""
    argsValue := struct.argsValue
    jobPlanNodeName := struct.jobPlanNodeName.getD "" }

def JobProgress.message (report : JobProgress) : Messages.JobProgress :=
  { executorType := some report.executorType
    jobPlanNodeState := some report.jobPlanNodeState
    progress := Int32.ofInt report.progress
    eventID := some report.eventID
    runInfo := report.runInfo
    runTime := report.runTime
    xjobStateID := Int32.ofNat report.xjobStateID }

def Messages.JobProgress.value (struct : Messages.JobProgress) : Hella.JobProgress :=
  { executorType := struct.executorType.getD ""
    jobPlanNodeState := struct.jobPlanNodeState.getD ""
    progress := struct.progress.toInt
    eventID := struct.eventID.getD ""
    runInfo := struct.runInfo
    runTime := struct.runTime
    xjobStateID := struct.xjobStateID.toNatClampNeg }

/-- Only a normal response has its events set. -/
def HeartbeatResponse.message (response : HeartbeatResponse) : Messages.HeartbeatResponse :=
  { executorStatus := response.executorStatus.number
    jobEvents := if response.executorStatus = .normal then some (response.jobEvents.map JobEvent.message) else none }

def Messages.HeartbeatResponse.value (struct : Messages.HeartbeatResponse) : Option Hella.HeartbeatResponse := do
  let status ← ExecutorStatus.ofNumber struct.executorStatus
  return { executorStatus := status, jobEvents := (struct.jobEvents.getD []).map Messages.JobEvent.value }

/-! ### The server as the protocol's `Iface` -/

namespace EngineNode

/-- `ConcurrentHashMap` takes no null key. -/
def sendHeartbeatIface (env : Env) (heartbeatMaxTimeout : Int) (executorClusterID : Option String)
    (progressList : Option (List Messages.JobProgress)) (lastSeen : Int64) :
    ServerM (Option Messages.HeartbeatResponse) := do
  match executorClusterID with
  | none => throw .nullPointerException
  | some clusterID =>
    let response ← sendHeartbeat env heartbeatMaxTimeout clusterID
      ((progressList.getD []).map Messages.JobProgress.value) lastSeen.toInt
    return some response.message

end EngineNode

/-! ### Client and processor -/

namespace EngineNodeProtocol

/-- What ends a call: an exception of the messages, or one of the service behind them. -/
inductive Failure where
  | thrift (e : TException)
  | service (t : Throwable)
  deriving DecidableEq, Repr

section

variable {β S α : Type} (P : Protocol β TException)

def lift (result : Except TException α) : EStateM Failure S α :=
  match result with
  | .ok a => pure a
  | .error e => throw (.thrift e)

/-- Read one message off the units of a frame. -/
def parse (read : Reader β TException α) (frame : List β) : Except TException α :=
  match read frame with
  | .ok a _ => .ok a
  | .error e _ => .error e

def calling (body : EStateM Throwable S α) : EStateM Failure S α := fun s =>
  match body s with
  | .ok a t => .ok a t
  | .error e t => .error (.service e) t

def send_sendHeartbeat (executorClusterID : Option String) (progressList : Option (List Messages.JobProgress))
    (lastSeen : Int64) : Except TException (List β) :=
  sendHeartbeat_args.write P
    { executorClusterID := executorClusterID
      progressList := progressList
      lastSeen := lastSeen
      isSetLastSeen := true }

/-- `Processor.sendHeartbeat`. -/
def process_sendHeartbeat
    (iface : Option String → Option (List Messages.JobProgress) → Int64 →
      EStateM Throwable S (Option Messages.HeartbeatResponse)) (request : List β) : EStateM Failure S (List β) := do
  let args ← lift (parse (sendHeartbeat_args.read P) request)
  let success ← calling (iface args.executorClusterID args.progressList args.lastSeen)
  lift (sendHeartbeat_result.write P { success := success })

def recv_sendHeartbeat (reply : List β) : Except TException Messages.HeartbeatResponse := do
  let result ← parse (sendHeartbeat_result.read P) reply
  match result.success with
  | some response => return response
  | none => throw (.applicationException "sendHeartbeat failed: unknown result")

/-- `Client.sendHeartbeat` with the processor at the other end. -/
def sendHeartbeat
    (iface : Option String → Option (List Messages.JobProgress) → Int64 →
      EStateM Throwable S (Option Messages.HeartbeatResponse)) (executorClusterID : Option String)
    (progressList : Option (List Messages.JobProgress)) (lastSeen : Int64) :
    EStateM Failure S Messages.HeartbeatResponse := do
  let request ← lift (send_sendHeartbeat P executorClusterID progressList lastSeen)
  let reply ← process_sendHeartbeat P iface request
  lift (recv_sendHeartbeat P reply)

end

end EngineNodeProtocol

end Hella

import Hella.Control.Queues
import Hella.Executor.Client
import Hella.Lib.Runs

/-!
# Heartbeats between executors and the engine

The processes of one executor cluster and the engine they report to. A heartbeat is a
request on a connection of its own and an answer on the same connection; either can get
lost, and a process can stop waiting for its answer, which then never reaches it. The checker that removes executors
as down runs beside the server, one call a step. Everything else the engine does on its
other threads is one step that lets the queue of the cluster grow. The lists at the end
of `World` record what happened; no step reads them.
-/
namespace Hella

open Exec Runs

structure Setting where
  env : Env
  heartbeatMaxTimeout : Int
  executorDownExpireTime : Int
  clusterID : String
  /-- the classes each process can load -/
  newInstance : Nat → String → Instantiation

structure Request where
  process : Nat
  connection : Nat
  jobProgresses : List JobProgress
  lastSeen : Int
  deriving DecidableEq

structure Response where
  process : Nat
  connection : Nat
  answer : HeartbeatResponse
  deriving DecidableEq

structure Process where
  executor : Executor := {}
  /-- the connection whose answer the status reporter waits for, and what it sent -/
  waiting : Option (Nat × List JobProgress) := none
  /-- connections used so far -/
  connections : Nat := 0

/-- Where the `ExecutorChecker` stands with the cluster. -/
inductive Checker where
  | waiting
  /-- the latest access time is removed -/
  | removing
  /-- the queue is removed too -/
  | unregistering
  deriving DecidableEq

structure World where
  node : EngineNode := {}
  checker : Checker := .waiting
  processes : List Process := []
  requests : List Request := []
  responses : List Response := []
  /-- events the dispatcher has accepted for the cluster -/
  accepted : List JobEvent := []
  /-- events a process has received -/
  received : List JobEvent := []
  /-- events that went with a lost answer or with a restarted engine -/
  lost : List JobEvent := []
  /-- events the checker removed with the executor -/
  discarded : List JobEvent := []
  /-- requests whose reports all went through `processJobProgress` -/
  processed : List Request := []

/-- What a process does with an answer in `doReport`. The reports are cleared before the
status is looked at. -/
def Executor.answered (x : Executor) (newInstance : String → Instantiation) (jobProgresses : List JobProgress)
    (answer : HeartbeatResponse) : Executor :=
  let x := x.clear jobProgresses
  if answer.executorStatus = .normal then x.processHeartbeat newInstance answer.jobEvents else x

inductive Action where
  | join
  | report (p : Nat) (now : Int)
  | serve (r : Request)
  | loseRequest (r : Request)
  | loseResponse (r : Response)
  | receive (r : Response)
  | giveUp (p : Nat)
  | register (now : Int)
  | check
  | advance (p : Nat) (eventID : String) (xjob : Xjob)
  | work (e : Engine)
  | restart (e : Engine)

namespace EngineNode

/-- After `removeJobEventsByExecutorClusterID`, or after the cluster got its queue. -/
def taken (node : EngineNode) (clusterID : String) : EngineNode :=
  { node with engine := { node.engine with store := { node.engine.store with
    jobEventsMap := node.engine.store.jobEventsMap.erase clusterID } } }

/-- After `removeExecutorRegisterDate`. -/
def unregistered (node : EngineNode) (clusterID : String) : EngineNode :=
  { node with engine := { node.engine with store := { node.engine.store with
    executorRegisterDateMap := node.engine.store.executorRegisterDateMap.filter (· ≠ clusterID) } } }

end EngineNode

namespace World

variable (set : Setting)

def queue (w : World) : List JobEvent := w.node.engine.queued set.clusterID

/-- The connection whose answer a process waits for. -/
def awaited (w : World) (p : Nat) : Option Nat := (w.processes[p]?.bind (·.waiting)).map (·.1)

/-- The events in answers that are on their way to a process that still waits for them. -/
def inFlight (w : World) : List JobEvent :=
  (w.responses.filter fun r => w.awaited r.process = some r.connection).flatMap (·.answer.jobEvents)

/-- The events in all answers that have neither come nor got lost. An answer on a
connection that its process has given up cannot come any more. -/
def answered (w : World) : List JobEvent := w.responses.flatMap (·.answer.jobEvents)

/-- The events handed to a thread pool, over all processes. -/
def started (w : World) : List JobEvent := w.processes.flatMap (·.executor.started)

/-- The cluster is registered and the heartbeat comes in time. -/
def Admits (w : World) (r : Request) : Prop :=
  ∃ latest, w.node.executorsLatestAccessTimeMap.lookup set.clusterID = some latest ∧
    elapsed r.lastSeen latest ≤ set.heartbeatMaxTimeout

/-- The events that are new in the second of two queues. -/
def newEvents (before after : Engine) : List JobEvent :=
  (after.queued set.clusterID).drop (before.queued set.clusterID).length

/-- The engine when it has handled the reports of a request. -/
def handling (w : World) (r : Request) : Engine :=
  after (Engine.processJobProgress set.env set.clusterID r.jobProgresses w.node.engine)

inductive Step : World → Action → World → Prop where
  | joins {w} : Step w .join { w with processes := w.processes ++ [{}] }
  | reports {w p now} {P : Process} (there : w.processes[p]? = some P) (idle : P.waiting = none) :
    Step w (.report p now) { w with
      processes := w.processes.set p { P with
        waiting := some (P.connections, P.executor.getJobProgressList), connections := P.connections + 1 }
      requests := w.requests ++ [⟨p, P.connections, P.executor.getJobProgressList, now⟩] }
  /-- the engine answers without looking at the reports -/
  | refuses {w r answer node} (sent : r ∈ w.requests) (late : ¬ w.Admits set r)
      (served : EngineNode.sendHeartbeat set.env set.heartbeatMaxTimeout set.clusterID r.jobProgresses r.lastSeen
        w.node = .ok answer node) :
    Step w (.serve r) { w with
      node := node
      requests := w.requests.erase r
      responses := w.responses ++ [⟨r.process, r.connection, answer⟩] }
  | serves {w r answer node} (sent : r ∈ w.requests) (admitted : w.Admits set r)
      (served : EngineNode.sendHeartbeat set.env set.heartbeatMaxTimeout set.clusterID r.jobProgresses r.lastSeen
        w.node = .ok answer node) :
    Step w (.serve r) { w with
      node := node
      requests := w.requests.erase r
      responses := w.responses ++ [⟨r.process, r.connection, answer⟩]
      accepted := w.accepted ++ newEvents set w.node.engine (w.handling set r)
      processed := w.processed ++ [r] }
  /-- an error breaks the connection -/
  | breaks {w r thrown node} (sent : r ∈ w.requests)
      (served : EngineNode.sendHeartbeat set.env set.heartbeatMaxTimeout set.clusterID r.jobProgresses r.lastSeen
        w.node = .error thrown node) :
    Step w (.serve r) { w with
      node := node
      requests := w.requests.erase r
      accepted := w.accepted ++ newEvents set w.node.engine (w.handling set r) }
  | losesRequest {w r} (sent : r ∈ w.requests) : Step w (.loseRequest r) { w with requests := w.requests.erase r }
  | losesResponse {w r} (sent : r ∈ w.responses) :
    Step w (.loseResponse r) { w with
      responses := w.responses.erase r
      lost := w.lost ++ r.answer.jobEvents }
  | receives {w r list} {P : Process} (sent : r ∈ w.responses) (there : w.processes[r.process]? = some P)
      (waits : P.waiting = some (r.connection, list)) :
    Step w (.receive r) { w with
      processes := w.processes.set r.process { P with
        waiting := none, executor := P.executor.answered (set.newInstance r.process) list r.answer }
      responses := w.responses.erase r
      received := w.received ++ r.answer.jobEvents }
  | givesUp {w p} {P : Process} (there : w.processes[p]? = some P) :
    Step w (.giveUp p) { w with processes := w.processes.set p { P with waiting := none } }
  | registers {w now answer node} (served : EngineNode.doRegister set.clusterID now w.node = .ok answer node) :
    Step w (.register now) { w with node := node }
  /-- the access time itself is compared with the longest time without access -/
  | checks {w latest} (turn : w.checker = .waiting)
      (found : w.node.executorsLatestAccessTimeMap.lookup set.clusterID = some latest)
      (down : latest > set.executorDownExpireTime) :
    Step w .check { w with
      node := { w.node with executorsLatestAccessTimeMap := w.node.executorsLatestAccessTimeMap.erase set.clusterID }
      checker := .removing }
  | discards {w} (turn : w.checker = .removing) :
    Step w .check { w with
      node := w.node.taken set.clusterID
      checker := .unregistering
      discarded := w.discarded ++ w.queue set }
  | unregisters {w} (turn : w.checker = .unregistering) :
    Step w .check { w with node := w.node.unregistered set.clusterID, checker := .waiting }
  /-- a job's own thread moves on -/
  | advances {w p eventID xjob} {P : Process} {runner : XjobRunner} (there : w.processes[p]? = some P)
      (running : P.executor.xjobRunners.lookup eventID = some runner) :
    Step w (.advance p eventID xjob) { w with
      processes := w.processes.set p { P with executor := { P.executor with
        xjobRunners := P.executor.xjobRunners.insert eventID { runner with xjob := xjob } } } }
  | works {w e} (grown : Engine.Grown set.clusterID w.node.engine.store e) :
    Step w (.work e) { w with
      node := { w.node with engine := e }
      accepted := w.accepted ++ newEvents set w.node.engine e }
  | restarts {w e} (unregistered : e.store.executorRegisterDateMap = []) (empty : e.queued set.clusterID = []) :
    Step w (.restart e) { w with
      node := { engine := e }
      checker := .waiting
      lost := w.lost ++ w.queue set }

/-- The engine may have events queued when the first process joins. -/
def Initial (w : World) : Prop :=
  ∃ node : EngineNode, w = { node := node, accepted := node.engine.queued set.clusterID }

def system : System World Action := ⟨Initial set, Step set⟩

end World

end Hella

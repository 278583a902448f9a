import Hella.Lib.Ephemeral
import Hella.Lib.Runs

/-!
# `AbsClusterManager` and its watchers

The processes of one cluster, engines or executors, at a ZooKeeper. The threads of a
process are lists of operations that it works off one at a time, each ZooKeeper call
being one operation, so that all threads of all processes interleave. A call can fail at
any time, before or after it took effect. The root paths exist.
-/
namespace Hella

open Ephemeral Runs

inductive Znode where
  | master | slave
  deriving DecidableEq, Repr

/-- With the path each was made for. -/
inductive Watcher where
  | node (znodePath : Znode)
  | statusSwitch (znodePath : Znode)
  deriving DecidableEq, Repr

inductive Op where
  /-- `initialize`: whether the master exists decides how it goes on -/
  | initialize_
  | createZNode (znodePath : Znode)
  | setData (znodePath : Znode)
  | create (znodePath : Znode)
  | addWatcher (znodePath : Znode) (watcher : Watcher)
  | delete (znodePath : Znode)
  | reconnect
  | setMasterStatus (status : Bool)
  /-- `JobPlanManager.startScheduler` -/
  | startScheduler
  /-- `EngineNode.start` -/
  | startEngine
  /-- `JobClient.initialize`, which starts the status reporter -/
  | startReporter
  /-- `doRegister` on the job client the cluster manager was constructed with -/
  | doRegister
  deriving DecidableEq, Repr

/-- What is done about an exception: the process exits or the thread starts over. -/
inductive Recovery where
  | exit
  | retry (ops : List Op)
  deriving DecidableEq, Repr

structure Thread where
  ops : List Op
  recovery : Recovery := .exit
  deriving DecidableEq, Repr

/-- What differs between the cluster managers of the engine and of the executor. -/
structure Manager where
  initializeSlave : List Op
  upgradeToMaster : List Op
  /-- what the main thread does after `initialize` -/
  start : List Op

def initializeMaster : List Op := [.createZNode .master, .addWatcher .master (.node .master)]

/-- `DefaultEngineClusterManager`. -/
def Manager.engine : Manager where
  initializeSlave :=
    [.createZNode .slave, .addWatcher .slave (.node .slave), .addWatcher .master (.statusSwitch .master)]
  upgradeToMaster := [.startScheduler] ++ initializeMaster ++ [.delete .slave, .setMasterStatus true]
  start := [.startEngine]

/-- `DefaultExecutorClusterManager`. Its status switch watcher is put on the slave's own
node. -/
def Manager.executor : Manager where
  initializeSlave :=
    [.createZNode .slave, .addWatcher .slave (.node .slave), .addWatcher .slave (.statusSwitch .slave)]
  upgradeToMaster := [.doRegister] ++ initializeMaster ++ [.delete .slave, .setMasterStatus true]
  start := [.startReporter]

/-- What a watcher does about an event. -/
def Watcher.process (m : Manager) : Watcher → Change → Option Thread
  | .node path, .expired =>
    let again : List Op := [.reconnect, .createZNode path, .addWatcher path (.node path)]
    some ⟨again, .retry again⟩
  | .node _, _ => none
  | .statusSwitch path, .expired =>
    let again : List Op := [.reconnect, .addWatcher path (.statusSwitch path)]
    some ⟨again, .retry again⟩
  | .statusSwitch _, .deleted => some ⟨m.upgradeToMaster, .exit⟩
  | .statusSwitch _, _ => none

/-- The watcher of `ZookeeperConnection` itself. -/
def reconnectionWatcher : Thread := ⟨[.reconnect], .retry [.reconnect]⟩

structure Member where
  live : Bool := true
  /-- the session of the current ZooKeeper handle -/
  session : Nat
  threads : List Thread
  isMasterStatus : Bool := false
  /-- the scheduler of an engine, the status reporter of an executor -/
  started : Bool := false

/-- A process whose main thread begins. -/
def Member.new (session : Nat) : Member := { session := session, threads := [⟨[.initialize_], .exit⟩] }

/-- Watchers are addressed by the process they run in. -/
abbrev Zookeeper := Registry Znode (Nat × Watcher)

structure Cluster where
  zookeeper : Zookeeper := {}
  members : List Member := []

/-- How a call ends: with the operations to go on with, or with an exception. -/
inductive Outcome where
  | returns (ops : List Op)
  | throws
  deriving DecidableEq, Repr

/-- One operation of the process `p`, and what becomes of it. -/
inductive Call (m : Manager) (p : Nat) (z : Zookeeper) (M : Member) : Op → Zookeeper → Member → Outcome → Prop where
  | fails {op} (fallible : ∀ status, op ≠ .setMasterStatus status) : Call m p z M op z M .throws
  | initializesMaster (alive : z.Alive M.session) (free : z.owner .master = none) :
    Call m p z M .initialize_ z M (.returns (initializeMaster ++ [.setMasterStatus true] ++ m.start))
  | initializesSlave (alive : z.Alive M.session) (taken : z.owner .master ≠ none) :
    Call m p z M .initialize_ z M (.returns (m.initializeSlave ++ [.setMasterStatus false] ++ m.start))
  | findsNode {path} (alive : z.Alive M.session) (taken : z.owner path ≠ none) :
    Call m p z M (.createZNode path) z M (.returns [.setData path])
  | findsNone {path} (alive : z.Alive M.session) (free : z.owner path = none) :
    Call m p z M (.createZNode path) z M (.returns [.create path])
  | setsData {path outcome} (alive : z.Alive M.session) (taken : z.owner path ≠ none)
      (ends : outcome = .returns [] ∨ outcome = .throws) :
    Call m p z M (.setData path) (z.setData path) M outcome
  | creates {path outcome} (alive : z.Alive M.session) (free : z.owner path = none)
      (ends : outcome = .returns [] ∨ outcome = .throws) :
    Call m p z M (.create path) (z.create path M.session) M outcome
  | addsWatcher {path watcher} (alive : z.Alive M.session) :
    Call m p z M (.addWatcher path watcher) (z.watch path M.session (p, watcher)) M (.returns [])
  | deletes {path outcome} (alive : z.Alive M.session) (taken : z.owner path ≠ none)
      (ends : outcome = .returns [] ∨ outcome = .throws) :
    Call m p z M (.delete path) (z.delete path) M outcome
  /-- the old connection is ok -/
  | staysConnected (alive : z.Alive M.session) : Call m p z M .reconnect z M (.returns [])
  /-- the old connection is closed for a new one, also when it was only lost -/
  | reconnects :
    Call m p z M .reconnect (z.close M.session).connect { M with session := z.sessions } (.returns [])
  | setsMasterStatus {status} :
    Call m p z M (.setMasterStatus status) z { M with isMasterStatus := status } (.returns [])
  | startsScheduler {outcome} (ends : outcome = .returns [] ∨ outcome = .throws) :
    Call m p z M .startScheduler z { M with started := true } outcome
  | startsMaster {outcome} (master : M.isMasterStatus = true) (ends : outcome = .returns [] ∨ outcome = .throws) :
    Call m p z M .startEngine z { M with started := true } outcome
  | startsSlave (slave : M.isMasterStatus = false) : Call m p z M .startEngine z M (.returns [])
  /-- `doRegister` has no such case: its job client is null -/
  | startsReporter : Call m p z M .startReporter z { M with started := true } (.returns [])

/-- The process when one of its threads has made a call. -/
def Member.proceed (M : Member) (i : Nat) (thread : Thread) (rest : List Op) : Outcome → Member
  | .returns ops => { M with threads := M.threads.set i { thread with ops := ops ++ rest } }
  | .throws =>
    match thread.recovery with
    | .exit => { M with live := false }
    | .retry again => { M with threads := M.threads.set i { thread with ops := again } }

/-- A call is labelled with how it ended and with the session the process has then. -/
inductive ClusterAction where
  | start
  | crash (p : Nat)
  | expire (session : Nat)
  | deliver (p : Nat) (watcher : Watcher) (type : Change)
  | call (p : Nat) (op : Op) (outcome : Outcome) (session : Nat)

namespace Cluster

inductive Step (m : Manager) : Cluster → ClusterAction → Cluster → Prop where
  | starts {c} : Step m c .start { c with
      zookeeper := c.zookeeper.connect
      members := c.members ++ [.new c.zookeeper.sessions] }
  | crashes {c p M} (there : c.members[p]? = some M) :
    Step m c (.crash p) { c with members := c.members.set p { M with live := false } }
  | expires {c session} (alive : c.zookeeper.Alive session) :
    Step m c (.expire session) { c with
      zookeeper := c.zookeeper.expire session
      members := c.members.map fun M =>
        if M.session = session then { M with threads := M.threads ++ [reconnectionWatcher] } else M }
  | delivers {c p watcher type} {M : Member} (there : c.members[p]? = some M) (live : M.live = true)
      (fired : ⟨(p, watcher), type⟩ ∈ c.zookeeper.events) :
    Step m c (.deliver p watcher type) {
      zookeeper := { c.zookeeper with events := c.zookeeper.events.erase ⟨(p, watcher), type⟩ }
      members := c.members.set p { M with threads := M.threads ++ (watcher.process m type).toList } }
  | calls {c p i op rest recovery z outcome} {M N : Member} (there : c.members[p]? = some M) (live : M.live = true)
      (next : M.threads[i]? = some ⟨op :: rest, recovery⟩) (call : Call m p c.zookeeper M op z N outcome) :
    Step m c (.call p op outcome N.session) {
      zookeeper := z
      members := c.members.set p (N.proceed i ⟨op :: rest, recovery⟩ rest outcome) }

def system (m : Manager) : System Cluster ClusterAction := ⟨fun c => c = {}, Step m⟩

end Cluster

end Hella

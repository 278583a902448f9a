import Hella.Engine.Server
import Hella.Lib.Runs
import Mathlib.Algebra.Group.Nat.Defs

/-!
# `ExecutorChecker`

The constructor of the server, the thread it starts, and `close`. A wait of the
thread ends with the interval or with an interrupt, which it only logs.
-/
namespace Hella

open Exec Runs

/-- `Configuration`, as far as the server reads it. -/
structure Configuration where
  getInt : String → Int → Int

namespace EngineConstant

def heartbeatMaxTimeout : String := "heartbeat.max.timeout"

/-- in minutes -/
def defaultHeartbeatMaxTimeout : Int := 5

def executorDownCheckInterval : String := "executor.down.check.interval"

/-- in minutes -/
def defaultExecutorDownCheckInterval : Int := 3

end EngineConstant

def Store.removeJobEventsByExecutorClusterID (clusterID : String) : StoreM Unit :=
  modify fun s => { s with jobEventsMap := s.jobEventsMap.erase clusterID }

namespace EngineNode

/-- The three removals for one cluster. -/
def removeExecutor (clusterID : String) : ServerM Unit := do
  modify fun s => { s with
    executorsLatestAccessTimeMap := s.executorsLatestAccessTimeMap.erase clusterID }
  onEngine (Engine.onShared (Store.removeJobEventsByExecutorClusterID clusterID))
  onEngine (Engine.onShared (removeExecutorRegisterDate clusterID))

/-- One walk over the access times. No clock is read. -/
def checkExecutors (executorDownExpireTime : Int) : ServerM Unit := do
  (← get).executorsLatestAccessTimeMap.entries.forM fun me =>
    if me.2 > executorDownExpireTime then removeExecutor me.1 else pure ()

end EngineNode

/-- Where `ExecutorChecker.run` is: about to test `isRunning`, asleep, or at its end. -/
inductive ExecutorChecker where
  | testing | sleeping | ended
  deriving DecidableEq, Repr

structure DefaultEngineNodeServer where
  node : EngineNode := {}
  heartbeatMaxTimeout : Int
  executorDownExpireTime : Int
  executorDownCheckInterval : Int
  executorChecker : ExecutorChecker
  isRunning : Bool := false

namespace DefaultEngineNodeServer

def executorDownExpireTimeFactor : Int := 3

/-- The constructor, which starts the checker. -/
def construct (conf : Configuration) : DefaultEngineNodeServer :=
  let heartbeatMaxTimeout :=
    toInt (conf.getInt EngineConstant.heartbeatMaxTimeout EngineConstant.defaultHeartbeatMaxTimeout * 60 * 1000)
  { heartbeatMaxTimeout := heartbeatMaxTimeout
    executorDownExpireTime := toInt (heartbeatMaxTimeout * executorDownExpireTimeFactor)
    executorDownCheckInterval := toInt
      (conf.getInt EngineConstant.executorDownCheckInterval EngineConstant.defaultExecutorDownCheckInterval * 60 * 1000)
    executorChecker := .testing }

def close (s : DefaultEngineNodeServer) : DefaultEngineNodeServer := { s with isRunning := false }

inductive Action where
  | doRegister (clusterID : String) (now : Int)
  | sendHeartbeat (clusterID : String) (progressList : List JobProgress) (lastSeen : Int)
  | work (e : Engine)
  | close
  /-- the checker tests `isRunning` -/
  | test
  /-- the checker has slept and walks over the map -/
  | pass

inductive Step (env : Env) : DefaultEngineNodeServer → Action → DefaultEngineNodeServer → Prop where
  | registers {s clusterID now} :
    Step env s (.doRegister clusterID now) { s with node := after (EngineNode.doRegister clusterID now s.node) }
  | beats {s clusterID progressList lastSeen} :
    Step env s (.sendHeartbeat clusterID progressList lastSeen) { s with
      node := after (EngineNode.sendHeartbeat env s.heartbeatMaxTimeout clusterID progressList lastSeen s.node) }
  /-- the managers run besides -/
  | works {s e} : Step env s (.work e) { s with node := { s.node with engine := e } }
  | closes {s} : Step env s .close s.close
  | continues {s} (turn : s.executorChecker = .testing) (running : s.isRunning = true) :
    Step env s .test { s with executorChecker := .sleeping }
  | ends {s} (turn : s.executorChecker = .testing) (stopped : s.isRunning = false) :
    Step env s .test { s with executorChecker := .ended }
  /-- an empty map makes the walk do nothing, as `continue` does -/
  | passes {s} (turn : s.executorChecker = .sleeping) :
    Step env s .pass { s with
      node := after (EngineNode.checkExecutors s.executorDownExpireTime s.node)
      executorChecker := .testing }

def system (env : Env) (conf : Configuration) : System DefaultEngineNodeServer Action :=
  ⟨(· = construct conf), Step env⟩

end DefaultEngineNodeServer

end Hella

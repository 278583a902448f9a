import Hella.Engine.Managers

/-!
# `DefaultEngineNodeServer`

The two calls an executor makes. Both are synchronized on the server, so each is
one step. Clock readings are arguments, in milliseconds. They are `long`s, and so is
their difference. A null list of reports or of events is the empty list, which every
reader of one treats the same.
-/
namespace Hella

open Exec

inductive ExecutorStatus where
  | unregister | heartbeatTimeout | normal
  deriving DecidableEq, Repr

structure HeartbeatResponse where
  executorStatus : ExecutorStatus
  jobEvents : List JobEvent := []
  deriving DecidableEq, Repr

structure EngineNode where
  engine : Engine := {}
  executorsLatestAccessTimeMap : JMap Int := ∅

abbrev ServerM := EStateM Throwable EngineNode

namespace EngineNode

def onEngine {α : Type} (body : EngineM α) : ServerM α :=
  zoom EngineNode.engine (fun s e => { s with engine := e }) body

/-! ### `DefaultEngineClusterManager` -/

def isExecutorAlreadyRegister (s : EngineNode) (clusterID : String) : Bool :=
  s.engine.store.executorRegisterDateMap.contains clusterID

def storeExecutorRegisterDate (clusterID : String) : StoreM Unit :=
  modify fun s => { s with executorRegisterDateMap := clusterID :: s.executorRegisterDateMap.erase clusterID }

def removeExecutorRegisterDate (clusterID : String) : StoreM Unit :=
  modify fun s => { s with executorRegisterDateMap := s.executorRegisterDateMap.filter (· ≠ clusterID) }

/-! ### The protocol -/

/-- `none` is the TException for a cluster that is registered already. -/
def doRegister (clusterID : String) (now : Int) : ServerM (Option Unit) := do
  if (← get).isExecutorAlreadyRegister clusterID then return none
  else
    modify fun s => { s with
      executorsLatestAccessTimeMap := s.executorsLatestAccessTimeMap.insert clusterID now }
    onEngine (Engine.onShared (storeExecutorRegisterDate clusterID))
    return some ()

end EngineNode

/-- A report that cannot be handled is logged and skipped. -/
def Engine.processJobProgress (env : Env) (executorClusterID : String) (progressList : List JobProgress) :
    EngineM Unit :=
  progressList.forM fun jobProgress =>
    catching Throwable.isException (handlejobProgress env executorClusterID jobProgress) fun _ => pure ()

/-- The difference of two `long`s wraps. -/
def elapsed (lastSeen latest : Int) : Int := (lastSeen - latest).bmod (2 ^ 64)

namespace EngineNode

def sendHeartbeat (env : Env) (heartbeatMaxTimeout : Int) (executorClusterID : String)
    (progressList : List JobProgress) (lastSeen : Int) : ServerM HeartbeatResponse := do
  match (← get).executorsLatestAccessTimeMap.lookup executorClusterID with
  | none => return { executorStatus := .unregister }
  | some latest =>
    if elapsed lastSeen latest > heartbeatMaxTimeout then
      onEngine (Engine.onShared (removeExecutorRegisterDate executorClusterID))
      return { executorStatus := .heartbeatTimeout }
    else
      modify fun s => { s with
        executorsLatestAccessTimeMap := s.executorsLatestAccessTimeMap.insert executorClusterID lastSeen }
      onEngine (Engine.processJobProgress env executorClusterID progressList)
      let jobEvents ← onEngine (Engine.onShared (Store.getJobEventsByExecutorClusterID executorClusterID))
      return { executorStatus := .normal, jobEvents := jobEvents }

end EngineNode

end Hella

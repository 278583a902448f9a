import Hella.Engine.Entities
import Hella.Lib.Exec
import Mathlib.Data.List.AList

/-!
# The engine's shared state

The tables behind the DAOs, the two maps of `WorkflowContext`, the queues of
`DefaultDispatcher` and the logs of what left the engine, with the operations the
workflow code performs on them.
-/
namespace Hella

open Exec

/-- A `java.util.Map` keyed by strings. -/
abbrev JMap (V : Type) := AList (fun _ : String => V)

/-- `WorkflowContext.JobNodeRuningInfo`. -/
structure JobNodeRuningInfo where
  jobNodeName : String
  xjobStateID : Nat
  workflowRunKey : String
  deriving DecidableEq, Repr

/-- A notice handed to the subscribers of a cluster. -/
structure Notice where
  clusterID : String
  jobPlanNodeName : Option String
  runTime : String
  runInfo : Option String
  type : Nat
  deriving DecidableEq, Repr

structure Store where
  /-- requests made to `Env` so far -/
  tick : Nat := 0
  xjobStates : List XjobState := []
  lastXjobStateID : Nat := 0
  jobPlans : List JobExecutionPlan := []
  /-- run key to a reference to the instance -/
  workflowsMap : JMap Nat := ∅
  jobNodeRuningInfosMap : JMap JobNodeRuningInfo := ∅
  executorRegisterDateMap : List String := []
  jobEventsMap : JMap (List JobEvent) := ∅
  producedEvents : List String := []
  notices : List Notice := []

abbrev StoreM := EStateM Throwable Store

namespace Store

/-! ### Tables -/

/-- `INSERT INTO XJOB_STATE`: the row as stored, under a fresh generated key. -/
def insertXjobState (s : Store) (x : XjobState) : Store :=
  { s with
    xjobStates := s.xjobStates ++ [{ x with id := s.lastXjobStateID + 1 }]
    lastXjobStateID := s.lastXjobStateID + 1 }

/-- The columns `XjobStateDao.update` sets. The run time is written into the
statement as text, so a null one is stored as `null`. -/
def XjobState.overwrite (row x : XjobState) : XjobState :=
  { row with
    jobPlanNodeState := x.jobPlanNodeState
    runInfo := x.runInfo
    runTime := some (Text.orNull x.runTime)
    executeTimes := x.executeTimes
    finishedPercent := x.finishedPercent }

def updateXjobState (s : Store) (x : XjobState) : Store :=
  { s with
    xjobStates := s.xjobStates.map fun row => if row.id = x.id then XjobState.overwrite row x else row }

def xjobState? (s : Store) (id : Nat) : Option XjobState := s.xjobStates.find? (·.id = id)

def xjobStatesOf (s : Store) (key : String) : List XjobState :=
  s.xjobStates.filter (·.currentExecutorKey = key)

def jobPlan? (s : Store) (id : Nat) : Option JobExecutionPlan := s.jobPlans.find? (·.id = id)

def modifyJobPlan (s : Store) (id : Nat) (f : JobExecutionPlan → JobExecutionPlan) : Store :=
  { s with jobPlans := s.jobPlans.map fun plan => if plan.id = id then f plan else plan }

/-- A node row alone; its `xjobMeta` is in another table. -/
def jobPlanNode? (s : Store) (id : Nat) : Option JobPlanNode :=
  ((s.jobPlans.flatMap (·.jobPlanNodeList)).find? (·.id = id)).map ({ · with xjobMeta := none })

/-! ### Requests to the outside -/

def request : StoreM Nat := modifyGet fun s => (s.tick, { s with tick := s.tick + 1 })

/-- Every DAO call may fail; a failed one changes nothing. -/
def daoCall (env : Env) : StoreM Unit := do
  if env.daoSucceeds (← request) then pure () else throw .daoException

theorem daoCall_apply (env : Env) (s : Store) :
    daoCall env s = if env.daoSucceeds s.tick then .ok () { s with tick := s.tick + 1 }
      else .error .daoException { s with tick := s.tick + 1 } := by
  change (if env.daoSucceeds s.tick then pure () else throw .daoException : StoreM Unit) _ = _
  split <;> rfl

def generateID (env : Env) : StoreM Nat := do
  return env.generateID (← request)

/-- `UniqueIDGenerator.generateIDByPrifix`. -/
def generateIDByPrifix (env : Env) : StoreM String := do
  return env.idPrefix ++ toString (← generateID env)

def newDate (env : Env) : StoreM String := do
  return env.now (← request)

/-! ### `XjobStateDao` behind `DefaultJobStateManager` -/

def addJobState (env : Env) (x : XjobState) : StoreM XjobState := do
  daoCall env
  modifyGet fun s => ({ x with id := s.lastXjobStateID + 1 }, s.insertXjobState x)

def updJobState (env : Env) (x : XjobState) : StoreM Unit := do
  daoCall env
  modify (·.updateXjobState x)

def queryXjobState (env : Env) (id : Nat) : StoreM (Option XjobState) := do
  daoCall env
  return (← get).xjobState? id

def queryXjobStateByCurrentExecutorKey (env : Env) (key : String) : StoreM (List XjobState) := do
  daoCall env
  return (← get).xjobStatesOf key

/-! ### `JobExecutionPlanDao` behind `DefaultJobPlanManager` -/

/-- The plan row alone; its nodes are in another table. -/
def queryJobPlan (env : Env) (id : Nat) : StoreM (Option JobExecutionPlan) := do
  if id = 0 then return none
  else
    daoCall env
    return ((← get).jobPlan? id).map ({ · with jobPlanNodeList := [] })

/-- The plan row with its nodes and their jobs, read with one query each. -/
def loadJobExecutionPlan (env : Env) (id : Nat) : StoreM (Option JobExecutionPlan) := do
  match ← queryJobPlan env id with
  | none => return none
  | some plan =>
    daoCall env
    daoCall env
    let nodes := ((← get).jobPlan? id).map (·.jobPlanNodeList)
    return some { plan with jobPlanNodeList := nodes.getD [] }

/-- The update reads the row again, so it makes two DAO calls. -/
def updateJobPlanCurrentXjobState (env : Env) (id : Nat) (state : CurrentXjobState) (date : String) :
    StoreM Unit := do
  if id = 0 then return
  else
    daoCall env
    modify (·.modifyJobPlan id fun plan =>
      { plan with currentXjobState := some state, currentXjobDate := some date })
    let _ ← queryJobPlan env id

def changeJobExecutionPlanCurrentXjobState (env : Env) (id : Nat) (state : CurrentXjobState) :
    StoreM Unit := do
  updateJobPlanCurrentXjobState env id state (← newDate env)

def updateJobPlanState (env : Env) (id : Nat) (state : PlanState) : StoreM Unit := do
  daoCall env
  modify fun s => { s with jobPlans := s.jobPlans.map fun plan =>
    if id = 0 ∨ plan.id = id then { plan with state := state } else plan }

def queryJobPlanNodeByID (env : Env) (id : Nat) : StoreM (Option JobPlanNode) := do
  if id = 0 then return none
  else
    daoCall env
    return (← get).jobPlanNode? id

/-- Quartz pauses the job first; a failed row update only makes the answer false. -/
def pauseJobExecutionPlan (env : Env) (plan : JobExecutionPlan) : StoreM Bool := do
  if env.pauseJob (← request) then
    catching Throwable.isException
      (do updateJobPlanState env plan.id .disable; return true) (fun _ => return false)
  else return false

/-! ### `WorkflowContext` -/

def addWorkflow (key : String) (instance_ : Nat) : StoreM Unit :=
  modify fun s => { s with workflowsMap := s.workflowsMap.insert key instance_ }

def removeWorkflow (key : String) : StoreM Unit :=
  modify fun s => { s with workflowsMap := s.workflowsMap.erase key }

def addJobNodeRuningInfo (eventID jobNodeName : String) (xjobStateID : Nat) (key : String) :
    StoreM Unit :=
  modify fun s => { s with
    jobNodeRuningInfosMap := s.jobNodeRuningInfosMap.insert eventID ⟨jobNodeName, xjobStateID, key⟩ }

def removeJobNodeRuningInfo (eventID : String) : StoreM Unit :=
  modify fun s => { s with jobNodeRuningInfosMap := s.jobNodeRuningInfosMap.erase eventID }

/-! ### `DefaultDispatcher` -/

/-- An event for a cluster that is not registered is dropped. -/
def doDispatch (event : JobEvent) : StoreM Unit :=
  modify fun s =>
    if event.executorClusterID ∈ s.executorRegisterDateMap then
      let queued := (s.jobEventsMap.lookup event.executorClusterID).getD []
      { s with jobEventsMap := s.jobEventsMap.insert event.executorClusterID (queued ++ [event]) }
    else s

/-- The whole queue leaves with one heartbeat response. -/
def getJobEventsByExecutorClusterID (clusterID : String) : StoreM (List JobEvent) :=
  modifyGet fun s =>
    ((s.jobEventsMap.lookup clusterID).getD [],
      { s with jobEventsMap := s.jobEventsMap.erase clusterID })

/-- `DefaultJobPlanManager.executeXJob`. A node without a job fails on its
missing `xjobMeta`, after the event ID has been drawn. -/
def executeXJob (env : Env) (workflowRunKey : String) (node : JobPlanNode) (xjobStateID : Nat)
    (type : XjobExecutorType) (args : Option String) : StoreM JobEvent := do
  let eventID ← generateIDByPrifix env
  match node.xjobMeta with
  | none => throw .nullPointerException
  | some xjobMeta =>
    let event : JobEvent :=
      { eventID := eventID
        eventType := .executeJob
        executorClusterID := node.executorClusterID
        xjobExecutorType := type.name
        mode := xjobMeta.mode
        executeUser := xjobMeta.executeUser
        executionContent := xjobMeta.executionContent
        jobClassName := xjobMeta.jobClassName
        argsValue := if Text.isBlank args then xjobMeta.args else args
        jobPlanNodeName := node.name }
    addJobNodeRuningInfo eventID node.name xjobStateID workflowRunKey
    doDispatch event
    return event

/-! ### What leaves the engine -/

def produceJobEvent (event : String) : StoreM Unit :=
  modify fun s => { s with producedEvents := s.producedEvents ++ [event] }

/-- `DateUtil.parseEnDate`; `none` is StringIndexOutOfBoundsException. -/
def parseEnDate (runTime : Option String) : Option String :=
  match runTime with
  | none => some ""
  | some text =>
    let cs := text.toList
    if cs.length < 12 then some ""
    else if cs.length < 14 then none
    else
      let part (i n : Nat) := String.ofList ((cs.drop i).take n)
      some (part 0 4 ++ "/" ++ part 4 2 ++ "/" ++ part 6 2 ++ " " ++ part 8 2 ++ ":" ++ part 10 2
        ++ ":" ++ part 12 2)

/-- The guarded call of `sendSubscribe`: whether the notice went out. -/
def trySendSubscribe (env : Env) (clusterID : String) (jobPlanNodeName : Option String)
    (runTime runInfo : Option String) (type : Nat) : StoreM Bool := do
  let sent := env.sendSubscribe (← request)
  match parseEnDate runTime with
  | some date =>
    if sent then
      modify fun s => { s with notices := s.notices ++ [⟨clusterID, jobPlanNodeName, date, runInfo, type⟩] }
    return sent
  | none => return false

end Store

end Hella

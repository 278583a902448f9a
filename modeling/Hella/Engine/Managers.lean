import Hella.Engine.Workflow
import Mathlib.Algebra.Group.Nat.Defs

/-!
# `DefaultJobPlanManager` and `DefaultJobStateManager`

The engine is the shared store and the workflow instances it has created. An
instance is referred to by its position, which is what `workflowsMap` holds.
-/
namespace Hella

open Exec Text

/-- The value of a Java `int` expression. -/
def toInt (n : Int) : Int := n.bmod (2 ^ 32)

/-- A product that is not negative wraps downwards. -/
theorem toInt_le {n : Int} (positive : 0 ≤ n) : toInt n ≤ n := by
  unfold toInt
  rw [Int.bmod_def]
  split <;> omega

/-- A `LiteWorkflowInstance` without the store, which all instances share. -/
structure Instance where
  workflow : Workflow
  status : WorkflowStatus := .prep
  vars : JMap String := ∅
  trace : List Act := []
  timeOut : Bool := false
  hasAlarm : Bool := false

structure Engine where
  store : Store := {}
  instances : List Instance := []

abbrev EngineM := EStateM Throwable Engine

namespace Instance

def run (i : Instance) (store : Store) : Run :=
  { status := i.status, vars := i.vars, trace := i.trace, store := store }

def save (i : Instance) (s : Run) : Instance :=
  { i with status := s.status, vars := s.vars, trace := s.trace }

end Instance

namespace Engine

variable {α : Type}

def onShared (body : StoreM α) : EngineM α := zoom Engine.store (fun e t => { e with store := t }) body

/-- The engine after an instance has run on the shared store. -/
def save (e : Engine) (n : Nat) (i : Instance) (s : Run) : Engine :=
  { e with store := s.store, instances := e.instances.set n (i.save s) }

/-- Call a method of an instance. A reference always leads to an instance. -/
def onInstance (n : Nat) (body : Workflow → RunM α) : EngineM α := fun e =>
  match e.instances[n]? with
  | none => .error .nullPointerException e
  | some i =>
    match body i.workflow (i.run e.store) with
    | .ok a s => .ok a (e.save n i s)
    | .error t s => .error t (e.save n i s)

def modifyInstance (n : Nat) (f : Instance → Instance) : EngineM Unit :=
  modify fun e => { e with instances := e.instances.modify n f }

/-! ### `WorkflowContext` -/

/-- The reference to a registered instance and the instance; `none` is null. -/
def getWorkflow? (e : Engine) (key : String) : Option (Nat × Instance) :=
  (e.store.workflowsMap.lookup key).bind fun n => e.instances[n]?.map ((n, ·))

def runingInfo? (e : Engine) (eventID : String) : Option JobNodeRuningInfo :=
  e.store.jobNodeRuningInfosMap.lookup eventID

/-! ### `DefaultJobPlanManager` -/

section Managers

variable (env : Env)

/-- `startJobPlan`. The instance is registered only after it has been started. -/
def startJobPlan (id : Nat) (args : Option String) : EngineM Unit := do
  match ← onShared (Store.loadJobExecutionPlan env id) with
  | none => pure ()
  | some plan =>
    match accepted : addNode plan.jobPlanNodeList [] false with
    | .error e => throw e
    | .ok () =>
      let key ← onShared (Store.generateID env)
      let workflow : Workflow := { workflowManager := ⟨plan, accepted⟩, engineRunKey := key, args := args }
      let n ← modifyGet fun e => (e.instances.length, { e with instances := e.instances ++ [{ workflow := workflow }] })
      onInstance n (start env)
      onShared (Store.addWorkflow workflow.getWorkflowKey n)

/-- `executeJobPlanNode`: a node run by hand, outside any workflow. -/
def executeJobPlanNode (id : Nat) (type : XjobExecutorType) (args : Option String) : EngineM Bool := do
  match ← onShared (Store.queryJobPlanNodeByID env id) with
  | none => throw .nullPointerException
  | some node =>
    let key ← onShared (Store.generateID env)
    let runTime ← onShared (Store.newDate env)
    let xjobState ← onShared (Store.addJobState env
      { jobPlanNodeID := node.id, currentExecutorKey := toString key, runTime := some runTime })
    let started ← catching Throwable.isException
      (do
        let _ ← onShared (Store.executeXJob env xjobState.currentExecutorKey node xjobState.id type args)
        return true)
      (fun _ => return false)
    onShared (Store.updJobState env
      (if started then xjobState else { xjobState with jobPlanNodeState := .notifyFail }))
    return started

/-! ### `DefaultJobStateManager` -/

def jobProcessError : Nat := 0

def jobProcessTimeout : Nat := 1

def jobProcessTimeoutButSuccess : Nat := 2

/-- The row is overwritten from a blank `XjobState`. -/
def handlejobProgressOnce (jobProgress : JobProgress) (state : JobPlanNodeState) : StoreM Unit :=
  Store.updJobState env
    { id := jobProgress.xjobStateID
      jobPlanNodeID := 0
      currentExecutorKey := ""
      jobPlanNodeState := state
      runInfo := jobProgress.runInfo
      runTime := jobProgress.runTime
      finishedPercent := jobProgress.progress }

def killJobEvent (executorClusterID eventID : String) : JobEvent :=
  { eventID := eventID
    eventType := .killJob
    executorClusterID := executorClusterID
    xjobExecutorType := ""
    mode := ""
    executionContent := ""
    jobClassName := ""
    jobPlanNodeName := "" }

def killJobHandle (executorClusterID eventID : String) : StoreM Unit :=
  Store.doDispatch (killJobEvent executorClusterID eventID)

def handleFailJobProgress (plan : JobExecutionPlan) : StoreM Unit := do
  if !plan.ignoreError then
    let _ ← Store.pauseJobExecutionPlan env plan

/-- A failed job may pause its plan, and the subscribers are told. -/
def alarmFailure (executorClusterID jobNodeName : String) (jobProgress : JobProgress) (state : JobPlanNodeState)
    (plan : JobExecutionPlan) : StoreM Unit := do
  if state.isFailState then
    handleFailJobProgress env plan
    let _ ← Store.trySendSubscribe env executorClusterID (some jobNodeName) jobProgress.runTime jobProgress.runInfo
      jobProcessError

/-- The subscribers are told of a job that finished after its timeout was announced. -/
def alarmLateSuccess (executorClusterID jobNodeName : String) (jobProgress : JobProgress) (i : Instance) :
    StoreM Unit := do
  if i.timeOut ∧ i.hasAlarm then
    let _ ← Store.trySendSubscribe env executorClusterID (some jobNodeName) jobProgress.runTime jobProgress.runInfo
      jobProcessTimeoutButSuccess

/-- The part of `handlejobProgress` that reports a result to the instance. -/
def completeJobProgress (executorClusterID jobNodeName : String) (n : Nat) (jobProgress : JobProgress)
    (state : JobPlanNodeState) : EngineM Unit := do
  onInstance n fun wf => completeJobPlanNode env wf jobNodeName { jobProgress := some jobProgress }
  match (← get).instances[n]? with
  | none => throw .nullPointerException
  | some i =>
    onShared (alarmFailure env executorClusterID jobNodeName jobProgress state i.workflow.jobExecutionPlan)
    onShared (alarmLateSuccess env executorClusterID jobNodeName jobProgress i)

def handlejobProgress (executorClusterID : String) (jobProgress : JobProgress) : EngineM Unit := do
  match XjobExecutorType.valueOf jobProgress.executorType, JobPlanNodeState.valueOf jobProgress.jobPlanNodeState with
  | some type, some state =>
    -- the lookup of the row id, unlike that of the name, does not expect a missing entry
    match (← get).runingInfo? jobProgress.eventID with
    | none => throw .nullPointerException
    | some info =>
      let jobProgress := { jobProgress with xjobStateID := info.xjobStateID }
      if state = .dispatchSuccess ∨ type = .once then
        onShared (Store.removeJobNodeRuningInfo jobProgress.eventID)
        onShared (handlejobProgressOnce env jobProgress state)
      else
        match (← get).getWorkflow? info.workflowRunKey with
        | none => onShared (killJobHandle executorClusterID jobProgress.eventID)
        | some (n, _) =>
          if !state.isResultState then return
          else
            completeJobProgress env executorClusterID info.jobNodeName n jobProgress state
            onShared (Store.removeJobNodeRuningInfo jobProgress.eventID)
  | _, _ => throw .illegalArgumentException

/-- `EngineConstant.JOB_KILL_TIMES`. -/
def jobKillTimes : Int := 5

/-- `timeOutHandle`; the answer is the run info it leaves in the progress. -/
def timeOutHandle (n : Nat) (node : JobPlanNode) (jobProgress : JobProgress) : EngineM (Option String) := do
  match jobProgress.runTime with
  | none => return jobProgress.runInfo
  | some runTime =>
    if isBlank (some runTime) then return jobProgress.runInfo
    else
      match env.elapsedMinutes (← onShared Store.request) runTime with
      | none => return jobProgress.runInfo
      | some timeOutMin =>
        let delayTime := if node.delayTime > 0 then node.delayTime else env.xjobDefaultTimeout
        if timeOutMin < delayTime then return jobProgress.runInfo
        else
          modifyInstance n ({ · with timeOut := true })
          let runInfo := some (orNull jobProgress.runInfo ++ " this job time out , it will be killed after " ++
            toString (toInt ((jobKillTimes - 1) * delayTime)) ++ " min ")
          if timeOutMin > toInt (jobKillTimes * delayTime) then
            let jobProgress := { jobProgress with
              runInfo := runInfo, jobPlanNodeState := JobPlanNodeState.resultError.name }
            onInstance n fun wf => completeJobPlanNode env wf node.name { jobProgress := some jobProgress }
            if node.delayType = some .hard then
              match (← get).instances[n]? with
              | none => throw .nullPointerException
              | some i =>
                let _ ← onShared (Store.pauseJobExecutionPlan env i.workflow.jobExecutionPlan)
          return runInfo

/-- One running row of the sweep. -/
def timeOutRow (n : Nat) (xjobState : XjobState) : EngineM Unit := do
  if xjobState.jobPlanNodeState.isRunningState then
    match ← onShared (Store.queryJobPlanNodeByID env xjobState.jobPlanNodeID) with
    | none => pure ()
    | some node =>
      let jobProgress : JobProgress :=
        { executorType := XjobExecutorType.auto.name
          jobPlanNodeState := ""
          runInfo := some ""
          runTime := xjobState.runTime
          xjobStateID := xjobState.id }
      let runInfo ← timeOutHandle env n node jobProgress
      match (← get).instances[n]? with
      | none => throw .nullPointerException
      | some i =>
        if i.timeOut ∧ !i.hasAlarm then
          if ← onShared (Store.trySendSubscribe env node.executorClusterID (some node.name) jobProgress.runTime
              runInfo jobProcessTimeout) then
            modifyInstance n ({ · with hasAlarm := true })

/-- The sweep ends at the first run key that has left the map or has no rows. -/
def timeOutRuns : List String → EngineM Unit
  | [] => pure ()
  | key :: keys => do
    match (← get).getWorkflow? key with
    | none => pure ()
    | some (n, _) =>
      match ← onShared (Store.queryXjobStateByCurrentExecutorKey env key) with
      | [] => pure ()
      | rows =>
        rows.forM (timeOutRow env n)
        timeOutRuns keys

def autoTimeOutHandlejobProgress : EngineM Unit := do
  timeOutRuns env (← get).store.workflowsMap.keys

end Managers

end Engine

end Hella

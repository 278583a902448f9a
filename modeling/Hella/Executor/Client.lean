import Hella.Engine.Store

/-!
# The executor's client

`DefaultProgressManager`, `DefaultProgressCollector` and the part of
`DefaultJobClient` that acts on heartbeat responses. The two logs record what
reaches a job from outside the maps; no code reads them.
-/
namespace Hella

/-- An `Xjob` as its getters show it; a null state is `none`. -/
structure Xjob where
  jobPlanNodeState : Option JobPlanNodeState := none
  progress : Int := 0
  runInfo : Option String := none
  jobRunDate : Option String := none
  deriving DecidableEq, Repr

structure XjobRunner where
  xjob : Xjob
  event : JobEvent
  deriving DecidableEq, Repr

/-- What becomes of `(Xjob) ReflectionUtil.newInstance(className)`. -/
inductive Instantiation where
  | created (xjob : Xjob)
  /-- ReflectionException: no such class, or its constructor failed -/
  | refused
  /-- any other exception, as for a class that is no `Xjob` -/
  | broken
  deriving DecidableEq, Repr

structure Executor where
  /-- `DefaultProgressManager.xjobRunners` -/
  xjobRunners : JMap XjobRunner := ∅
  /-- `DefaultProgressCollector.jobProgressMap` -/
  jobProgressMap : JMap JobProgress := ∅
  /-- events whose runner was handed to the thread pool -/
  started : List JobEvent := []
  /-- event IDs of the jobs whose `destroy` was called -/
  destroyed : List String := []

namespace Executor

/-! ### `DefaultProgressManager` -/

def isContainsRuningXjob (x : Executor) (eventID : String) : Bool := (x.xjobRunners.lookup eventID).isSome

def add (x : Executor) (runner : XjobRunner) : Executor :=
  { x with
    xjobRunners := x.xjobRunners.insert runner.event.eventID runner
    started := x.started ++ [runner.event] }

def removeXjobRunner (x : Executor) (eventID : String) : Executor :=
  { x with xjobRunners := x.xjobRunners.erase eventID }

def killJob (x : Executor) (eventID : String) : Executor :=
  match x.xjobRunners.lookup eventID with
  | none => x
  | some _ => { x with destroyed := x.destroyed ++ [eventID] }

/-! ### `DefaultProgressCollector` -/

/-- The report about a job that no longer runs. The collector overwrites all of its
stored object but the event's own fields each time, so only those are kept. -/
def reportOf (x : Executor) (eventID : String) : Option JobProgress := do
  let runner ← x.xjobRunners.lookup eventID
  let state ← runner.xjob.jobPlanNodeState
  if state.isRunningState then none
  else
    let jobProgress ← x.jobProgressMap.lookup eventID
    some { jobProgress with
      jobPlanNodeState := state.name
      progress := runner.xjob.progress
      runTime := some (runner.xjob.jobRunDate.getD "")
      runInfo := runner.xjob.runInfo }

def getJobProgressList (x : Executor) : List JobProgress := x.jobProgressMap.keys.filterMap x.reportOf

def addProgress (x : Executor) (event : JobEvent) : Executor :=
  let jobProgress : JobProgress :=
    { executorType := event.xjobExecutorType, jobPlanNodeState := "", eventID := event.eventID, runInfo := some "" }
  { x with jobProgressMap := x.jobProgressMap.insert event.eventID jobProgress }

/-- `clear(String)`. -/
def clearEvent (x : Executor) (eventID : String) : Executor :=
  { x.removeXjobRunner eventID with jobProgressMap := x.jobProgressMap.erase eventID }

/-- `clear(List)`. -/
def clear (x : Executor) (jobProgresses : List JobProgress) : Executor :=
  jobProgresses.foldl (fun x jobProgress =>
    if jobProgress.jobPlanNodeState = JobPlanNodeState.dispatchSuccess.name then x
    else x.clearEvent jobProgress.eventID) x

/-! ### `DefaultJobClient` -/

/-- `none` is an exception other than ReflectionException. -/
def executeXJob (newInstance : String → Instantiation) (x : Executor) (event : JobEvent) : Option Executor :=
  match newInstance event.jobClassName with
  | .created xjob => some ((x.addProgress event).add { xjob := xjob, event := event })
  | .refused => some x
  | .broken => none

def killXjob (x : Executor) (event : JobEvent) : Executor := (x.killJob event.eventID).clearEvent event.eventID

/-- `processHeartbeat`. A running event ID ends the method, whatever the event; so
does an exception, which `doReport` catches. -/
def processHeartbeat (newInstance : String → Instantiation) : List JobEvent → Executor → Executor
  | [], x => x
  | event :: events, x =>
    if x.isContainsRuningXjob event.eventID then x
    else
      match event.eventType with
      | .executeJob =>
        match x.executeXJob newInstance event with
        | some y => processHeartbeat newInstance events y
        | none => x
      | .killJob => processHeartbeat newInstance events (x.killXjob event)
      | .other => processHeartbeat newInstance events x

end Executor

end Hella

import Hella.Engine.Store

/-!
# Node handlers

One handler class per node type. A handler runs on the state of one workflow
instance, `Run`: the status and the variables of `LiteWorkflowInstance`, the shared
`Store`, and a history of what the instance did. The history is written only; no
code reads it.
-/
namespace Hella

open Exec Text

/-- What an instance does to itself and to the outside, in order. -/
inductive Act where
  /-- a value is assigned to `status` -/
  | assigned (status : WorkflowStatus)
  /-- `completeJobPlanNode` is called for a node and a row -/
  | completing (node : String) (xjobStateID : Nat)
  /-- the `enter` method of the node's handler is called -/
  | entered (node : String)
  /-- an XjobState row is saved -/
  | added (xjobStateID : Nat)
  /-- an EXECUTE_JOB event is handed to the dispatcher -/
  | dispatched (node : String) (xjobStateID : Nat) (event : JobEvent)
  /-- the fork handler writes the pair's variable -/
  | forked (fork join : String) (paths : Nat)
  /-- the join handler reads the pair's variable -/
  | peeked (fork join : String)
  /-- the join handler writes back what is left -/
  | arrived (fork join : String) (left : Nat)
  /-- the join handler removes the pair's variable -/
  | released (fork join : String)
  /-- `processNextNodes` takes up the successors of a node -/
  | passed (node : String) (xjobStateID : Nat) (targets : List (Option String))
  deriving DecidableEq, Repr

structure Run where
  status : WorkflowStatus := .prep
  vars : JMap String := ∅
  trace : List Act := []
  store : Store := {}

abbrev RunM := EStateM Throwable Run

def onStore {α : Type} (body : StoreM α) : RunM α := zoom Run.store (fun s t => { s with store := t }) body

theorem onStore_apply {α : Type} (body : StoreM α) (s : Run) :
    onStore body s = match body s.store with
      | .ok a store => .ok a { s with store := store }
      | .error e store => .error e { s with store := store } := by
  unfold onStore zoom
  cases body s.store <;> rfl

def record (act : Act) : RunM Unit := modify fun s => { s with trace := s.trace ++ [act] }

def setStatus (status : WorkflowStatus) : RunM Unit :=
  modify fun s => { s with status := status, trace := s.trace ++ [.assigned status] }

/-- A `try` block whose `catch (Exception e)` only logs. -/
def attempt {α : Type} (body : RunM α) (otherwise : α) : RunM α :=
  catching Throwable.isException body fun _ => pure otherwise

/-- `JobPlanNodeContext`; its workflow instance is the one the code runs on. -/
structure NodeContext where
  jobProgress : Option JobProgress := none
  jobPlanNodeState : Option JobPlanNodeState := none
  deriving DecidableEq, Repr

/-- The loop of `LiteWorkflowManager.addNode`, with the names put into `nodesMap` so far. -/
def addNode : List JobPlanNode → List String → Bool → Except Throwable Unit
  | [], _, complete =>
    if complete then .ok () else .error (.workflowException "this end node has not defined")
  | node :: rest, names, complete =>
    -- either check throws inside a try block that wraps it in the same message
    if node.name ∈ names ∨ node.toNode = some node.name then
      .error (.workflowException ("Node " ++ node.name ++ " cannot transition to itself"))
    else addNode rest (names ++ [node.name]) (complete || node.type == .end_)

/-- No two nodes of an accepted plan have the same name. -/
theorem addNode_nodup {nodes : List JobPlanNode} {names : List String} {complete : Bool}
    (accepted : addNode nodes names complete = .ok ()) (distinct : names.Nodup) :
    (names ++ nodes.map (·.name)).Nodup := by
  induction nodes generalizing names complete with
  | nil => simpa using distinct
  | cons node rest ih =>
    rw [addNode] at accepted
    split at accepted
    · cases accepted
    next fresh =>
      have absent : node.name ∉ names := fun member => fresh (.inl member)
      have extended : (names ++ [node.name]).Nodup := by
        simp [List.nodup_append, distinct]
        exact fun name member same => absent (same ▸ member)
      simpa using ih accepted extended

/-- A plan the constructor of `LiteWorkflowManager` accepted. -/
structure LiteWorkflowManager where
  jobExecutionPlan : JobExecutionPlan
  accepted : addNode jobExecutionPlan.jobPlanNodeList [] false = .ok ()

namespace LiteWorkflowManager

def getNode (m : LiteWorkflowManager) (name : String) : Option JobPlanNode :=
  m.jobExecutionPlan.jobPlanNodeList.find? (·.name = name)

def getStartNodeName (m : LiteWorkflowManager) : Option String :=
  (m.jobExecutionPlan.jobPlanNodeList.find? (·.type = .start)).map (·.name)

theorem getNode_start {m : LiteWorkflowManager} {name : String} (found : m.getStartNodeName = some name) :
    ∃ node, m.getNode name = some node ∧ node.type = .start := by
  obtain ⟨node, first, rfl⟩ := Option.map_eq_some_iff.mp found
  have member := List.mem_of_find?_eq_some first
  have type : node.type = .start := by simpa using List.find?_some first
  have distinct : (m.jobExecutionPlan.jobPlanNodeList.map (·.name)).Nodup := by
    simpa using addNode_nodup m.accepted List.nodup_nil
  have exists_some : (m.getNode node.name).isSome := by
    simp only [getNode, List.find?_isSome]
    exact ⟨node, member, by simp⟩
  obtain ⟨other, same⟩ := Option.isSome_iff_exists.mp exists_some
  have name_eq : other.name = node.name := by simpa using List.find?_some same
  have equal := List.inj_on_of_nodup_map distinct (List.mem_of_find?_eq_some same) member name_eq
  exact ⟨node, equal ▸ same, type⟩

end LiteWorkflowManager

/-- The fields of `LiteWorkflowInstance` that `initialize` sets for good. -/
structure Workflow where
  workflowManager : LiteWorkflowManager
  engineRunKey : Nat
  args : Option String := none

namespace Workflow

def jobExecutionPlan (wf : Workflow) : JobExecutionPlan := wf.workflowManager.jobExecutionPlan

def getNode (wf : Workflow) (name : String) : Option JobPlanNode := wf.workflowManager.getNode name

def getWorkflowKey (wf : Workflow) : String := toString wf.engineRunKey ++ toString wf.jobExecutionPlan.id

end Workflow

/-- A handler object. Only `ActionNodeHandler` has the field `xjobContext`, null
until its `enter` runs. -/
structure NodeHandler where
  jobPlanNode : JobPlanNode
  xjobContext : Option NodeContext := none

section Handlers

variable (env : Env) (wf : Workflow)

def checkCurrentExecutorKey : RunM Unit :=
  if isBlank (some wf.getWorkflowKey) then
    throw (.workflowException "this currentExecutorKey has not initialized ")
  else pure ()

/-- The guards every `exit` method starts with. -/
def checkJobProgress (context : NodeContext) : RunM JobProgress := do
  checkCurrentExecutorKey wf
  match context.jobProgress with
  | none => throw (.workflowException "this jobProgress has not initialized ")
  | some jobProgress =>
    if jobProgress.xjobStateID = 0 then
      throw (.workflowException "this jobProgress has not initialized ")
    else return jobProgress

def loadXjobState (xjobStateID : Nat) : RunM XjobState := do
  match ← onStore (Store.queryXjobState env xjobStateID) with
  | none => throw (.workflowException "this xjobState is null")
  | some xjobState => return xjobState

def newXjobState (node : JobPlanNode) (runTime : String) : XjobState :=
  { jobPlanNodeID := node.id, currentExecutorKey := wf.getWorkflowKey, runTime := some runTime }

def addJobState (xjobState : XjobState) : RunM XjobState := do
  let saved ← onStore (Store.addJobState env xjobState)
  record (.added saved.id)
  return saved

def executeXJob (node : JobPlanNode) (xjobStateID : Nat) (args : Option String) : RunM Unit := do
  let event ← onStore (Store.executeXJob env wf.getWorkflowKey node xjobStateID .auto args)
  record (.dispatched node.name xjobStateID event)

/-- The context `enter` leaves behind: the row's id and state. -/
def contextOf (xjobState : XjobState) : NodeContext :=
  { jobProgress := some
      { executorType := ""
        jobPlanNodeState := xjobState.jobPlanNodeState.name
        xjobStateID := xjobState.id }
    jobPlanNodeState := some xjobState.jobPlanNodeState }

namespace StartNodeHandler

def enter (node : JobPlanNode) (context : NodeContext) : RunM (Bool × NodeContext) := do
  checkCurrentExecutorKey wf
  attempt (do
    let xjobState ← addJobState env (newXjobState wf node (← onStore (Store.newDate env)))
    return (true, contextOf xjobState)) (false, context)

def exit (node : JobPlanNode) (context : NodeContext) : RunM (Option String) := do
  let jobProgress ← checkJobProgress wf context
  let xjobState ← loadXjobState env jobProgress.xjobStateID
  let runTime ← onStore (Store.newDate env)
  let state : JobPlanNodeState := if isBlank node.toNode then .resultError else .resultSuccess
  attempt (do
    onStore (Store.updJobState env { xjobState with runTime := some runTime, jobPlanNodeState := state })
    onStore (Store.changeJobExecutionPlanCurrentXjobState env wf.jobExecutionPlan.id .doing)) ()
  return node.toNode

end StartNodeHandler

namespace ActionNodeHandler

def enter (node : JobPlanNode) : RunM (Bool × NodeContext) := do
  let fresh := newXjobState wf node (← onStore (Store.newDate env))
  -- a row that could not be saved keeps the id 0 and the job runs all the same
  let xjobState ← attempt (addJobState env fresh) fresh
  executeXJob env wf node xjobState.id wf.args
  attempt (onStore (Store.updJobState env { xjobState with jobPlanNodeState := .notifySuccess })) ()
  return (true, contextOf xjobState)

/-- `redoXjob` reads the key from the handler's own `xjobContext`, not from the
context `exit` was called with. -/
def redoXjob (handler : NodeHandler) (xjobState : XjobState) : RunM Unit := do
  match handler.xjobContext with
  | none => throw .nullPointerException
  | some _ =>
    executeXJob env wf handler.jobPlanNode xjobState.id none
    attempt (onStore (Store.updJobState env
      { xjobState with
        executeTimes := xjobState.executeTimes + 1, jobPlanNodeState := .notifySuccess })) ()

def exit (handler : NodeHandler) (context : NodeContext) : RunM (Option String) := do
  let jobProgress ← checkJobProgress wf context
  match JobPlanNodeState.valueOf jobProgress.jobPlanNodeState with
  | none => throw .illegalArgumentException
  | some state =>
    if !state.isResultState then
      throw (.workflowException "this jobPlanNodeState is not resultState ")
    else
      let stored ← loadXjobState env jobProgress.xjobStateID
      let xjobState := { stored with
        runTime := jobProgress.runTime
        runInfo := jobProgress.runInfo
        finishedPercent := jobProgress.progress
        jobPlanNodeState := state }
      attempt (onStore (Store.updJobState env xjobState)) ()
      if state = .resultSuccess then return handler.jobPlanNode.okNode
      else if state = .resultError then
        if handler.jobPlanNode.errorMaxRedoTimes > 0 ∧
            xjobState.executeTimes < handler.jobPlanNode.errorMaxRedoTimes then
          redoXjob env wf handler xjobState
          return none
        else return handler.jobPlanNode.errorNode
      else return none

end ActionNodeHandler

namespace ForkNodeHandler

def multiExit (node : JobPlanNode) : RunM (List String) := do
  match node.toNode with
  | none => throw .nullPointerException
  | some toNode =>
    let toNodes := split toNode
    let joinName := orNull node.joinName
    modify fun s => { s with
      vars := s.vars.insert (node.name ++ joinName) (toString toNodes.length)
      trace := s.trace ++ [.forked node.name joinName toNodes.length] }
    return toNodes

end ForkNodeHandler

namespace JoinNodeHandler

def enter (node : JobPlanNode) : RunM Bool := do
  let forkName := orNull node.forkName
  record (.peeked forkName node.name)
  match (← get).vars.lookup (forkName ++ node.name) with
  | none => throw (.workflowException "fork count is null")
  | some forkCount =>
    match parseInt forkCount with
    | none => throw .numberFormatException
    | some forks =>
      let count := forks - 1
      if count > 0 then
        modify fun s => { s with
          vars := s.vars.insert (forkName ++ node.name) (toString count)
          trace := s.trace ++ [.arrived forkName node.name count.toNat] }
        return false
      else return count = 0

def exit (node : JobPlanNode) : RunM (Option String) := do
  let forkName := orNull node.forkName
  modify fun s => { s with
    vars := s.vars.erase (forkName ++ node.name)
    trace := s.trace ++ [.released forkName node.name] }
  return node.toNode

end JoinNodeHandler

namespace FailNodeHandler

def enter (node : JobPlanNode) : RunM (Bool × NodeContext) := do
  let saved ← addJobState env (newXjobState wf node (← onStore (Store.newDate env)))
  if node.xjobMeta.isSome then
    let notified ← attempt (do executeXJob env wf node saved.id wf.args; return true) false
    let xjobState := { saved with
      jobPlanNodeState := if notified then .notifySuccess else .notifyFail }
    onStore (Store.updJobState env xjobState)
    return (false, contextOf xjobState)
  else return (false, contextOf saved)

/-- Turn one row that is still running into a failed one. -/
def failRunning (x : XjobState) : RunM Unit := do
  if x.jobPlanNodeState.isRunningState then
    let runTime ← onStore (Store.newDate env)
    onStore (Store.updJobState env { x with
      runInfo := some ("由[" ++ x.jobPlanNodeState.getStateName ++ "]自动转为[失败]" ++ orNull x.runInfo)
      runTime := some runTime
      jobPlanNodeState := .resultError })

def exit (context : NodeContext) : RunM (Option String) := do
  let jobProgress ← checkJobProgress wf context
  let xjobState ← loadXjobState env jobProgress.xjobStateID
  let runTime ← onStore (Store.newDate env)
  attempt (do
    onStore (Store.updJobState env
      { xjobState with runTime := some runTime, jobPlanNodeState := .resultSuccess })
    onStore (Store.changeJobExecutionPlanCurrentXjobState env wf.jobExecutionPlan.id .error)
    let xjobStateList ← onStore (Store.queryXjobStateByCurrentExecutorKey env wf.getWorkflowKey)
    xjobStateList.forM (failRunning env)) ()
  return none

end FailNodeHandler

namespace EndNodeHandler

/-- Start the job of an end node, if it has one. -/
def notify (node : JobPlanNode) (xjobStateID : Nat) : RunM JobPlanNodeState := do
  if node.xjobMeta.isSome then
    executeXJob env wf node xjobStateID wf.args
    return .notifySuccess
  else return .init

/-- The job is started before the row is saved, so it is started with the row id 0. -/
def enter (node : JobPlanNode) : RunM (Bool × NodeContext) := do
  let fresh := newXjobState wf node (← onStore (Store.newDate env))
  let xjobState := { fresh with jobPlanNodeState := ← notify env wf node fresh.id }
  let xjobState ← attempt (addJobState env xjobState) xjobState
  return (false, contextOf xjobState)

def exit (node : JobPlanNode) (context : NodeContext) : RunM (Option String) := do
  let jobProgress ← checkJobProgress wf context
  let xjobState ← loadXjobState env jobProgress.xjobStateID
  let runTime ← onStore (Store.newDate env)
  attempt (do
    onStore (Store.updJobState env
      { xjobState with runTime := some runTime, jobPlanNodeState := .resultSuccess })
    onStore (Store.changeJobExecutionPlanCurrentXjobState env wf.jobExecutionPlan.id .success)) ()
  match ← onStore (Store.queryJobPlan env node.jobExecutionPlanID) with
  | none => return none
  | some jobExecutionPlan =>
    match jobExecutionPlan.event with
    | none => return none
    | some event =>
      if isBlank (some event) then return none
      else
        onStore (Store.produceJobEvent event)
        return none

end EndNodeHandler

/-- `NodeHandlerFactory.createNodeHandler`; a null node fails on its type. -/
def createNodeHandler : Option JobPlanNode → RunM NodeHandler
  | none => throw .nullPointerException
  | some node => return { jobPlanNode := node }

namespace NodeHandler

/-- `enter`: whether to exit at once, with the handler and the context it leaves. -/
def enter (handler : NodeHandler) (context : NodeContext) :
    RunM (Bool × NodeHandler × NodeContext) := do
  let node := handler.jobPlanNode
  record (.entered node.name)
  match node.type with
  | .start =>
    let (exiting, context) ← StartNodeHandler.enter env wf node context
    return (exiting, handler, context)
  | .action =>
    let (exiting, context) ← ActionNodeHandler.enter env wf node
    return (exiting, { handler with xjobContext := some context }, context)
  | .fork => return (true, handler, context)
  | .join => return (← JoinNodeHandler.enter node, handler, context)
  | .fail =>
    let (exiting, context) ← FailNodeHandler.enter env wf node
    return (exiting, handler, context)
  | .end_ =>
    let (exiting, context) ← EndNodeHandler.enter env wf node
    return (exiting, handler, context)

/-- `multiExit`: the names of the successors, each possibly null; the list of an
end node is itself null. -/
def multiExit (handler : NodeHandler) (context : NodeContext) :
    RunM (Option (List (Option String))) := do
  let node := handler.jobPlanNode
  match node.type with
  | .start => return some [← StartNodeHandler.exit env wf node context]
  | .action => return some [← ActionNodeHandler.exit env wf handler context]
  | .fork => return some ((← ForkNodeHandler.multiExit node).map some)
  | .join => return some [← JoinNodeHandler.exit node]
  | .fail => return some [← FailNodeHandler.exit env wf context]
  | .end_ => return none

end NodeHandler

end Handlers

end Hella

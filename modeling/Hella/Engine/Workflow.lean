import Hella.Engine.NodeHandlers

/-!
# `LiteWorkflowInstance`

`signal` and `processNextNodes` call each other in the source. Here
`processNextNodes` takes `signal` as an argument and the recursion is on the depth
of nested `signal` calls, so that running out of it is the StackOverflowError a
plan with a cycle of start, fork and join nodes ends in.
-/
namespace Hella

open Exec

variable (env : Env) (wf : Workflow)

/-- One turn of the loop in `processNextNodes`. A final-type node is entered here
and not through `signal`, whatever the status is by then. -/
def processNextNode (signal : String → NodeContext → RunM Unit) (name : Option String) : RunM Unit := do
  match name.bind wf.getNode with
  | none => pure ()
  | some nextNode =>
    let nextcontext : NodeContext := {}
    if !nextNode.type.isFinalType then
      signal nextNode.name nextcontext
    else
      let handler ← createNodeHandler (some nextNode)
      let (_, _, nextcontext) ← handler.enter env wf nextcontext
      if nextNode.type = .end_ then
        let _ ← EndNodeHandler.exit env wf nextNode nextcontext
        setStatus .succeeded
      else if nextNode.type = .fail then
        let _ ← FailNodeHandler.exit env wf nextcontext
        setStatus .failed
      else pure ()

/-- `processNextNodes`. The status is tested once, before the loop. The node and
row that control leaves are for the history only. -/
def processNextNodes (signal : String → NodeContext → RunM Unit) (node : String) (xjobStateID : Nat)
    (multiExit : Option (List (Option String))) : RunM Unit := do
  if (← get).status.isEndState then return
  else
    match multiExit with
    | none => throw .nullPointerException
    | some names =>
      record (.passed node xjobStateID names)
      names.forM (processNextNode env wf signal)

/-- The row a context is about, for the history. -/
def NodeContext.xjobStateID (context : NodeContext) : Nat := (context.jobProgress.map (·.xjobStateID)).getD 0

/-- The `catch` block around a handler: log and fail the workflow. -/
def failing (body : RunM Unit) : RunM Unit :=
  catching Throwable.isException body fun _ => setStatus .failed

def signal : Nat → String → NodeContext → RunM Unit
  | 0, _, _ => throw .stackOverflowError
  | depth + 1, nodeName, context => do
    if (← get).status ≠ .running then return
    else failing do
      let handler ← createNodeHandler (wf.getNode nodeName)
      let (exiting, handler, context) ← handler.enter env wf context
      if exiting then
        let multiExit ← handler.multiExit env wf context
        processNextNodes env wf (signal depth) nodeName context.xjobStateID multiExit

def start : RunM Unit := do
  if (← get).status ≠ .prep then
    throw (.workflowException " Work flowInstance has not PREP ")
  else
    setStatus .running
    match wf.workflowManager.getStartNodeName with
    | none => throw (.workflowException " Work start node has not find ")
    | some startNodeName => signal env wf env.stackDepth startNodeName {}

def completeJobPlanNode (nodeName : String) (context : NodeContext) : RunM Unit := do
  record (.completing nodeName context.xjobStateID)
  failing do
    let handler ← createNodeHandler (wf.getNode nodeName)
    let multiExit ← handler.multiExit env wf context
    processNextNodes env wf (signal env wf env.stackDepth) nodeName context.xjobStateID multiExit
  if (← get).status.isEndState then
    onStore (Store.removeWorkflow wf.getWorkflowKey)

/-- The states of an instance between calls. Reports come only as `allowed` says;
`world` is what the rest of the engine may do to the shared store meanwhile. -/
inductive Reaches (world : Store → Store → Prop) (allowed : Run → String → NodeContext → Prop) :
    Run → Prop where
  | initial (store : Store) : Reaches world allowed { store := store }
  | starting {s : Run} (before : Reaches world allowed s) : Reaches world allowed (after (start env wf s))
  | completing {s : Run} {name : String} {context : NodeContext} (before : Reaches world allowed s)
      (allows : allowed s name context) :
      Reaches world allowed (after (completeJobPlanNode env wf name context s))
  | elsewhere {s : Run} {store : Store} (before : Reaches world allowed s)
      (changes : world s.store store) : Reaches world allowed { s with store := store }

/-! ### A plan for concrete runs -/

namespace Diamond

def node (id : Nat) (type : JobPlanNodeType) (name : String) : JobPlanNode :=
  { id := id, jobExecutionPlanID := 1, type := type, name := name, executorClusterID := "c" }

def action (id : Nat) (name next : String) : JobPlanNode :=
  { node id .action name with
    okNode := some next, errorNode := some "fail"
    xjobMeta := some { mode := "local", executionContent := "run.sh", jobClassName := "shell" } }

/-- One action, then two in parallel. -/
def plan : JobExecutionPlan where
  id := 1
  event := some "done"
  jobPlanNodeList :=
    [{ node 1 .start "start" with toNode := some "a" },
     action 2 "a" "f",
     { node 3 .fork "f" with toNode := some "x,y", joinName := some "j" },
     action 4 "x" "j",
     action 5 "y" "j",
     { node 6 .join "j" with toNode := some "end", forkName := some "f" },
     node 7 .fail "fail",
     node 8 .end_ "end"]

def workflow : Workflow := { workflowManager := ⟨plan, rfl⟩, engineRunKey := 1000 }

def store : Store := { jobPlans := [plan] }

def started : Run := after (start Env.calm workflow { store := store })

/-- A report with the given result for the given row. -/
def report (state : JobPlanNodeState) (xjobStateID : Nat) : NodeContext :=
  { jobProgress := some { executorType := "Auto", jobPlanNodeState := state.name, xjobStateID := xjobStateID } }

def branched : Run := after (completeJobPlanNode Env.calm workflow "a" (report .resultSuccess 2) started)

def waiting : Run := after (completeJobPlanNode Env.calm workflow "y" (report .resultSuccess 4) branched)

/-- The first action has been reported, then the second path, then the first one. -/
def finished : Run := after (completeJobPlanNode Env.calm workflow "x" (report .resultSuccess 3) waiting)

end Diamond

end Hella

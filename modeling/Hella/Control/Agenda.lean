import Hella.Engine.Workflow
import Mathlib.Logic.Relation
import Mathlib.Data.List.ReduceOption

/-!
# The agenda machine

What an instance still has to do is a list of duties, taken up from the head. A
`Move` is one thing the code can do to the status, the variables and the history
while it works through the agenda. The machine has no store: whether a row was
saved or a query failed only decides which move is taken.
-/
namespace Hella

open Text

inductive Due where
  /-- a successor to be looked up and entered -/
  | enter (name : String)
  /-- control is inside the node's handler -/
  | inside (name : String)
  /-- a report for the node is being handled -/
  | answering (name : String) (context : NodeContext)
  /-- the node has named its successors -/
  | leave (name : String) (targets : List (Option String))
  deriving DecidableEq

structure Agenda where
  status : WorkflowStatus := .prep
  vars : JMap String := ∅
  trace : List Act := []
  due : List Due := []

/-- The variable of a fork/join pair. -/
def pairVar (fork join : String) : String := fork ++ join

/-- What an entry of the history did to the variables. -/
def Act.write : Act → JMap String → JMap String
  | .forked fork join paths, vars => vars.insert (pairVar fork join) (toString paths)
  | .arrived fork join left, vars => vars.insert (pairVar fork join) (toString left)
  | .released fork join, vars => vars.erase (pairVar fork join)
  | _, vars => vars

/-- The variables a history leaves behind. -/
def varsOf (trace : List Act) : JMap String := trace.foldl (fun vars act => act.write vars) ∅

@[simp] theorem varsOf_nil : varsOf [] = ∅ := rfl

@[simp] theorem varsOf_append (trace : List Act) (act : Act) :
    varsOf (trace ++ [act]) = act.write (varsOf trace) := by simp [varsOf]

def Run.agenda (s : Run) (due : List Due) : Agenda := ⟨s.status, s.vars, s.trace, due⟩

/-- The state an action reported, if it is one. -/
def NodeContext.reported (context : NodeContext) : Option JobPlanNodeState :=
  context.jobProgress.bind fun progress => JobPlanNodeState.valueOf progress.jobPlanNodeState

/-- The successor a report sends control to. -/
def JobPlanNode.answer (node : JobPlanNode) : JobPlanNodeState → Option String
  | .resultSuccess => node.okNode
  | .resultError => node.errorNode
  | _ => none

section Machine

variable (env : Env) (wf : Workflow) (allowed : List Act → String → NodeContext → Prop)

inductive Move : Agenda → Agenda → Prop where
  /-- `start` on a fresh instance -/
  | starts {vars trace name} (found : wf.workflowManager.getStartNodeName = some name) :
    Move ⟨.prep, vars, trace, []⟩ ⟨.running, vars, trace ++ [.assigned .running], [.enter name]⟩
  | startsNowhere {vars trace} (missing : wf.workflowManager.getStartNodeName = none) :
    Move ⟨.prep, vars, trace, []⟩ ⟨.running, vars, trace ++ [.assigned .running], []⟩
  /-- `completeJobPlanNode` is called -/
  | completes {status vars trace name context} (allows : allowed trace name context) :
    Move ⟨status, vars, trace, []⟩
      ⟨status, vars, trace ++ [.completing name context.xjobStateID], [.answering name context]⟩
  /-- `signal` returns at once, or the name denotes no node -/
  | skips {status vars trace name rest} (stopped : status ≠ .running) :
    Move ⟨status, vars, trace, .enter name :: rest⟩ ⟨status, vars, trace, rest⟩
  | absent {status vars trace name rest} (missing : wf.getNode name = none) :
    Move ⟨status, vars, trace, .enter name :: rest⟩ ⟨status, vars, trace, rest⟩
  | enters {status vars trace name node rest} (found : wf.getNode name = some node)
      (live : node.type.isFinalType = false → status = .running) :
    Move ⟨status, vars, trace, .enter name :: rest⟩
      ⟨status, vars, trace ++ [.entered name], .inside name :: rest⟩
  | saves {status vars trace due} (id : Nat) :
    Move ⟨status, vars, trace, due⟩ ⟨status, vars, trace ++ [.added id], due⟩
  /-- an action waits for its report once its job is dispatched -/
  | dispatches {status vars trace name node rest} (found : wf.getNode name = some node)
      (type : node.type = .action) (id : Nat) (event : JobEvent) :
    Move ⟨status, vars, trace, .inside name :: rest⟩
      ⟨status, vars, trace ++ [.dispatched name id event], rest⟩
  | dispatchesLast {status vars trace name node rest} (found : wf.getNode name = some node)
      (type : node.type = .end_ ∨ node.type = .fail) (id : Nat) (event : JobEvent) :
    Move ⟨status, vars, trace, .inside name :: rest⟩
      ⟨status, vars, trace ++ [.dispatched name id event], .inside name :: rest⟩
  /-- the start node's row could not be saved -/
  | stalls {status vars trace name node rest} (found : wf.getNode name = some node)
      (type : node.type = .start) (fault : ∃ n, env.daoSucceeds n = false) :
    Move ⟨status, vars, trace, .inside name :: rest⟩ ⟨status, vars, trace, rest⟩
  | begins {status vars trace name node rest} (found : wf.getNode name = some node)
      (type : node.type = .start) :
    Move ⟨status, vars, trace, .inside name :: rest⟩ ⟨status, vars, trace, .leave name [node.toNode] :: rest⟩
  | forks {status vars trace name node toNode rest} (found : wf.getNode name = some node)
      (type : node.type = .fork) (paths : node.toNode = some toNode) :
    Move ⟨status, vars, trace, .inside name :: rest⟩
      ⟨status, vars.insert (pairVar name (orNull node.joinName)) (toString (split toNode).length),
        trace ++ [.forked name (orNull node.joinName) (split toNode).length],
        .leave name ((split toNode).map some) :: rest⟩
  | peeks {status vars trace name node rest} (found : wf.getNode name = some node)
      (type : node.type = .join) :
    Move ⟨status, vars, trace, .inside name :: rest⟩
      ⟨status, vars, trace ++ [.peeked (orNull node.forkName) name], .inside name :: rest⟩
  | arrives {status vars trace name node rest text left} (found : wf.getNode name = some node)
      (type : node.type = .join) (value : vars.lookup (pairVar (orNull node.forkName) name) = some text)
      (number : parseInt text = some ((left + 1 : Nat) : Int)) (positive : 0 < left) :
    Move ⟨status, vars, trace, .inside name :: rest⟩
      ⟨status, vars.insert (pairVar (orNull node.forkName) name) (toString left),
        trace ++ [.arrived (orNull node.forkName) name left], rest⟩
  /-- a counter below 1 is left as it is -/
  | underflows {status vars trace name node rest text number} (found : wf.getNode name = some node)
      (type : node.type = .join) (value : vars.lookup (pairVar (orNull node.forkName) name) = some text)
      (parsed : parseInt text = some number) (low : number ≤ 0) :
    Move ⟨status, vars, trace, .inside name :: rest⟩ ⟨status, vars, trace, rest⟩
  /-- nothing comes between the release and the successor -/
  | releases {status vars trace name node rest text} (found : wf.getNode name = some node)
      (type : node.type = .join) (value : vars.lookup (pairVar (orNull node.forkName) name) = some text)
      (number : parseInt text = some 1) (live : status.isEndState = false) (id : Nat) :
    Move ⟨status, vars, trace, .inside name :: rest⟩
      ⟨status, vars.erase (pairVar (orNull node.forkName) name),
        trace ++ [.released (orNull node.forkName) name] ++ [.passed name id [node.toNode]],
        [node.toNode].reduceOption.map .enter ++ rest⟩
  /-- `processNextNodes` -/
  | passes {status vars trace name targets rest} (live : status.isEndState = false) (id : Nat) :
    Move ⟨status, vars, trace, .leave name targets :: rest⟩
      ⟨status, vars, trace ++ [.passed name id targets], targets.reduceOption.map .enter ++ rest⟩
  | stops {status vars trace name targets rest} (ended : status.isEndState = true) :
    Move ⟨status, vars, trace, .leave name targets :: rest⟩ ⟨status, vars, trace, rest⟩
  | succeeds {status vars trace name node rest} (found : wf.getNode name = some node)
      (type : node.type = .end_) :
    Move ⟨status, vars, trace, .inside name :: rest⟩
      ⟨.succeeded, vars, trace ++ [.assigned .succeeded], rest⟩
  | givesUp {status vars trace name node rest} (found : wf.getNode name = some node)
      (type : node.type = .fail) :
    Move ⟨status, vars, trace, .inside name :: rest⟩ ⟨.failed, vars, trace ++ [.assigned .failed], rest⟩
  /-- a catch block: what was due inside it is dropped -/
  | fails {status vars trace due rest} (outer : rest <:+ due) :
    Move ⟨status, vars, trace, due⟩ ⟨.failed, vars, trace ++ [.assigned .failed], rest⟩
  /-- the handler of a reported node names its successor -/
  | answers {status vars trace name node context state rest} (found : wf.getNode name = some node)
      (type : node.type = .action) (report : context.reported = some state)
      (result : state.isResultState = true) :
    Move ⟨status, vars, trace, .answering name context :: rest⟩
      ⟨status, vars, trace, .leave name [node.answer state] :: rest⟩
  | answersFail {status vars trace name node context rest} (found : wf.getNode name = some node)
      (type : node.type = .fail) :
    Move ⟨status, vars, trace, .answering name context :: rest⟩ ⟨status, vars, trace, .leave name [none] :: rest⟩
  | answersEnd {status vars trace name node context rest} (found : wf.getNode name = some node)
      (type : node.type = .end_) (ended : status.isEndState = true) :
    Move ⟨status, vars, trace, .answering name context :: rest⟩ ⟨status, vars, trace, rest⟩
  | answersStart {status vars trace name node context rest} (found : wf.getNode name = some node)
      (type : node.type = .start) :
    Move ⟨status, vars, trace, .answering name context :: rest⟩
      ⟨status, vars, trace, .leave name [node.toNode] :: rest⟩
  | answersFork {status vars trace name node context rest} (found : wf.getNode name = some node)
      (type : node.type = .fork) :
    Move ⟨status, vars, trace, .answering name context :: rest⟩ ⟨status, vars, trace, .inside name :: rest⟩
  | answersJoin {status vars trace name node context rest} (found : wf.getNode name = some node)
      (type : node.type = .join) :
    Move ⟨status, vars, trace, .answering name context :: rest⟩
      ⟨status, vars.erase (pairVar (orNull node.forkName) name),
        trace ++ [.released (orNull node.forkName) name], .leave name [node.toNode] :: rest⟩

abbrev Moves : Agenda → Agenda → Prop := Relation.ReflTransGen (Move env wf allowed)

end Machine

end Hella

import Hella.Lib.Text

/-!
# Entities

The enumerations of `hella-common` and the rows and messages the engine works on,
with the fields its workflow code reads or writes.
-/
namespace Hella

inductive JobPlanNodeType where
  | start | action | fork | join | fail | end_
  deriving DecidableEq, Repr

/-- `JobPlanNodeType.finalTypes`. -/
def JobPlanNodeType.isFinalType (type : JobPlanNodeType) : Bool :=
  [.action, .fail, .end_].contains type

inductive JobPlanNodeState where
  | init | notifySuccess | notifyFail | dispatchSuccess | dispatchFail | resultSuccess | resultError
  deriving DecidableEq, Repr

namespace JobPlanNodeState

def name : JobPlanNodeState → String
  | init => "INIT"
  | notifySuccess => "NOTIFY_SUCCESS"
  | notifyFail => "NOTIFY_FAIL"
  | dispatchSuccess => "DISPATCH_SUCCESS"
  | dispatchFail => "DISPATCH_FAIL"
  | resultSuccess => "RESULT_SUCCESS"
  | resultError => "RESULT_ERROR"

def getStateName : JobPlanNodeState → String
  | init => "初始化"
  | notifySuccess => "作业通知成功，下一步进行作业调度"
  | notifyFail => "作业通知失败"
  | dispatchSuccess => "作业调度成功，正在返回结果"
  | dispatchFail => "作业调度失败"
  | resultSuccess => "成功"
  | resultError => "失败"

def values : List JobPlanNodeState :=
  [init, notifySuccess, notifyFail, dispatchSuccess, dispatchFail, resultSuccess, resultError]

/-- `none` is IllegalArgumentException. -/
def valueOf (text : String) : Option JobPlanNodeState := values.find? (·.name = text)

@[simp] theorem valueOf_name (state : JobPlanNodeState) : valueOf state.name = some state := by
  cases state <;> decide

def isResultState (state : JobPlanNodeState) : Bool :=
  [dispatchFail, resultSuccess, resultError].contains state

def isRunningState (state : JobPlanNodeState) : Bool :=
  [init, notifySuccess, dispatchSuccess].contains state

def isFailState (state : JobPlanNodeState) : Bool :=
  [notifyFail, dispatchFail, resultError].contains state

theorem not_running_of_result {state : JobPlanNodeState} (result : state.isResultState = true) :
    state.isRunningState = false := by
  cases state <;> first | rfl | simp [isResultState] at result

end JobPlanNodeState

inductive WorkflowStatus where
  | prep | running | suspended | succeeded | failed
  deriving DecidableEq, Repr

def WorkflowStatus.isEndState : WorkflowStatus → Bool
  | prep | running | suspended => false
  | succeeded | failed => true

inductive XjobExecutorType where
  | auto | once
  deriving DecidableEq, Repr

namespace XjobExecutorType

def name : XjobExecutorType → String
  | auto => "Auto"
  | once => "Once"

/-- `none` is IllegalArgumentException. -/
def valueOf (text : String) : Option XjobExecutorType := [auto, once].find? (·.name = text)

@[simp] theorem valueOf_name (type : XjobExecutorType) : valueOf type.name = some type := by
  cases type <;> decide

end XjobExecutorType

inductive DelayType where
  | soft | hard
  deriving DecidableEq, Repr

/-- `JobExecutionPlan.CurrentXjobState`. -/
inductive CurrentXjobState where
  | doing | success | error
  deriving DecidableEq, Repr

/-- `JobExecutionPlan.State`. -/
inductive PlanState where
  | able | disable
  deriving DecidableEq, Repr

structure XjobMeta where
  mode : String
  executeUser : Option String := none
  executionContent : String
  jobClassName : String
  args : Option String := none
  deriving DecidableEq, Repr

structure JobPlanNode where
  id : Nat
  jobExecutionPlanID : Nat
  type : JobPlanNodeType
  name : String
  executorClusterID : String
  forkName : Option String := none
  joinName : Option String := none
  toNode : Option String := none
  okNode : Option String := none
  errorNode : Option String := none
  delayType : Option DelayType := some .soft
  delayTime : Int := 0
  errorMaxRedoTimes : Int := 0
  errorRedoPeriod : Int := 0
  xjobMeta : Option XjobMeta := none
  deriving DecidableEq, Repr

structure JobExecutionPlan where
  id : Nat
  event : Option String := none
  ignoreError : Bool := true
  state : PlanState := .able
  currentXjobState : Option CurrentXjobState := none
  currentXjobDate : Option String := none
  jobPlanNodeList : List JobPlanNode
  deriving DecidableEq, Repr

structure XjobState where
  id : Nat := 0
  jobPlanNodeID : Nat
  currentExecutorKey : String
  jobPlanNodeState : JobPlanNodeState := .init
  runInfo : Option String := some ""
  runTime : Option String
  executeTimes : Int := 0
  finishedPercent : Int := 0
  deriving DecidableEq, Repr

/-- The number of a job event; a client supports two of them. -/
inductive EventType where
  | executeJob | killJob | other
  deriving DecidableEq, Repr

structure JobEvent where
  eventID : String
  eventType : EventType
  executorClusterID : String
  xjobExecutorType : String
  mode : String
  executeUser : Option String := none
  executionContent : String
  jobClassName : String
  argsValue : Option String := none
  jobPlanNodeName : String
  deriving DecidableEq, Repr

structure JobProgress where
  executorType : String
  jobPlanNodeState : String
  progress : Int := 0
  eventID : String := ""
  runInfo : Option String := none
  runTime : Option String := none
  xjobStateID : Nat := 0
  deriving DecidableEq, Repr

/-- What the modelled code can throw. -/
inductive Throwable where
  | workflowException (message : String)
  | daoException
  | nullPointerException
  | illegalArgumentException
  | numberFormatException
  | exception (message : String)
  | stackOverflowError
  deriving DecidableEq, Repr

/-- `catch (Exception e)` does not catch errors of the virtual machine. -/
def Throwable.isException : Throwable → Bool
  | stackOverflowError => false
  | _ => true

/-- What the engine reads from outside. The functions of a `Nat` answer the
`n`-th request, so any behaviour of the database, the clock or the scheduler is
some `Env`. -/
structure Env where
  /-- whether a DAO call succeeds -/
  daoSucceeds : Nat → Bool
  /-- the value `UniqueIDGenerator.generateID` returns -/
  generateID : Nat → Nat
  /-- `UniqueIDGenerator.prefix` -/
  idPrefix : String
  /-- `DateUtil.dateFormaterBySeconds(new Date())` -/
  now : Nat → String
  /-- minutes since a stored run time; `none` is ParseException -/
  elapsedMinutes : Nat → String → Option Int
  /-- whether Quartz pauses the job of a plan -/
  pauseJob : Nat → Bool
  /-- whether a subscription notice goes out -/
  sendSubscribe : Nat → Bool
  xjobDefaultTimeout : Int
  /-- nested `signal` calls the thread's stack has room for -/
  stackDepth : Nat

/-- An environment in which every request succeeds, for concrete runs. -/
def Env.calm : Env where
  daoSucceeds _ := true
  generateID n := n + 1000
  idPrefix := "127001"
  now _ := "20140129120000"
  elapsedMinutes _ _ := some 0
  pauseJob _ := true
  sendSubscribe _ := true
  xjobDefaultTimeout := 60
  stackDepth := 100

end Hella

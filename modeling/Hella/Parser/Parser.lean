import Hella.Engine.Entities
import Hella.Lib.Xml
import Hella.Plans.Tables

/-!
# `DefaultExecutionPlanParser`

The parser reads the document node by node, and every attribute as a text. What it fills
in are the entities as Java has them: enumerations are texts until a getter is asked.
-/
namespace Hella

open Text Xml

/-- `XjobMeta` as the parser leaves it; `none` is a field that was never set. -/
structure SubmittedJob where
  mode : String
  executeUser : String
  executionContent : Option String := none
  jobClassName : Option String := none
  args : Option String := none
  description : Option String := none
  deriving DecidableEq, Repr

/-- `JobPlanNode` as the parser leaves it. -/
structure SubmittedNode where
  type : JobPlanNodeType
  name : String
  executorClusterID : String
  forkName : Option String := none
  joinName : Option String := none
  toNode : Option String := none
  okNode : Option String := none
  errorNode : Option String := none
  delayType : String := "soft"
  delayTime : Int := 0
  errorMaxRedoTimes : Int := 0
  errorRedoPeriod : Int := 0
  xjobMeta : Option SubmittedJob := none
  deriving DecidableEq, Repr

/-- `JobExecutionPlan` as the parser leaves it. -/
structure SubmittedPlan where
  clusterID : String
  createDate : String
  jobPlanType : String
  jepID : String
  jepName : String
  cronType : String
  cronExpression : String
  event : String
  ignoreError : Bool
  jobPlanNodeList : List SubmittedNode
  deriving DecidableEq, Repr

/-- `Enum.valueOf` behind a getter: null for a blank text, an exception for a name that no
constant has. -/
def enumGetter {E : Type} (constants : List (String × E)) (text : String) : Except Throwable (Option E) :=
  if isBlank (some text) then .ok none
  else
    match constants.lookup text with
    | none => .error .illegalArgumentException
    | some constant => .ok (some constant)

def DelayType.constants : List (String × DelayType) := [("soft", .soft), ("hard", .hard)]

def JobPlanType.constants : List (String × JobPlanType) := [("local", .local_), ("distributed", .distributed)]

def SubmittedNode.getDelayTypeEnum (node : SubmittedNode) : Except Throwable (Option DelayType) :=
  enumGetter DelayType.constants node.delayType

def SubmittedPlan.getJobPlanTypeEnum (plan : SubmittedPlan) : Except Throwable (Option JobPlanType) :=
  enumGetter JobPlanType.constants plan.jobPlanType

/-- The job the engine works on. -/
def SubmittedJob.xjobMeta (job : SubmittedJob) : XjobMeta :=
  { mode := job.mode
    executeUser := some job.executeUser
    executionContent := job.executionContent.getD ""
    jobClassName := job.jobClassName.getD ""
    args := job.args }

/-- The node the engine works on; it gets its keys when it is saved. -/
def SubmittedNode.jobPlanNode (node : SubmittedNode) : JobPlanNode :=
  { id := 0
    jobExecutionPlanID := 0
    type := node.type
    name := node.name
    executorClusterID := node.executorClusterID
    forkName := node.forkName
    joinName := node.joinName
    toNode := node.toNode
    okNode := node.okNode
    errorNode := node.errorNode
    delayType := DelayType.constants.lookup node.delayType
    delayTime := node.delayTime
    errorMaxRedoTimes := node.errorMaxRedoTimes
    errorRedoPeriod := node.errorRedoPeriod
    xjobMeta := node.xjobMeta.map SubmittedJob.xjobMeta }

namespace ExecutionPlanParser

abbrev ParserM := Except Throwable

def getAttributes (node : Node) : ParserM (List (String × String)) :=
  match node.getAttributes with
  | none => throw .nullPointerException
  | some attributes => return attributes

/-- `getAttributes().getNamedItem(property).getNodeValue().trim()`. -/
def requiredProperty (node : Node) (property : String) : ParserM String := do
  match (← getAttributes node).lookup property with
  | none => throw .nullPointerException
  | some value => return trim value

/-- The attribute's text, trimmed, or the empty text. -/
def getProperty (node : Node) (property : String) : ParserM String := do
  match (← getAttributes node).lookup property with
  | none => return ""
  | some value => return trim value

theorem requiredProperty_eq {node : Node} {property value : String}
    (read : node.getAttribute property = some value) :
    requiredProperty node property = .ok (trim (node.attributeText property)) := by
  rw [Node.attributeText, read]
  cases node with
  | element name attributes children =>
    have found : attributes.lookup property = some value := read
    simp [requiredProperty, getAttributes, Node.getAttributes, found]
    rfl
  | text data => cases read
  | instruction target data => cases read

/-- `getProperty` with a default value, which stands for an empty text as well. -/
def getPropertyOr (node : Node) (property defaultValue : String) : ParserM String := do
  let value ← getProperty node property
  return if value = "" then defaultValue else value

/-- `Boolean.valueOf`: true for that word alone, in any case. -/
def booleanValueOf (text : String) : Bool := text.toLower == "true"

def getBooleanProperty (node : Node) (property : String) (defaultValue : Bool) : ParserM Bool := do
  match (← getAttributes node).lookup property with
  | none => return defaultValue
  | some value => return booleanValueOf (trim value)

def getIntegerProperty (node : Node) (property : String) (defaultValue : Int) : ParserM Int := do
  match (← getAttributes node).lookup property with
  | none => return defaultValue
  | some value =>
    match integerValueOf (trim value) with
    | none => throw .numberFormatException
    | some number => return number

/-- The child elements; every builder passes over the other nodes inside an element. -/
def onElements {α : Type} (step : α → Node → ParserM α) (node : Node) (initial : α) : ParserM α :=
  node.elements.foldlM step initial

/-- One child of a job element. -/
def jobPropertie (xjobMeta : SubmittedJob) (node : Node) : ParserM SubmittedJob :=
  if node.getNodeName = "executionContent" then return { xjobMeta with executionContent := some node.getTextContent }
  else if node.getNodeName = "jobClassName" then return { xjobMeta with jobClassName := some node.getTextContent }
  else if node.getNodeName = "args" then return { xjobMeta with args := some node.getTextContent }
  else if node.getNodeName = "description" then return { xjobMeta with description := some node.getTextContent }
  else return xjobMeta

def getXjobMeta (properties : Node) : ParserM SubmittedJob := do
  let executeUser ← getProperty properties "executeUser"
  let mode ← getProperty properties "mode"
  onElements jobPropertie properties { mode := mode, executeUser := executeUser }

/-- A traversal in which nothing fails answers with the answers of its steps. -/
theorem mapM_ok {α β : Type} {step : α → ParserM β} {answer : α → β} {items : List α}
    (each : ∀ item ∈ items, step item = .ok (answer item)) : items.mapM step = .ok (items.map answer) := by
  induction items with
  | nil => rfl
  | cons item rest ih =>
    rw [List.mapM_cons, each item (by simp), ih fun other member => each other (by simp [member])]
    rfl

/-- The targets of a fork's paths, each trimmed. -/
def forkPaths (jobNode : Node) : ParserM (List String) :=
  (jobNode.elements.filter (·.getNodeName = "path")).mapM (requiredProperty · "to")

def buildForkNode (jobNode : Node) (defaultExecutorClusterID : String) : ParserM SubmittedNode := do
  let name ← requiredProperty jobNode "name"
  let joinName ← requiredProperty jobNode "joinName"
  let forkName ← forkPaths jobNode
  return {
    type := .fork
    name := name
    executorClusterID := defaultExecutorClusterID
    joinName := some joinName
    toNode := some (",".intercalate forkName) }

def buildStartNode (jobNode : Node) (defaultExecutorClusterID : String) : ParserM SubmittedNode := do
  let toNode ← requiredProperty jobNode "to"
  return { type := .start, name := "start", executorClusterID := defaultExecutorClusterID, toNode := some toNode }

def buildJoinNode (jobNode : Node) (defaultExecutorClusterID : String) : ParserM SubmittedNode := do
  let name ← requiredProperty jobNode "name"
  let toNode ← requiredProperty jobNode "to"
  let forkName ← requiredProperty jobNode "forkName"
  return {
    type := .join
    name := name
    executorClusterID := defaultExecutorClusterID
    forkName := some forkName
    toNode := some toNode }

/-- One child of an action element. -/
def xjobPropertie (jobPlanNode : SubmittedNode) (properties : Node) : ParserM SubmittedNode := do
  if properties.getNodeName = "job" then
    let xjobMeta ← getXjobMeta properties
    return { jobPlanNode with xjobMeta := some xjobMeta }
  else if properties.getNodeName = "ok" then
    let okNode ← requiredProperty properties "to"
    return { jobPlanNode with okNode := some okNode }
  else if properties.getNodeName = "error" then
    let errorNode ← requiredProperty properties "to"
    return { jobPlanNode with errorNode := some errorNode }
  else return jobPlanNode

/-- A delay type that is not blank has to be the name of a constant; it is set as it was read. -/
def checkDelayType (delayType : String) : ParserM Unit := do
  let _ ← enumGetter DelayType.constants delayType
  return ()

def buildActionNode (jobNode : Node) (defaultExecutorClusterID : String) : ParserM SubmittedNode := do
  let name ← getProperty jobNode "name"
  let delayType ← getProperty jobNode "delayType"
  let delayTime ← getIntegerProperty jobNode "delayTime" 0
  let errorMaxRedoTimes ← getIntegerProperty jobNode "errorMaxRedoTimes" 0
  let errorRedoPeriod ← getIntegerProperty jobNode "errorRedoPeriod" 0
  let executorClusterID ← getPropertyOr jobNode "executorClusterID" defaultExecutorClusterID
  checkDelayType delayType
  onElements xjobPropertie jobNode {
    type := .action
    name := name
    executorClusterID := executorClusterID
    delayType := delayType
    delayTime := delayTime
    errorMaxRedoTimes := errorMaxRedoTimes
    errorRedoPeriod := errorRedoPeriod }

/-- One child of a fail or an end element. -/
def closingPropertie (jobPlanNode : SubmittedNode) (properties : Node) : ParserM SubmittedNode := do
  if properties.getNodeName = "job" then
    let xjobMeta ← getXjobMeta properties
    return { jobPlanNode with xjobMeta := some xjobMeta }
  else return jobPlanNode

/-- The common body of `buildFailNode` and `buildEndNode`. -/
def buildClosingNode (type : JobPlanNodeType) (jobNode : Node) (defaultExecutorClusterID : String) :
    ParserM SubmittedNode := do
  let executorClusterID ← getPropertyOr jobNode "executorClusterID" defaultExecutorClusterID
  let name ← getProperty jobNode "name"
  onElements closingPropertie jobNode { type := type, name := name, executorClusterID := executorClusterID }

def buildFailNode : Node → String → ParserM SubmittedNode := buildClosingNode .fail

def buildEndNode : Node → String → ParserM SubmittedNode := buildClosingNode .end_

/-- The builder for a node's name. The name alone decides, whatever kind of node has it. -/
def builder (nodeName : String) : Option (Node → String → ParserM SubmittedNode) :=
  if nodeName = "start" then some buildStartNode
  else if nodeName = "fork" then some buildForkNode
  else if nodeName = "join" then some buildJoinNode
  else if nodeName = "action" then some buildActionNode
  else if nodeName = "fail" then some buildFailNode
  else if nodeName = "end" then some buildEndNode
  else none

/-- The loop over the child nodes of a plan. -/
def buildNodes (defaultExecutorClusterID : String) : List Node → ParserM (List SubmittedNode)
  | [] => return []
  | jobNode :: rest => do
    match builder jobNode.getNodeName with
    | none => buildNodes defaultExecutorClusterID rest
    | some build =>
      let node ← build jobNode defaultExecutorClusterID
      return node :: (← buildNodes defaultExecutorClusterID rest)

/-- The plan of one element, given the ids that were read before it, and the ids read then. -/
def buildExecutionJobPlan (clusterID createDate : String) (jobPlanNode : Node) (temp : List String) :
    ParserM (SubmittedPlan × List String) := do
  let ignoreError ← getBooleanProperty jobPlanNode "ignoreError" true
  let jepID ← getProperty jobPlanNode "id"
  let jepName ← getProperty jobPlanNode "name"
  let type ← getProperty jobPlanNode "type"
  let cronType ← getProperty jobPlanNode "cronType"
  let cronExpression ← getProperty jobPlanNode "cronExpression"
  let event ← getProperty jobPlanNode "event"
  if jepID ∈ temp then throw (.exception ("this jepID " ++ jepID ++ "is repeat."))
  let temp := if jepID = "" then temp else jepID :: temp
  if cronType = "" then
    throw (.exception ("It does't find available cron type.job execution plan:" ++ jepName))
  let nodes ← buildNodes clusterID jobPlanNode.getChildNodes
  return ({
    clusterID := clusterID
    createDate := createDate
    jobPlanType := type
    jepID := jepID
    jepName := jepName
    cronType := cronType
    cronExpression := cronExpression
    event := event
    ignoreError := ignoreError
    jobPlanNodeList := nodes }, temp)

/-- The loop over the child nodes of the root. -/
def buildPlans (clusterID createDate : String) : List Node → List String → ParserM (List SubmittedPlan)
  | [], _ => return []
  | jobPlanNode :: rest, temp => do
    if jobPlanNode.isElement ∧ jobPlanNode.getNodeName = "jobPlan" then
      let (plan, temp) ← buildExecutionJobPlan clusterID createDate jobPlanNode temp
      return plan :: (← buildPlans clusterID createDate rest temp)
    else buildPlans clusterID createDate rest temp

/-- The plans of the submission context, in the order they were added to it. -/
def getJobExecutionPlanSubmissionContext (clusterID createDate : String) (root : Node) : ParserM (List SubmittedPlan) :=
  buildPlans clusterID createDate root.getChildNodes []

end ExecutionPlanParser

end Hella

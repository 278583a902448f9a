import Hella.Parser.Parser
import Hella.Parser.Schema

/-!
# What a document says

The plans that realise a document: an attribute that is given has the value its type in
the schema gives it, and an enumeration that is left out still has a constant.
-/
namespace Hella

open Text Xml

section Values

variable (node : Node) (name : String)

/-- A text, if there is one, is the value of the attribute. -/
def Carries (value : Option String) : Prop := ∀ text, node.getAttribute name = some text → value = some text

def CarriesInteger (value : Int) : Prop := ∀ text, node.getAttribute name = some text → integerValue text = some value

def CarriesBoolean (value : Bool) : Prop := ∀ text, node.getAttribute name = some text → booleanValue text = some value

/-- A number kept as a text. -/
def CarriesNumeral (value : String) : Prop :=
  ∀ text, node.getAttribute name = some text → integerValue value = integerValue text

/-- The child elements of a name. -/
def Inside (holds : Node → Prop) : Prop := ∀ child ∈ node.elements, child.getNodeName = name → holds child

end Values

structure SubmittedJob.Realises (job : SubmittedJob) (node : Node) : Prop where
  mode : Carries node "mode" (some job.mode)
  executeUser : Carries node "executeUser" (some job.executeUser)
  executionContent : Inside node "executionContent" fun child => job.executionContent = some child.getTextContent
  jobClassName : Inside node "jobClassName" fun child => job.jobClassName = some child.getTextContent
  args : Inside node "args" fun child => job.args = some child.getTextContent
  description : Inside node "description" fun child => job.description = some child.getTextContent

namespace SubmittedNode

variable (built : SubmittedNode) (node : Node)

structure RealisesStart : Prop where
  type : built.type = .start
  to_ : Carries node "to" built.toNode
  executorClusterID : Carries node "executorClusterID" (some built.executorClusterID)

structure RealisesFork : Prop where
  type : built.type = .fork
  name : Carries node "name" (some built.name)
  joinName : Carries node "joinName" built.joinName
  paths : built.toNode = some (",".intercalate (node.elements.map (·.attributeText "to")))

structure RealisesJoin : Prop where
  type : built.type = .join
  name : Carries node "name" (some built.name)
  to_ : Carries node "to" built.toNode
  forkName : Carries node "forkName" built.forkName

/-- The job of a node, if it has one. -/
def RealisesJob : Prop := Inside node "job" fun child => ∃ job, built.xjobMeta = some job ∧ job.Realises child

structure RealisesAction : Prop where
  type : built.type = .action
  name : Carries node "name" (some built.name)
  executorClusterID : Carries node "executorClusterID" (some built.executorClusterID)
  delayType : Carries node "delayType" (some built.delayType)
  delayTypeConstant : ∃ constant, built.getDelayTypeEnum = .ok (some constant)
  delayTime : CarriesInteger node "delayTime" built.delayTime
  errorMaxRedoTimes : CarriesInteger node "errorMaxRedoTimes" built.errorMaxRedoTimes
  errorRedoPeriod : CarriesInteger node "errorRedoPeriod" built.errorRedoPeriod
  ok : Inside node "ok" fun child => Carries child "to" built.okNode
  error : Inside node "error" fun child => Carries child "to" built.errorNode
  job : built.RealisesJob node

structure RealisesClosing (type : JobPlanNodeType) : Prop where
  type : built.type = type
  name : Carries node "name" (some built.name)
  executorClusterID : Carries node "executorClusterID" (some built.executorClusterID)
  job : built.RealisesJob node

/-- The node stands for the element. -/
def Realises : Prop :=
  if node.getNodeName = "start" then built.RealisesStart node
  else if node.getNodeName = "fork" then built.RealisesFork node
  else if node.getNodeName = "join" then built.RealisesJoin node
  else if node.getNodeName = "action" then built.RealisesAction node
  else if node.getNodeName = "fail" then built.RealisesClosing node .fail
  else if node.getNodeName = "end" then built.RealisesClosing node .end_
  else False

end SubmittedNode

structure SubmittedPlan.Realises (plan : SubmittedPlan) (node : Node) : Prop where
  id : CarriesNumeral node "id" plan.jepID
  name : Carries node "name" (some plan.jepName)
  ignoreError : CarriesBoolean node "ignoreError" plan.ignoreError
  cronType : Carries node "cronType" (some plan.cronType)
  cronExpression : Carries node "cronExpression" (some plan.cronExpression)
  event : Carries node "event" (some plan.event)
  type : Carries node "type" (some plan.jobPlanType)
  typeConstant : ∃ constant, plan.getJobPlanTypeEnum = .ok (some constant)
  nodes : List.Forall₂ (fun child built => built.Realises child) node.elements plan.jobPlanNodeList

/-- The parser succeeds with one plan for each element, in the order of the document. -/
def Realised (clusterID createDate : String) (root : Node) : Prop :=
  ∃ plans, ExecutionPlanParser.getJobExecutionPlanSubmissionContext clusterID createDate root = .ok plans ∧
    List.Forall₂ (fun node plan => plan.Realises node) root.elements plans

end Hella

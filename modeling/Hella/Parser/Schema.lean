import Hella.Lib.Xml

/-!
# `job_executor_jobplan.xsd`

One definition for each element the schema declares. The elements `start`, `ok`, `error`
and `path` differ in their names and attributes only, and so do `fail` and `end`.
-/
namespace Hella

namespace Schema

open Xml

/-- A required attribute for a name. -/
def nameAttribute (name : String) : Attribute := ⟨name, true, string 0 40⟩

def executorClusterID : Attribute := ⟨"executorClusterID", false, string 0 20⟩

def executeUser : Attribute := ⟨"executeUser", false, string 0 20⟩

/-- An optional attribute of type integer. -/
def integerAttribute (name : String) : Attribute := ⟨name, false, integer⟩

/-- An element that has attributes only. -/
def leaf (name : String) (attributes : List Attribute) (node : Node) : Bool :=
  declares name attributes node && emptyContent node

/-- An element for a text of bounded length. -/
def content (name : String) (minLength : Nat) (node : Node) : Bool :=
  declares name [] node && simpleContent (string minLength 80) node

def path (node : Node) : Bool := leaf "path" [nameAttribute "to"] node

def ok (node : Node) : Bool := leaf "ok" [nameAttribute "to"] node

def error (node : Node) : Bool := leaf "error" [nameAttribute "to"] node

def start (node : Node) : Bool := leaf "start" [nameAttribute "to", executorClusterID] node

def join (node : Node) : Bool :=
  leaf "join" [nameAttribute "forkName", nameAttribute "name", nameAttribute "to"] node

def fork (node : Node) : Bool :=
  declares "fork" [nameAttribute "joinName", nameAttribute "name"] node && elementOnly node &&
    decide (2 ≤ node.elements.length) && node.elements.all path

def job (node : Node) : Bool :=
  declares "job" [⟨"mode", true, enumeration ["httpGet", "httpPost", "script"]⟩, executeUser] node &&
    elementOnly node &&
    match node.elements with
    | [executionContent, jobClassName, args, description] =>
      content "executionContent" 1 executionContent && content "jobClassName" 1 jobClassName &&
        content "args" 0 args && content "description" 0 description
    | _ => false

/-- The complex type `job` adds its element to whatever extends it. -/
def optionalJob : List Node → Bool
  | [] => true
  | [node] => job node
  | _ => false

def action (node : Node) : Bool :=
  declares "action"
      [integerAttribute "delayTime", ⟨"delayType", false, enumeration ["soft", "hard"]⟩,
        integerAttribute "errorMaxRedoTimes", nameAttribute "name", integerAttribute "errorRedoPeriod",
        executorClusterID] node &&
    elementOnly node &&
    match node.elements.reverse with
    | errorNode :: okNode :: jobs => optionalJob jobs.reverse && ok okNode && error errorNode
    | _ => false

/-- `fail` and `end`. -/
def closing (name : String) (node : Node) : Bool :=
  declares name [nameAttribute "name", executorClusterID] node && elementOnly node && optionalJob node.elements

def fail (node : Node) : Bool := closing "fail" node

def end_ (node : Node) : Bool := closing "end" node

/-- The choice between the elements may be taken any number of times, and each time for none. -/
def jobPlanContent : List Node → Bool
  | first :: rest =>
    start first &&
      match rest.reverse with
      | last :: beforeLast :: middle =>
        middle.reverse.all (fun node => action node || fork node || join node) && fail beforeLast && end_ last
      | _ => false
  | [] => false

def jobPlanAttributes : List Attribute :=
  [⟨"cronExpression", true, string 0 30⟩, ⟨"id", true, integer⟩, ⟨"ignoreError", false, boolean⟩,
    nameAttribute "name", ⟨"cronType", true, enumeration ["simple", "cron", "event"]⟩,
    ⟨"type", false, enumeration ["local", "distributed"]⟩, ⟨"event", false, fun _ => true⟩]

def jobPlan (node : Node) : Bool :=
  declares "jobPlan" jobPlanAttributes node && elementOnly node && jobPlanContent node.elements

def jobPlans (node : Node) : Bool :=
  declares "jobPlans" [] node && elementOnly node && !node.elements.isEmpty && node.elements.all jobPlan

end Schema

end Hella

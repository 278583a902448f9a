import Mathlib.Algebra.Group.Nat.Defs
import Mathlib.Logic.Function.Basic

/-!
# Rows, pages and beans

`BaseDao` with the statements of `SqlTemplate` that save and load a plan. A statement is
its table, its columns in order and the number of its parameters; a row is what stands in
the columns; a bean is read from a row by the names of its properties.
-/
namespace Hella.Dao

inductive SqlValue where
  | null
  | int (n : Int)
  | boolean (b : Bool)
  | text (s : String)
  deriving DecidableEq, Repr

namespace SqlValue

/-- A parameter that may be a null reference. -/
def ofString : Option String → SqlValue
  | none => null
  | some s => text s

/-! What a property of the type is set to; a null is the default of a primitive type. -/

def getString : SqlValue → Option String
  | text s => some s
  | _ => none

def getInt : SqlValue → Int
  | int n => n
  | _ => 0

def getBoolean : SqlValue → Bool
  | boolean b => b
  | _ => false

@[simp] theorem getString_ofString (s : Option String) : (ofString s).getString = s := by
  cases s <;> rfl

@[simp] theorem getInt_int (n : Int) : (int n).getInt = n := rfl

@[simp] theorem getBoolean_boolean (b : Bool) : (boolean b).getBoolean = b := rfl

end SqlValue

/-- The columns of a row with their values. -/
abbrev Row := List (String × SqlValue)

namespace Row

variable (row : Row) (column : String)

/-! A property of a bean is set from the column of its name, and keeps its default where
there is no such column. -/

def getString (default : Option String) : Option String := ((row.lookup column).map SqlValue.getString).getD default

def getInt (default : Int) : Int := ((row.lookup column).map SqlValue.getInt).getD default

def getBoolean (default : Bool) : Bool := ((row.lookup column).map SqlValue.getBoolean).getD default

end Row

/-- The rows of each table, in the order of their insertion. -/
abbrev Database := String → List Row

structure Insert where
  table : String
  columns : List String
  /-- how many question marks there are -/
  parameters : Nat

structure Select where
  table : String
  columns : List String

/-- The rows a condition selects, with the columns that are asked for. -/
def Select.rows (select : Select) (db : Database) (condition : Row → Bool) : List Row :=
  ((db select.table).filter condition).map fun row => row.filter (·.1 ∈ select.columns)

/-- `insertForKeys`; `keys` is the key the database generates next. `none` is an
SQLException: too few or too many parameters. -/
def insertForKeys (keys : Database → String → Int) (db : Database) (insert : Insert) (params : List SqlValue) :
    Option (Int × Database) :=
  if params.length ≠ insert.parameters ∨ insert.columns.length ≠ insert.parameters then none
  else
    let key := keys db insert.table
    let row := ("id", SqlValue.int key) :: insert.columns.zip params
    some (key, Function.update db insert.table (db insert.table ++ [row]))

/-! ### Pages -/

/-- Java's `int` arithmetic. -/
def toInt (n : Int) : Int := n.bmod (2 ^ 32)

structure Page (α : Type) where
  pageNo : Int := 1
  pageSize : Int := 15
  result : List α := []
  totalCount : Int := -1

namespace Page

variable {α : Type}

/-- `Page(int, int)`. -/
def construct (pageNo pageSize : Int) : Page α :=
  { pageNo := if pageNo = 0 then 1 else pageNo, pageSize := if pageSize = 0 then 15 else pageSize }

def getTotalPages (page : Page α) : Int :=
  if page.totalCount < 0 then -1
  else if page.totalCount.tmod page.pageSize > 0 then page.totalCount.tdiv page.pageSize + 1
  else page.totalCount.tdiv page.pageSize

end Page

section Paging

variable {α : Type}

/-- `BaseDao.findPage`, over the rows of the query: `LIMIT page, pageSize`. -/
def findRows (rows : List α) (page pageSize : Int) : List α :=
  let page := if page ≤ 1 then 0 else page
  (rows.drop page.toNat).take pageSize.toNat

/-- `findPage` of each DAO. The count query has the tables and the condition of the query. -/
def findPage (rows : List α) (page : Page α) : Page α :=
  let totalCount : Int := rows.length
  if totalCount > 0 then
    { page with
      totalCount := totalCount
      result := findRows rows (toInt ((page.pageNo - 1) * page.pageSize)) page.pageSize }
  else page

end Paging

/-! ### Plans, nodes and jobs -/

structure XjobMeta where
  id : Int := 0
  jobExecutionPlanID : Int := 0
  jobPlanNodeID : Int := 0
  mode : Option String := none
  executeUser : Option String := none
  executionContent : Option String := none
  jobClassName : Option String := none
  args : Option String := none
  description : Option String := none
  deriving DecidableEq, Repr

structure JobPlanNode where
  id : Int := 0
  jobExecutionPlanID : Int := 0
  type : Option String := none
  name : Option String := none
  executorClusterID : Option String := none
  forkName : Option String := none
  joinName : Option String := none
  toNode : Option String := none
  okNode : Option String := none
  errorNode : Option String := none
  delayType : Option String := some "soft"
  delayTime : Int := 0
  errorMaxRedoTimes : Int := 0
  errorRedoPeriod : Int := 0
  xjobMeta : Option XjobMeta := none
  deriving DecidableEq, Repr

structure JobExecutionPlan where
  id : Int := 0
  jobPlanType : Option String := some "local"
  executePlanVersionID : Int := 0
  clusterID : Option String := none
  jepID : Option String := none
  jepName : Option String := none
  cronExpression : Option String := none
  ignoreError : Bool := true
  cronType : Option String := none
  event : Option String := none
  state : Option String := some "able"
  currentNode : Option String := none
  currentXjobDate : Option String := none
  currentXjobState : Option String := none
  createDate : Option String := none
  description : Option String := none
  jobPlanNodeList : List JobPlanNode := []
  deriving DecidableEq, Repr

/-! ### `SqlTemplate` -/

def jobExecutionPlanTable : String := "SCH_JOB_EXECUTION_PLAN"
def jobPlanNodeTable : String := "SCH_JOBPLAN_NODE"
def xjobMetaTable : String := "SCH_XJOB_META"

def sqlInsertJobExecutionPlan : Insert where
  table := jobExecutionPlanTable
  columns :=
    ["jobPlanType", "executePlanVersionID", "clusterID", "jepID", "jepName", "cronType", "cronExpression", "event",
    "ignoreError", "state", "currentXjobDate", "currentXjobState", "currentNode", "description", "createDate"]
  parameters := 15

/-- `SQL_QUERY_JOBEXECUTIONPLAN_VERSION`. -/
def sqlQueryJobExecutionPlan : Select where
  table := jobExecutionPlanTable
  columns :=
    ["id", "jobPlanType", "executePlanVersionID", "clusterID", "jepID", "jepName", "cronType", "cronExpression",
    "event", "ignoreError", "state", "currentXjobDate", "currentXjobState", "currentNode", "description", "createDate"]

def sqlInsertJobPlanNode : Insert where
  table := jobPlanNodeTable
  columns := ["jobExecutionPlanID", "type", "name", "executorClusterID", "forkName", "joinName", "toNode", "okNode",
    "errorNode", "delayType", "delayTime", "errorMaxRedoTimes", "errorRedoPeriod"]
  parameters := 13

def sqlQueryJobPlanNode : Select where
  table := jobPlanNodeTable
  columns :=
    ["id", "jobExecutionPlanID", "type", "name", "executorClusterID", "forkName", "joinName", "toNode", "okNode",
    "errorNode", "delayType", "delayTime", "errorMaxRedoTimes", "errorRedoPeriod"]

def sqlInsertXjob : Insert where
  table := xjobMetaTable
  columns := ["jobExecutionPlanID", "jobPlanNodeID", "mode", "executeUser", "executionContent", "jobClassName", "args",
    "description"]
  parameters := 8

def sqlQueryXjob : Select where
  table := xjobMetaTable
  columns :=
    ["id", "jobExecutionPlanID", "jobPlanNodeID", "mode", "executeUser", "executionContent", "jobClassName", "args",
    "description"]

/-! ### `JobExecutionPlanDao` -/

section Saving

variable (keys : Database → String → Int) (db : Database)

/-- `save(JobExecutionPlan, boolean)`. -/
def saveJobExecutionPlanRow (jep : JobExecutionPlan) : Option (JobExecutionPlan × Database) := do
  let (id, db) ← insertForKeys keys db sqlInsertJobExecutionPlan
    [.ofString jep.jobPlanType, .int jep.executePlanVersionID, .ofString jep.clusterID, .ofString jep.jepID,
      .ofString jep.jepName, .ofString jep.cronType, .ofString jep.cronExpression, .ofString jep.event,
      .boolean jep.ignoreError, .ofString jep.state, .ofString jep.currentXjobDate, .ofString jep.currentXjobState,
      .ofString jep.currentNode, .ofString jep.description, .ofString jep.createDate]
  return ({ jep with id := id }, db)

/-- `save(JobPlanNode, boolean)`. -/
def saveJobPlanNode (jobPlanNode : JobPlanNode) : Option (JobPlanNode × Database) := do
  let (id, db) ← insertForKeys keys db sqlInsertJobPlanNode
    [.int jobPlanNode.jobExecutionPlanID, .ofString jobPlanNode.type, .ofString jobPlanNode.name,
      .ofString jobPlanNode.executorClusterID, .ofString jobPlanNode.forkName, .ofString jobPlanNode.joinName,
      .ofString jobPlanNode.toNode, .ofString jobPlanNode.okNode, .ofString jobPlanNode.errorNode,
      .ofString jobPlanNode.delayType, .int jobPlanNode.delayTime, .int jobPlanNode.errorMaxRedoTimes,
      .int jobPlanNode.errorRedoPeriod]
  return ({ jobPlanNode with id := id }, db)

/-- `save(XjobMeta, boolean)`. -/
def saveXjobMeta (xjobMeta : XjobMeta) : Option (XjobMeta × Database) := do
  let (id, db) ← insertForKeys keys db sqlInsertXjob
    [.int xjobMeta.jobExecutionPlanID, .int xjobMeta.jobPlanNodeID, .ofString xjobMeta.mode,
      .ofString xjobMeta.executeUser,
      .ofString xjobMeta.executionContent, .ofString xjobMeta.jobClassName, .ofString xjobMeta.args,
      .ofString xjobMeta.description]
  return ({ xjobMeta with id := id }, db)

/-- The loop of `saveJobExecutionPlan`, for the plan with this id. -/
def saveJobPlanNodes (id : Int) : Database → List JobPlanNode → Option (List JobPlanNode × Database)
  | db, [] => some ([], db)
  | db, jobPlanNode :: rest => do
    let (jobPlanNode, db) ← saveJobPlanNode keys db { jobPlanNode with jobExecutionPlanID := id }
    let (jobPlanNode, db) ←
      match jobPlanNode.xjobMeta with
      | none => some (jobPlanNode, db)
      | some xjobMeta => do
        let (xjobMeta, db) ← saveXjobMeta keys db
          { xjobMeta with jobExecutionPlanID := id, jobPlanNodeID := jobPlanNode.id }
        some ({ jobPlanNode with xjobMeta := some xjobMeta }, db)
    let (rest, db) ← saveJobPlanNodes id db rest
    return (jobPlanNode :: rest, db)

/-- `DefaultJobPlanManager.saveJobExecutionPlan`: the plan object as it is then, with the
ids that the database has given. -/
def saveJobExecutionPlan (jobExecutionPlan : JobExecutionPlan) : Option (JobExecutionPlan × Database) := do
  let (jobExecutionPlan, db) ← saveJobExecutionPlanRow keys db jobExecutionPlan
  let (jobPlanNodeList, db) ← saveJobPlanNodes keys jobExecutionPlan.id db jobExecutionPlan.jobPlanNodeList
  return ({ jobExecutionPlan with jobPlanNodeList := jobPlanNodeList }, db)

end Saving

/-! A `BeanListHandler` makes a new bean of each row. -/

def JobExecutionPlan.ofRow (row : Row) : JobExecutionPlan where
  id := row.getInt "id" 0
  jobPlanType := row.getString "jobPlanType" (some "local")
  executePlanVersionID := row.getInt "executePlanVersionID" 0
  clusterID := row.getString "clusterID" none
  jepID := row.getString "jepID" none
  jepName := row.getString "jepName" none
  cronExpression := row.getString "cronExpression" none
  ignoreError := row.getBoolean "ignoreError" true
  cronType := row.getString "cronType" none
  event := row.getString "event" none
  state := row.getString "state" (some "able")
  currentNode := row.getString "currentNode" none
  currentXjobDate := row.getString "currentXjobDate" none
  currentXjobState := row.getString "currentXjobState" none
  createDate := row.getString "createDate" none
  description := row.getString "description" none

def JobPlanNode.ofRow (row : Row) : JobPlanNode where
  id := row.getInt "id" 0
  jobExecutionPlanID := row.getInt "jobExecutionPlanID" 0
  type := row.getString "type" none
  name := row.getString "name" none
  executorClusterID := row.getString "executorClusterID" none
  forkName := row.getString "forkName" none
  joinName := row.getString "joinName" none
  toNode := row.getString "toNode" none
  okNode := row.getString "okNode" none
  errorNode := row.getString "errorNode" none
  delayType := row.getString "delayType" (some "soft")
  delayTime := row.getInt "delayTime" 0
  errorMaxRedoTimes := row.getInt "errorMaxRedoTimes" 0
  errorRedoPeriod := row.getInt "errorRedoPeriod" 0

def XjobMeta.ofRow (row : Row) : XjobMeta where
  id := row.getInt "id" 0
  jobExecutionPlanID := row.getInt "jobExecutionPlanID" 0
  jobPlanNodeID := row.getInt "jobPlanNodeID" 0
  mode := row.getString "mode" none
  executeUser := row.getString "executeUser" none
  executionContent := row.getString "executionContent" none
  jobClassName := row.getString "jobClassName" none
  args := row.getString "args" none
  description := row.getString "description" none

section Loading

variable (db : Database)

/-- `queryJobPlan(int)`. The rows come in descending order of their ids. -/
def queryJobPlan (id : Int) : Option JobExecutionPlan :=
  if id = 0 then none
  else
    let rows := sqlQueryJobExecutionPlan.rows db fun row => row.getInt "id" 0 = id
    ((rows.map JobExecutionPlan.ofRow).mergeSort fun one other => other.id ≤ one.id).head?

def queryJobPlanNodeByJPID (jobExecutionPlanID : Int) : Option (List JobPlanNode) :=
  if jobExecutionPlanID = 0 then none
  else some ((sqlQueryJobPlanNode.rows db fun row => row.getInt "jobExecutionPlanID" 0 = jobExecutionPlanID).map
    JobPlanNode.ofRow)

def queryXjobMetaByJPID (jobExecutionPlanID : Int) : Option (List XjobMeta) :=
  if jobExecutionPlanID = 0 then none
  else some ((sqlQueryXjob.rows db fun row => row.getInt "jobExecutionPlanID" 0 = jobExecutionPlanID).map
    XjobMeta.ofRow)

/-- The inner loop of `loadJobExecutionPlan`. -/
def attach (xjobMetaList : List XjobMeta) (jobPlanNode : JobPlanNode) : JobPlanNode :=
  xjobMetaList.foldl (fun jobPlanNode xjobMeta =>
    if jobPlanNode.id = xjobMeta.jobPlanNodeID then { jobPlanNode with xjobMeta := some xjobMeta } else jobPlanNode)
      jobPlanNode

/-- `none` is a null plan; a null list would be a NullPointerException, but the queries
return one for the id zero only. -/
def loadJobExecutionPlan (jobExecutionPlanID : Int) : Option JobExecutionPlan := do
  let jobExecutionPlan ← queryJobPlan db jobExecutionPlanID
  let jobPlanNodeList ← queryJobPlanNodeByJPID db jobExecutionPlan.id
  let xjobMetaList ← queryXjobMetaByJPID db jobExecutionPlan.id
  return { jobExecutionPlan with
    jobPlanNodeList := jobExecutionPlan.jobPlanNodeList ++ jobPlanNodeList.map (attach xjobMetaList) }

end Loading

end Hella.Dao

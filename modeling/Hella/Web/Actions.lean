import Hella.Web.Services

/-!
# The actions behind the servlets

`BaseAction.doPost` picks a method of the servlet by the `method` parameter. A method takes
what its request is forwarded with as an argument, and the recursion is on the depth of
nested forwards, as `signal` in `LiteWorkflowInstance`. The system log is not modelled.
-/
namespace Hella

open Exec Text WebSystem

/-- The public methods that take a request and a response. -/
inductive ActionMethod where
  /-- inherited: the request is posted to the same method again -/
  | doPost
  /-- queries and writes JSON -/
  | output
  /-- queries and shows a page -/
  | display (path : String)
  | index | edit | pauseJob | resumeJob | executorQJob | executorXJob | deleteJobPlan | fileUpLoad
  | add | del | changeState
  deriving DecidableEq, Repr

namespace Servlet

/-- The methods a servlet declares itself. -/
def declared : Servlet → List (String × ActionMethod)
  | baseAction => []
  | welcomeAction => [("info", .display "/jsp/welcome.jsp")]
  | sysAction =>
    [("info", .display "/jsp/admin/sys_info.jsp"), ("log", .display "/jsp/admin/log_list.jsp"), ("logList", .output)]
  | planSubscribeAction =>
    [("list", .output), ("add", .add), ("del", .del), ("changeState", .changeState), ("getClusterIDList", .output)]
  | jobPlanAction =>
    [("index", .index), ("list", .output), ("loadJEP", .display "/jsp/job/jobplan.jsp"),
     ("enterEdit", .display "/jsp/job/jobplan_edit.jsp"), ("edit", .edit), ("pauseJob", .pauseJob),
     ("resumeJob", .resumeJob), ("executorQJob", .executorQJob), ("executorXJob", .executorXJob),
     ("deleteJobPlan", .deleteJobPlan), ("fileUpLoad", .fileUpLoad)]
  | jobStateAction => [("index", .index), ("list", .output)]
  | serviceAction => [("queryJobPlanState", .output)]

/-- `none` is NoSuchMethodException. -/
def getMethod (servlet : Servlet) (name : String) : Option ActionMethod :=
  (servlet.declared ++ [("doPost", ActionMethod.doPost), ("doGet", ActionMethod.doPost)]).lookup name

end Servlet

/-- `Integer.valueOf` of a parameter. -/
def integerOf (text : Option String) : WebM Int :=
  match text.bind integerValueOf with
  | none => throw .numberFormatException
  | some n => pure n

/-- `CronType.valueOf`; a null name is no constant either. -/
def CronType.valueOf : Option String → Option CronType
  | some "simple" => some .simple
  | some "cron" => some .cron
  | some "event" => some .event
  | _ => none

/-- The ids in a list; a blank one counts as zero. -/
def subscribeIDs (ids : String) : Option (List Int) :=
  (split ids).mapM fun part => if isBlank (some part) then some 0 else integerValueOf part

/-! ### `JobPlanAction` -/

namespace JobPlanAction

variable (app : WebApp) (env : WebEnv) (forward : HttpServletRequest → String → WebM Unit) (req : HttpServletRequest)

/-- The list of executor clusters comes from ZooKeeper, which may fail. -/
def index : WebM Unit := do
  if env.succeeds (← request) then forward req ("/jsp/" ++ orNull (req.getParameter "forward"))
  else throw (.exception "IOException")

/-- The answer to a request without a user; only `edit` leaves it at that. -/
def loginFirst : String := "请先登录，再进行操作，操作过程系统将会记录日志"

def askToLogin : WebM Unit := do
  if (← get).session.userName = none then ajaxOutJsonResult false loginFirst

def edit : WebM Unit := do
  if (← get).session.userName = none then ajaxOutJsonResult false loginFirst
  else if req.getParameter "jobExecutionPlanID" = none then ajaxOutJsonResult false "请选择要编辑的作业计划"
  else
    let jobExecutionPlanID ← integerOf (req.getParameter "jobExecutionPlanID")
    match CronType.valueOf (req.getParameter "cronType") with
    | none => throw .illegalArgumentException
    | some cronType =>
      let cronExpression := req.getParameter "cronExpression"
      if jobExecutionPlanID = 0 then ajaxOutJsonResult false "请选择要编辑的作业计划"
      else if isBlank cronExpression then ajaxOutJsonResult false "请选择要编辑的作业计划触发时间cronExpression"
      else
        catching Throwable.isException
          (do
            JobPlanService.changeJobExecutionPlanCronExpression env jobExecutionPlanID cronType (orNull cronExpression)
            ajaxOutJsonResult true "操作成功")
          fun _ => ajaxOutJsonResult false "操作失败,请联系管理员"

def outOfDate : String := "操作失败,请检查作业计划版本是否过期"

def unreachable : String := "操作失败,请检查该集群客户端是否正常"

/-- What the operations on one key have in common; without a key nothing happens. -/
def operate (parameter failure : String) (operation : Option String → WebM Bool) : WebM Unit := do
  askToLogin
  let key := req.getParameter parameter
  if isBlank key then pure ()
  else if ← operation key then ajaxOutJsonResult true "操作成功"
  else ajaxOutJsonResult false failure

/-- An exception makes the operation a failed one. -/
def guarded (operation : WebM Bool) : WebM Bool := catching Throwable.isException operation fun _ => return false

def pauseJob : WebM Unit := operate req "jobExecutionPlanID" outOfDate fun key => do
  JobPlanService.pauseJob env (← integerOf key)

def resumeJob : WebM Unit := operate req "jobExecutionPlanID" outOfDate fun key => do
  JobPlanService.resumeJob env (← integerOf key)

def executorQJob : WebM Unit := operate req "jobExecutionPlanID" unreachable fun key => guarded do
  JobPlanService.executeQJob env (← integerOf key)

def executorXJob : WebM Unit := operate req "jobPlanNodeID" "操作失败,请检查该集群是否正常" fun key => guarded do
  JobPlanService.executeJobPlanNode env (← integerOf key) (req.getParameter "args")

/-- Only a plan that is not able is deleted. -/
def deleteJobPlan : WebM Unit := do
  askToLogin
  let jobPlanID := req.getParameter "jobPlanID"
  if isBlank jobPlanID then pure ()
  else
    catching Throwable.isException
      (do
        let jid ← integerOf jobPlanID
        match ← JobPlanService.queryJobPlanState env jid with
        | none => ajaxOutJsonResult false "请先暂停执行计划后再删除"
        | some .able => ajaxOutJsonResult false "请先暂停执行计划后再删除"
        | some .disable =>
          if ← JobPlanService.delJobExecutionPlan env jid then ajaxOutJsonResult true "操作成功"
          else ajaxOutJsonResult false unreachable)
      fun _ => pure ()

/-- Whether the upload loop looks into a part. -/
def isJobPlanFile (item : FileItem) : Bool := !item.isFormField && endsWith item.name.toLower ".xml"

/-- One part of an upload. A file that cannot be written ends the loop; one that is not
valid or cannot be submitted does not. -/
def uploadItem (clusterID : String) (item : FileItem) : WebM Unit := do
  if isJobPlanFile item then
    if env.succeeds (← request) then
      if app.validateXMLByXSD item.content then
        let _ ← guarded (JobPlanService.submitJobPlan app env clusterID item.content)
    else throw (.exception "FileUploadException")

/-- The page shown after an upload is the list of plans. -/
def showList : WebM Unit :=
  index env (fun _ path => answer (.page path))
    (req.withQuery [("method", "index"), ("forward", "job/jobplan_list.jsp")])

def fileUpLoad : WebM Unit := do
  match req.getParameter "cID" with
  | none => showList env req
  | some clusterID =>
    if isBlank (some clusterID) then showList env req
    else
      match req.items with
      | none => showList env req
      | some items =>
        catching Throwable.isException (items.forM (uploadItem app env clusterID)) fun _ => pure ()
        showList env req

end JobPlanAction

/-! ### `PlanSubscribeAction` -/

namespace PlanSubscribeAction

variable (env : WebEnv) (req : HttpServletRequest)

/-- A blank address is stored as null. -/
def address (text : Option String) : Option String := if isBlank text then none else text

def add : WebM Unit := do
  match req.getParameter "clusterID" with
  | none => ajaxOutJsonResult false "操作失败,请选择集群编号"
  | some clusterID =>
    let userEmail := address (req.getParameter "userEmail")
    let userPhoneNumber := address (req.getParameter "userPhoneNumber")
    if isBlank (some clusterID) then ajaxOutJsonResult false "操作失败,请选择集群编号"
    else if isBlank userEmail && isBlank userPhoneNumber then ajaxOutJsonResult false "操作失败,请填写邮箱或者手机号码"
    else
      let rs ← catching Throwable.isException
        (do
          SysService.addJobPlanSubscribe env clusterID userEmail userPhoneNumber
          return true)
        fun _ => return false
      if rs then ajaxOutJsonResult true "操作成功"
      else ajaxOutJsonResult false "操作失败"

/-- The ids of the request are read before they are used. -/
def withIDs (missing : String) (operation : List Int → WebM Unit) : WebM Unit := do
  JobPlanAction.askToLogin
  match req.getParameter "ids" with
  | none => ajaxOutJsonResult false missing
  | some ids =>
    if isBlank (some ids) then ajaxOutJsonResult false missing
    else
      match subscribeIDs ids with
      | none => throw .numberFormatException
      | some ids => operation ids

def del : WebM Unit := withIDs req "操作失败,请选择要删除的记录" fun ids => do
  if ← SysService.deleteJobPlanSubscribeByID env ids then ajaxOutJsonResult true "操作成功"
  else ajaxOutJsonResult false "操作失败"

/-- `Boolean.valueOf`. -/
def stateOf (text : Option String) : Bool := text.map String.toLower == some "true"

def changeState : WebM Unit := withIDs req "操作失败,请选择要修改的记录" fun ids =>
  catching Throwable.isException
    (do
      SysService.changeJobPlanSubscribeState env ids (stateOf (req.getParameter "state"))
      ajaxOutJsonResult true "操作成功")
    fun _ => ajaxOutJsonResult false "操作失败"

end PlanSubscribeAction

/-! ### `BaseAction` -/

section Dispatch

variable (app : WebApp) (env : WebEnv)

/-- A page is shown if the reads it needs succeed. -/
def display (path : String) : WebM Unit := do
  if env.succeeds (← request) then answer (.page path)
  else throw (.exception "IOException")

def ActionMethod.invoke (forward : HttpServletRequest → String → WebM Unit) (req : HttpServletRequest) :
    ActionMethod → WebM Unit
  | .doPost => throw .stackOverflowError
  | .output => pure ()
  | .display path => Hella.display env path
  | .index => JobPlanAction.index env forward req
  | .edit => JobPlanAction.edit env req
  | .pauseJob => JobPlanAction.pauseJob env req
  | .resumeJob => JobPlanAction.resumeJob env req
  | .executorQJob => JobPlanAction.executorQJob env req
  | .executorXJob => JobPlanAction.executorXJob env req
  | .deleteJobPlan => JobPlanAction.deleteJobPlan env req
  | .fileUpLoad => JobPlanAction.fileUpLoad app env req
  | .add => PlanSubscribeAction.add env req
  | .del => PlanSubscribeAction.del env req
  | .changeState => PlanSubscribeAction.changeState env req

/-- Reflection hands on whatever the method throws, errors included, as an exception. -/
def reflect (forward : HttpServletRequest → String → WebM Unit) (servlet : Servlet) (req : HttpServletRequest)
    (name : String) : WebM Unit :=
  match servlet.getMethod name with
  | none => answer (.sendError 500)
  | some method => catching (fun _ => true) (method.invoke app env forward req) fun _ => answer (.sendError 500)

def BaseAction.doPost (forward : HttpServletRequest → String → WebM Unit) (servlet : Servlet)
    (req : HttpServletRequest) : WebM Unit := do
  match req.getParameter "method" with
  | some name =>
    if isBlank (some name) then page (req.getParameter "forward") else reflect app env forward servlet req name
  | none => page (req.getParameter "forward")
where
  /-- Without a method the request asks for a page, or to log out. -/
  page : Option String → WebM Unit
    | none => pure ()
    | some path => do
      if isBlank (some path) then pure ()
      else if path = "exit" then
        modify fun s => { s with session := {} }
        answer (.page "/login.jsp")
      else forward req ("/jsp/" ++ path)

/-- The container forwards to the servlet mapped to the path, or shows a page. Filters are
not run again. -/
def forwardTo : Nat → HttpServletRequest → String → WebM Unit
  | 0, _, _ => throw .stackOverflowError
  | depth + 1, req, path =>
    let (target, query) := app.getRequestDispatcher path
    match Servlet.ofPath target with
    | none => answer (.page path)
    | some servlet => BaseAction.doPost app env (forwardTo depth) servlet (req.withQuery query)

/-- `HttpServlet.service`, for the servlet the path is mapped to. -/
def service (req : HttpServletRequest) : WebM Unit :=
  match Servlet.ofPath (app.pathInContext req.requestURI) with
  | none => answer (.page req.requestURI)
  | some servlet =>
    if req.method = .other then answer (.sendError 405)
    else BaseAction.doPost app env (forwardTo app env env.forwardDepth) servlet req

/-- A request from the filter on. -/
def handle (req : HttpServletRequest) : WebM Unit := LoginFilter.doFilter app req (service app env req)

end Dispatch

end Hella

import Hella.Engine.Managers
import Hella.Plans.Manager
import Mathlib.Data.PNat.Basic

/-!
# Requests to the web console

What a request brings, the state a request is answered in, and the two things it meets
first: `LoginFilter` and the servlet mappings of `web.xml`. The container decodes paths,
and the XML library reads uploaded files; both are parameters.
-/
namespace Hella

open Exec Text

/-- The container calls `doPost` for the first three; HEAD is a GET without a body. -/
inductive HttpMethod where
  | get | post | head | other
  deriving DecidableEq, Repr

/-- A part of a multipart request. -/
structure FileItem where
  isFormField : Bool
  name : String
  content : String
  deriving DecidableEq, Repr

structure HttpServletRequest where
  method : HttpMethod
  /-- as it came, not decoded -/
  requestURI : String
  parameters : List (String × String) := []
  /-- the parts `parseRequest` finds; `none` is FileUploadException -/
  items : Option (List FileItem) := none

namespace HttpServletRequest

def getParameter (req : HttpServletRequest) (name : String) : Option String := req.parameters.lookup name

/-- The request as forwarded: the parameters in the query of the path come first. -/
def withQuery (req : HttpServletRequest) (query : List (String × String)) : HttpServletRequest :=
  { req with parameters := query ++ req.parameters }

end HttpServletRequest

structure HttpSession where
  userName : Option String := none
  password : Option String := none
  deriving DecidableEq, Repr

/-- A row of the subscription table; generated keys begin with one. -/
structure JobPlanSubscribe where
  id : ℕ+
  clusterID : String
  userEmail : Option String
  userPhoneNumber : Option String
  state : Bool := true
  deriving DecidableEq, Repr

inductive HttpResponse where
  | json (success : Bool) (msg : String)
  | page (path : String)
  | sendRedirect (location : String)
  | sendError (code : Nat)
  deriving DecidableEq, Repr

/-- The engine as a request finds it. The plan rows are those of `plans`. -/
structure WebSystem where
  session : HttpSession := {}
  plans : PlanSystem := {}
  /-- the schedules that jobs got after they were built -/
  rescheduled : JMap (CronType × String) := ∅
  jobPlanSubscribes : List JobPlanSubscribe := []
  lastJobPlanSubscribeID : Nat := 0
  engine : Engine := {}
  answers : List HttpResponse := []
  /-- requests made to `WebEnv` so far -/
  tick : Nat := 0

abbrev WebM := EStateM Throwable WebSystem

/-- What an action reads from outside; see `Env`. -/
structure WebEnv where
  plans : PlanEnv
  engine : Env
  /-- whether the trigger of a job takes an expression of the type -/
  reschedules : QuartzJob → CronType → String → Bool
  /-- whether a page can be put together and an uploaded file be written -/
  succeeds : Nat → Bool
  /-- nested forwards the thread's stack has room for -/
  forwardDepth : Nat

/-! ### `SystemAdministrator` -/

structure SystemAdministrator where
  adminSet : List String
  passwordSet : List String

/-- The two sets of the configuration; a missing one is empty. -/
def SystemAdministrator.configured (administratorUser administratorPassword : Option String) : SystemAdministrator where
  adminSet := (administratorUser.map split).getD []
  passwordSet := (administratorPassword.map split).getD []

def SystemAdministrator.doValidation (administrators : SystemAdministrator) (doMD5 : String → String)
    (user password : String) : Bool :=
  administrators.adminSet.contains user && administrators.passwordSet.contains (doMD5 password)

/-- What the application does not decide for itself. -/
structure WebApp where
  administrators : SystemAdministrator
  doMD5 : String → String
  /-- the path the container makes of a request URI -/
  pathInContext : String → String
  /-- the path and the query the container makes of a path given to it -/
  getRequestDispatcher : String → String × List (String × String)
  validateXMLByXSD : String → Bool
  /-- the plans the parser reads from a file for a cluster; `none` is an exception -/
  jobPlans : String → String → Option (List PlanEntity)
  /-- The count over the stored ids. The ids asked for are put into the statement without
  quotes, and the database decides what they mean; `none` is SQLException. -/
  isJobPlansExist : List String → List String → Option Bool

def WebApp.validates (app : WebApp) (user password : Option String) : Bool :=
  match user, password with
  | some user, some password => app.administrators.doValidation app.doMD5 user password
  | _, _ => false

/-! ### Servlet mappings -/

inductive Servlet where
  | baseAction | welcomeAction | sysAction | planSubscribeAction | jobPlanAction | jobStateAction | serviceAction
  deriving DecidableEq, Repr

namespace Servlet

/-- `web.xml`, in its order; each pattern ends in `/*`. -/
def mappings : List (String × Servlet) :=
  [("/bs", baseAction), ("/welcome", welcomeAction), ("/admin/sys", sysAction),
   ("/admin/subscribe", planSubscribeAction), ("/jobplan", jobPlanAction), ("/jobstate", jobStateAction),
   ("/service", serviceAction)]

/-- The path is the pattern's, or goes on after a slash. -/
def Matches (path pattern : String) : Prop := path = pattern ∨ (pattern ++ "/").toList <+: path.toList

instance (path pattern : String) : Decidable (Matches path pattern) := inferInstanceAs (Decidable (_ ∨ _))

/-- No two of the patterns match one path. -/
def ofPath (path : String) : Option Servlet := (mappings.find? fun entry => Matches path entry.1).map Prod.snd

end Servlet

/-! ### Parts of the state -/

namespace PlanTables

/-- A later job of a node overwrites an earlier one. -/
def xjobMetaOf (t : PlanTables) (jobExecutionPlanID jobPlanNodeID : Nat) : Option XjobMeta :=
  let rows := t.xjobMetas.filter fun row => row.jobExecutionPlanID = jobExecutionPlanID ∧
    row.jobPlanNodeID = jobPlanNodeID
  rows.getLast?.map (·.xjobMeta)

def loadNodes (t : PlanTables) (jobExecutionPlanID : Nat) : List JobPlanNode :=
  (t.jobPlanNodes.filter (·.jobExecutionPlanID = jobExecutionPlanID)).map fun node =>
    { node with xjobMeta := t.xjobMetaOf jobExecutionPlanID node.id }

/-- The plans as the workflow code loads them. -/
def jobPlans (t : PlanTables) : List JobExecutionPlan :=
  t.jobExecutionPlans.map fun row => { row.toJobExecutionPlan with jobPlanNodeList := t.loadNodes row.id }

/-- The rows after the workflow code has changed columns of its own. -/
def restore (t : PlanTables) (plans : List JobExecutionPlan) : PlanTables :=
  { t with jobExecutionPlans := t.jobExecutionPlans.zipWith (fun row plan =>
      { row with toJobExecutionPlan := { plan with jobPlanNodeList := row.jobPlanNodeList } }) plans }

/-- The expression is pasted into the statement. This is what the statement does when the
expression has no quote or backslash. -/
def updateJobPlanCronExpression (t : PlanTables) (id : Nat) (cronType : CronType)
    (cronExpression : String) : PlanTables :=
  { t with jobExecutionPlans := t.jobExecutionPlans.map fun row =>
    if row.id = id then { row with cronType := some cronType, cronExpression := cronExpression } else row }

end PlanTables

namespace WebSystem

variable {α : Type}

/-- The engine with the plans it reads. -/
def withPlans (s : WebSystem) : Engine :=
  { s.engine with store := { s.engine.store with jobPlans := s.plans.tables.jobPlans } }

def saveEngine (s : WebSystem) (e : Engine) : WebSystem :=
  { s with engine := e, plans := { s.plans with tables := s.plans.tables.restore e.store.jobPlans } }

def onPlans (body : PlanM α) : WebM α := zoom plans (fun s t => { s with plans := t }) body

def onEngine (body : EngineM α) : WebM α := zoom withPlans saveEngine body

def answer (a : HttpResponse) : WebM Unit := modify fun s => { s with answers := s.answers ++ [a] }

def ajaxOutJsonResult (success : Bool) (msg : String) : WebM Unit := answer (.json success msg)

def request : WebM Nat := modifyGet fun s => (s.tick, { s with tick := s.tick + 1 })

end WebSystem

/-! ### `LoginFilter` -/

namespace LoginFilter

open WebSystem

/-- The URIs that pass without a check. -/
def exempt (url : String) : Bool :=
  endsWith url ".css" || endsWith url ".gif" || endsWith url ".jpg" || endsWith url ".png" || endsWith
    url "login.jsp" ||
    url == "/"

/-- The credentials of the request, or of its session when one of them is blank. -/
def credentials (req : HttpServletRequest) (session : HttpSession) : Option String × Option String :=
  let user := req.getParameter "userName"
  let password := req.getParameter "password"
  if isBlank user || isBlank password then (session.userName, session.password) else (user, password)

/-- An exception of the rest of the chain is only logged, once the user is known. -/
def doFilter (app : WebApp) (req : HttpServletRequest) (chain : WebM Unit) : WebM Unit := do
  if exempt req.requestURI then chain
  else
    let (user, password) := credentials req (← get).session
    if isBlank user || isBlank password then answer (.sendRedirect "/login.jsp?msg=0")
    else if app.validates user password then
      catching Throwable.isException
        (do
          modify fun s => { s with session := { userName := user, password := password } }
          chain)
        fun _ => pure ()
    else answer (.sendRedirect "/login.jsp?msg=1")

end LoginFilter

end Hella

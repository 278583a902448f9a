import Hella.Executor.Client
import Hella.Lib.Units

/-!
# The built-in jobs

`XjobRunner.run` with `ShellXjob`, `HttpGetXjob` and `HttpPostXjob`. What the processes,
streams and servers do is a parameter: any behaviour of theirs is some `Outside`.
-/
namespace Hella

open Text

/-- A Java string by its `char`s. -/
abbrev Chars := List UInt16

inductive XjobMode where
  | script | httpGet | httpPost | hive
  deriving DecidableEq, Repr

namespace XjobMode

def name : XjobMode → String
  | script => "script"
  | httpGet => "httpGet"
  | httpPost => "httpPost"
  | hive => "hive"

/-- `none` is IllegalArgumentException. -/
def valueOf (text : String) : Option XjobMode := [script, httpGet, httpPost, hive].find? (·.name = text)

end XjobMode

/-! ### `Constant` -/

def jobLogStart : Chars := Units.ofString "SCHED_JOB="
def progressSuccess : Int := 100
def progressError : Int := -1
def progressInit : Int := 0
def xjobLogMaxLength : Nat := 2000

/-- How reading a stream line by line comes to its end. The message of an exception may
be null. -/
inductive StreamEnd where
  | ended
  | ioException (message : Option Chars)
  /-- any other exception -/
  | exception (message : Option Chars)
  deriving DecidableEq, Repr

/-- A process that was started: what its streams give, and what `waitFor` does. -/
structure ShellProcess where
  output : List Chars := []
  outputEnd : StreamEnd := .ended
  /-- the exit value, or the message of an InterruptedException -/
  waitFor : Except (Option Chars) Int
  errors : List Chars := []
  errorsEnd : StreamEnd := .ended

structure Outside where
  /-- the system property `user.dir` -/
  userDir : String
  /-- `new Date()` -/
  date : String
  /-- `Runtime.exec` -/
  exec : String → Except (Option Chars) ShellProcess
  sendGet : String → Except Unit (Option Chars)
  sendPost : String → Option String → Except Unit (Option Chars)
  /-- `HtmlTagFilter.Html2Text`, which catches every exception -/
  html2Text : Option Chars → Chars

/-- The fields that the built-in jobs have in common. -/
structure XjobFields where
  jobPlanNodeState : Option JobPlanNodeState := none
  progress : Int := progressInit
  runInfo : Option Chars := none
  jobRunDate : Option String := none
  deriving DecidableEq, Repr

/-- What its getters show. -/
def XjobFields.xjob (x : XjobFields) : Xjob :=
  { jobPlanNodeState := x.jobPlanNodeState, progress := x.progress, runInfo := x.runInfo.map Units.toString
    jobRunDate := x.jobRunDate }

/-- The check of the content that each of them begins with. -/
def dispatchFail (o : Outside) (x : XjobFields) (runInfo : String) : XjobFields :=
  { x with
    progress := progressError
    runInfo := some (Units.ofString runInfo)
    jobPlanNodeState := some .dispatchFail
    jobRunDate := some o.date }

namespace ShellXjob

def new : XjobFields := { jobPlanNodeState := some .init }

def canCollector (content : Chars) : Bool :=
  if content ≠ [] then jobLogStart.isPrefixOf (Units.trim content) else false

/-- What one line adds to the collected text. -/
def collected (str : Chars) : Chars := if canCollector str then str.drop jobLogStart.length else []

/-- `infoDesc.append(message)`. -/
def message (text : Option Chars) : Chars := text.getD (Units.ofString "null")

/-- Step four. An exception that is no IOException is lost with the `break` in the
`finally` block. -/
def readOutput (x : XjobFields) (process : ShellProcess) : XjobFields × Chars :=
  let infoDesc := process.output.flatMap collected
  let echoDesc := process.output.flatten
  match process.outputEnd with
  | .ended => (x, if infoDesc = [] then echoDesc else infoDesc)
  | .ioException text => ({ x with progress := progressError }, infoDesc ++ message text)
  | .exception _ => (x, infoDesc)

/-- Step five. -/
def readExit (x : XjobFields) (jobPlanNodeName : String) (process : ShellProcess) (infoDesc : Chars) :
    XjobFields × Chars :=
  match process.waitFor with
  | .error text => ({ x with progress := progressError }, infoDesc ++ message text)
  | .ok iretCode =>
    if iretCode ≠ 0 then
      match process.errorsEnd with
      | .ended =>
        ({ x with progress := progressError, jobPlanNodeState := some .resultError },
          infoDesc ++ Units.ofString ("[" ++ jobPlanNodeName ++ "] shellCode:" ++ toString iretCode ++ "|") ++
            process.errors.flatten)
      | .ioException text | .exception text => ({ x with progress := progressError }, infoDesc ++ message text)
    else ({ x with progress := progressSuccess, jobPlanNodeState := some .resultSuccess }, infoDesc)

/-- Step two. -/
def command (executeUser : Option String) (shellFile : String) (args : Option String) : String :=
  (if executeUser.getD "" ≠ "" then " sudo -u " ++ executeUser.getD "" ++ " " else "") ++ " bash " ++ shellFile ++
    if args.getD "" ≠ "" then " " ++ args.getD "" else ""

def executeshell (o : Outside) (x : XjobFields) (jobPlanNodeName : String) (executeUser : Option String)
    (shellFile : String) (args : Option String) : XjobFields :=
  match o.exec (command executeUser shellFile args) with
  | .error _ => { x with progress := progressError }
  | .ok process =>
    let x := { x with jobPlanNodeState := some .dispatchSuccess, jobRunDate := some o.date }
    let (x, infoDesc) := readOutput x process
    let (x, infoDesc) := readExit x jobPlanNodeName process infoDesc
    { x with runInfo := some (infoDesc.take xjobLogMaxLength) }

def execute (o : Outside) (x : XjobFields) (jobEvent : JobEvent) : XjobFields :=
  if jobEvent.executionContent = "" then dispatchFail o x "It does not find shellFile for ShellCommand."
  else
    { executeshell o x jobEvent.jobPlanNodeName jobEvent.executeUser jobEvent.executionContent jobEvent.argsValue with
      jobRunDate := some o.date }

end ShellXjob

namespace HttpXjob

def new : XjobFields := {}

/-- `execute` of the two HTTP jobs. Their `trim` differs, and so does the request. -/
def execute (o : Outside) (send : JobEvent → Except Unit (Option Chars)) (cut : Chars → Chars) (x : XjobFields)
    (jobEvent : JobEvent) : XjobFields :=
  if jobEvent.executionContent = "" then dispatchFail o x "executionContent is not find."
  else
    let x := { x with jobPlanNodeState := some .dispatchSuccess, jobRunDate := some o.date }
    let x :=
      match send jobEvent with
      | .error _ => { x with progress := progressError, jobPlanNodeState := some .resultError }
      | .ok rs =>
        let runInfo := (rs.map fun text => cut (List.take xjobLogMaxLength text)).or x.runInfo
        { x with
          runInfo := some (o.html2Text runInfo)
          progress := progressSuccess
          jobPlanNodeState := some .resultSuccess }
    { x with jobRunDate := some o.date }

end HttpXjob

def HttpGetXjob.execute (o : Outside) : XjobFields → JobEvent → XjobFields :=
  HttpXjob.execute o (fun jobEvent => o.sendGet jobEvent.executionContent) Units.trim

def HttpPostXjob.execute (o : Outside) : XjobFields → JobEvent → XjobFields :=
  HttpXjob.execute o (fun jobEvent => o.sendPost jobEvent.executionContent jobEvent.argsValue) id

/-- The classes of the package `job.impl`. -/
inductive BuiltIn where
  | shellXjob | httpGetXjob | httpPostXjob
  deriving DecidableEq, Repr

namespace BuiltIn

def new : BuiltIn → XjobFields
  | shellXjob => ShellXjob.new
  | httpGetXjob | httpPostXjob => HttpXjob.new

def execute (o : Outside) : BuiltIn → XjobFields → JobEvent → XjobFields
  | shellXjob => ShellXjob.execute o
  | httpGetXjob => HttpGetXjob.execute o
  | httpPostXjob => HttpPostXjob.execute o

/-- The event with the absolute path that `XjobRunner.run` puts into a script. -/
def located (o : Outside) (event : JobEvent) : JobEvent :=
  if XjobMode.valueOf event.mode = some .script ∧ ¬ "/".toList.isPrefixOf event.executionContent.toList then
    { event with executionContent := o.userDir ++ "/" ++ "xjob/" ++ trim event.executionContent }
  else event

/-- The job once `XjobRunner.run` has returned or thrown: a mode that is none throws
before the job is executed. -/
def run (o : Outside) (kind : BuiltIn) (event : JobEvent) : XjobFields :=
  match XjobMode.valueOf event.mode with
  | none => kind.new
  | some _ => kind.execute o kind.new (located o event)

end BuiltIn

end Hella

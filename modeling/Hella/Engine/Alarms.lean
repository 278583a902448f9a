import Hella.Lib.Runs

/-!
# Alarms and the audit log

`AlarmMessageManager` and `EngineMetrics` pass alarms on to the monitor; `LogCollector`
and `SystemLogTask` pass log entries on to the database. Either pair moves a list from
one owner to the other.
-/
namespace Hella

open Runs

/-- A message of the monitor library: `new AlarmMessage(phones, emails, subject, content)`. -/
structure AlarmMessage where
  mobilePhoneNumbers : Option (List String) := none
  emailAddresses : Option (List String) := none
  subject : Option String
  content : Option String
  deriving DecidableEq, Repr

structure AlarmMessageManager where
  /-- what the monitor answers to `judgeEmailWarning` -/
  isEmailWarning : Bool := true
  /-- what the monitor answers to `judgeMobilePhoneWarning` -/
  isMobilePhoneWarning : Bool := true
  adminEmails : Option (List String) := none
  adminMobilePhones : Option (List String) := none
  messages : List AlarmMessage := []
  deriving DecidableEq, Repr

namespace AlarmMessageManager

variable (m : AlarmMessageManager)

def addEmailAlarmMessage (emailAddresses : Option (List String)) (subject content : Option String) :
    AlarmMessageManager :=
  if !m.isEmailWarning then m
  else
    { m with
      messages :=
        m.messages ++ [{ emailAddresses := emailAddresses.or m.adminEmails, subject := subject, content := content }] }

def addMobilePhoneAlarmMessage (mobilePhoneNumbers : Option (List String)) (title content : Option String) :
    AlarmMessageManager :=
  if !m.isMobilePhoneWarning then m
  else
    { m with
      messages := m.messages ++
        [{ mobilePhoneNumbers := mobilePhoneNumbers.or m.adminMobilePhones, subject := title, content := content }] }

def addAdminAlarmMessage (exceptionType msg : Option String) : AlarmMessageManager :=
  (m.addEmailAlarmMessage none exceptionType msg).addMobilePhoneAlarmMessage none exceptionType msg

def isHasAlarmMessage : Bool := !m.messages.isEmpty

def clear : AlarmMessageManager := { m with messages := [] }

end AlarmMessageManager

structure EngineMetrics where
  messages : List AlarmMessage := []
  alarmMessageManager : AlarmMessageManager
  deriving DecidableEq, Repr

namespace EngineMetrics

/-- The manager's messages are taken when it says that it has none. -/
def doUpdates (e : EngineMetrics) : EngineMetrics :=
  let messages := if !e.messages.isEmpty then [] else e.messages
  if !e.alarmMessageManager.isHasAlarmMessage then
    { messages := messages ++ e.alarmMessageManager.messages, alarmMessageManager := e.alarmMessageManager.clear }
  else { e with messages := messages }

def getAlarmMessage (e : EngineMetrics) : List AlarmMessage := e.messages

end EngineMetrics

structure SystemLog where
  operatorName : Option String := none
  ip : Option String := none
  logType : Option String
  logContent : Option String
  createDate : Option String := none
  deriving DecidableEq, Repr

/-- A `SystemLog` object; each has its number. -/
structure LogEntry where
  serial : Nat
  log : SystemLog
  deriving DecidableEq, Repr

/-- How `systemLogDao.save` ends. -/
inductive Saving where
  | saved
  /-- DaoException, which the task logs -/
  | failed
  /-- any other exception, which leaves `run` -/
  | broken
  deriving DecidableEq, Repr

/-- Where a run of `SystemLogTask` is. The iterator of the live list is its cursor and the
modification count it expects. -/
inductive SystemLogTask where
  | idle
  | saving (cursor expectedModCount : Nat)
  | removing
  /-- an exception has left `run` after so many entries -/
  | aborted (cursor : Nat)
  deriving DecidableEq, Repr

/-- The collector, the task and what has passed between them. -/
structure Auditing where
  systemLogList : List LogEntry := []
  modCount : Nat := 0
  task : SystemLogTask := .idle
  alarmMessageManager : AlarmMessageManager := {}
  /-- how many entries were added so far -/
  added : Nat := 0
  /-- the entries `save` was called with -/
  passed : List LogEntry := []
  deriving DecidableEq, Repr

namespace Auditing

def maxCount : Nat := 100

variable (s : Auditing)

/-- `addSystemLog`. -/
def addSystemLog (log : SystemLog) : Auditing :=
  let entry : LogEntry := ⟨s.added, log⟩
  if s.systemLogList.length > maxCount then
    { s with systemLogList := [entry], modCount := s.modCount + 2, added := s.added + 1 }
  else { s with systemLogList := s.systemLogList ++ [entry], modCount := s.modCount + 1, added := s.added + 1 }

/-- `removeSystemLogList`, with the collector's own list. -/
def removeSystemLogList : Auditing := { s with systemLogList := [], modCount := s.modCount + s.systemLogList.length }

/-- `run` up to its loop. -/
def run : Auditing :=
  if s.systemLogList.isEmpty then { s with task := .idle } else { s with task := .saving 0 s.modCount }

/-- The alarm about an entry of type `sysException`. -/
def warn (log : SystemLog) : AlarmMessageManager :=
  if log.logType = some "sysException" then s.alarmMessageManager.addAdminAlarmMessage log.logType log.logContent
  else s.alarmMessageManager

/-- One turn of the loop: `hasNext`, `next` and the body. An entry that came meanwhile makes
`next` throw ConcurrentModificationException. -/
def turn (cursor expectedModCount : Nat) (saving : Saving) : Auditing :=
  if cursor = s.systemLogList.length then { s with task := .removing }
  else if s.modCount ≠ expectedModCount then { s with task := .aborted cursor }
  else
    match s.systemLogList[cursor]? with
    | none => { s with task := .aborted cursor }
    | some entry =>
      let s := { s with passed := s.passed ++ [entry] }
      match saving with
      | .broken => { s with task := .aborted (cursor + 1) }
      | _ => { s with alarmMessageManager := s.warn entry.log, task := .saving (cursor + 1) expectedModCount }

inductive Label where
  | addSystemLog (log : SystemLog)
  | run
  | turn (saving : Saving)
  | removeSystemLogList

/-- Threads add at any time; a run of the task starts when none is under way. -/
inductive Step : Auditing → Label → Auditing → Prop where
  | addSystemLog (s : Auditing) (log : SystemLog) : Step s (.addSystemLog log) (s.addSystemLog log)
  | run {s : Auditing} (free : s.task = .idle ∨ ∃ cursor, s.task = .aborted cursor) : Step s .run s.run
  | turn {s : Auditing} {cursor expectedModCount : Nat} (saving : Saving)
    (under : s.task = .saving cursor expectedModCount) :
      Step s (.turn saving) (s.turn cursor expectedModCount saving)
  | removeSystemLogList {s : Auditing} (under : s.task = .removing) :
      Step s .removeSystemLogList { s.removeSystemLogList with task := .idle }

def system : System Auditing Label where
  initial s := ∃ m, s = { alarmMessageManager := m }
  step := Step

end Auditing

end Hella

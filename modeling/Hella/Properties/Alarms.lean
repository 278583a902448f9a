import Hella.Engine.Alarms

/-!
# Alarms and audit entries on their way

A poll should move every pending alarm to the monitor, and a run of the log task every
pending entry to the database. The poll asks the wrong way round: it moves the messages
when there are none. The task removes the collector's live list, with whatever came in
after its loop had ended.
-/
namespace Hella

open Runs

/-! ### Alarms -/

/-- A call of a producer or of the monitor. -/
inductive AlarmCall where
  | addEmailAlarmMessage (emailAddresses : Option (List String)) (subject content : Option String)
  | addMobilePhoneAlarmMessage (mobilePhoneNumbers : Option (List String)) (title content : Option String)
  | doUpdates
  deriving DecidableEq, Repr

namespace EngineMetrics

def perform (e : EngineMetrics) : AlarmCall → EngineMetrics
  | .addEmailAlarmMessage addresses subject content =>
    { e with alarmMessageManager := e.alarmMessageManager.addEmailAlarmMessage addresses subject content }
  | .addMobilePhoneAlarmMessage numbers title content =>
    { e with alarmMessageManager := e.alarmMessageManager.addMobilePhoneAlarmMessage numbers title content }
  | .doUpdates => e.doUpdates

def performAll (e : EngineMetrics) (calls : List AlarmCall) : EngineMetrics := calls.foldl perform e

/-- What `getAlarmMessage` returns after each `doUpdates`, one list after the other. -/
def delivered (e : EngineMetrics) : List AlarmCall → List AlarmMessage
  | [] => []
  | .doUpdates :: calls => e.doUpdates.getAlarmMessage ++ e.doUpdates.delivered calls
  | call :: calls => (e.perform call).delivered calls

/-- The message a call adds, with the administrator's addresses where it names none. -/
def messageOf (m : AlarmMessageManager) : AlarmCall → List AlarmMessage
  | .addEmailAlarmMessage addresses subject content =>
    [{ emailAddresses := addresses.or m.adminEmails, subject := subject, content := content }]
  | .addMobilePhoneAlarmMessage numbers title content =>
    [{ mobilePhoneNumbers := numbers.or m.adminMobilePhones, subject := title, content := content }]
  | .doUpdates => []

/-- Every message the calls add is delivered once or still pending, and none is pending
after a poll. -/
structure DeliveredOnce (e : EngineMetrics) (calls : List AlarmCall) : Prop where
  conserved : e.delivered calls ++ (e.performAll calls).alarmMessageManager.messages =
    calls.flatMap (messageOf e.alarmMessageManager)
  polled : ∀ before, before ++ [.doUpdates] <+: calls →
    (e.performAll (before ++ [.doUpdates])).alarmMessageManager.messages = []

/-- Both warnings are configured and no message is on its way. -/
structure Fresh (e : EngineMetrics) : Prop where
  email : e.alarmMessageManager.isEmailWarning = true
  mobilePhone : e.alarmMessageManager.isMobilePhoneWarning = true
  pending : e.alarmMessageManager.messages = []
  taken : e.messages = []

/-- A poll comes before every added message. -/
def PolledFirst (calls : List AlarmCall) : Prop :=
  ∀ before, before ++ [.doUpdates] <+: calls → ∀ call ∈ before, call = .doUpdates

section

variable {e : EngineMetrics} {calls : List AlarmCall}

/-- The manager that has further messages pending. -/
def pend (e : EngineMetrics) (messages : List AlarmMessage) : EngineMetrics :=
  { e with alarmMessageManager := { e.alarmMessageManager with messages := messages } }

/-- A poll takes nothing: it asks for messages when there are none. -/
theorem doUpdates_idle (taken : e.messages = []) : e.doUpdates = e := by
  obtain ⟨messages, manager⟩ := e
  obtain ⟨email, mobile, admins, phones, pending⟩ := manager
  cases taken
  cases pending with
  | nil => rfl
  | cons message rest => rfl

theorem perform_eq (email : e.alarmMessageManager.isEmailWarning = true)
    (mobilePhone : e.alarmMessageManager.isMobilePhoneWarning = true) (taken : e.messages = []) (call : AlarmCall) :
    e.perform call = e.pend (e.alarmMessageManager.messages ++ messageOf e.alarmMessageManager call) := by
  cases call with
  | addEmailAlarmMessage addresses subject content =>
    simp [perform, AlarmMessageManager.addEmailAlarmMessage, email, messageOf, pend]
  | addMobilePhoneAlarmMessage numbers title content =>
    simp [perform, AlarmMessageManager.addMobilePhoneAlarmMessage, mobilePhone, messageOf, pend]
  | doUpdates => simp [perform, doUpdates_idle taken, messageOf, pend]

/-- Whatever is called, everything that was added stays pending. -/
theorem performAll_eq (email : e.alarmMessageManager.isEmailWarning = true)
    (mobilePhone : e.alarmMessageManager.isMobilePhoneWarning = true) (taken : e.messages = [])
    (calls : List AlarmCall) :
    e.performAll calls = e.pend (e.alarmMessageManager.messages ++ calls.flatMap (messageOf e.alarmMessageManager)) ∧
      e.delivered calls = [] := by
  induction calls generalizing e with
  | nil => simp [performAll, delivered, pend]
  | cons call calls ih =>
    have first := perform_eq email mobilePhone taken call
    have rest := ih (e := e.perform call) (by simp [first, pend, email]) (by simp [first, pend, mobilePhone])
      (by simp [first, pend, taken])
    have same : messageOf (e.perform call).alarmMessageManager = messageOf e.alarmMessageManager := by
      funext other
      cases other <;> simp [first, pend, messageOf]
    constructor
    · calc e.performAll (call :: calls) = (e.perform call).performAll calls := rfl
        _ = _ := rest.1
        _ = _ := by rw [same, first]; simp [pend]
    · cases call with
      | doUpdates =>
        have idle : e.perform .doUpdates = e := doUpdates_idle taken
        rw [idle] at rest
        simp [delivered, doUpdates_idle taken, getAlarmMessage, taken, rest.2]
      | addEmailAlarmMessage => exact rest.2
      | addMobilePhoneAlarmMessage => exact rest.2

theorem messageOf_eq_nil {m : AlarmMessageManager} {call : AlarmCall} : messageOf m call = [] ↔ call = .doUpdates := by
  cases call <;> simp [messageOf]

end

/-- Exactly the sequences in which no poll comes after a message are delivered once. -/
theorem deliveredOnce_iff {e : EngineMetrics} (fresh : e.Fresh) (calls : List AlarmCall) :
    e.DeliveredOnce calls ↔ PolledFirst calls := by
  have whole := performAll_eq fresh.email fresh.mobilePhone fresh.taken
  have pending (calls : List AlarmCall) :
      (e.performAll calls).alarmMessageManager.messages = calls.flatMap (messageOf e.alarmMessageManager) := by
    rw [(whole calls).1, fresh.pending]
    rfl
  have empty (before : List AlarmCall) :
      (e.performAll (before ++ [.doUpdates])).alarmMessageManager.messages = [] ↔
        ∀ call ∈ before, call = .doUpdates := by
    rw [pending, List.flatMap_append, List.append_eq_nil_iff, List.flatMap_eq_nil_iff]
    simp only [messageOf_eq_nil]
    exact and_iff_left rfl
  constructor
  · intro once before poll
    exact (empty before).mp (once.polled before poll)
  · intro first
    constructor
    -- nothing is ever delivered, so nothing is lost or delivered twice
    · rw [(whole calls).2, pending]
      rfl
    · intro before poll
      exact (empty before).mpr (first before poll)

/-- One poll before, and one message after it. -/
theorem deliveredOnce_pollThenAlarm :
    DeliveredOnce { alarmMessageManager := {} } [.doUpdates, .addEmailAlarmMessage none (some "Error") (some "down")] ∧
      PolledFirst [.doUpdates, .addEmailAlarmMessage none (some "Error") (some "down")] := by
  have fresh : Fresh { alarmMessageManager := {} } := ⟨rfl, rfl, rfl, rfl⟩
  have first : PolledFirst [.doUpdates, .addEmailAlarmMessage none (some "Error") (some "down")] := by
    intro before poll call member
    obtain ⟨rest, split⟩ := poll
    match before, split with
    | [], _ => cases member
    | [_], split => simp at split
    | [_, _], split => simp at split
    | _ :: _ :: _ :: _, split => simp at split
  exact ⟨(deliveredOnce_iff fresh _).mpr first, first⟩

/-- The one alarm before the poll is neither delivered nor forgotten, but pending. -/
theorem not_deliveredOnce_alarmThenPoll :
    Fresh { alarmMessageManager := {} } ∧
      ¬ DeliveredOnce { alarmMessageManager := {} }
        [.addEmailAlarmMessage none (some "Error") (some "down"), .doUpdates] := by
  refine ⟨⟨rfl, rfl, rfl, rfl⟩, fun once => ?_⟩
  have pending := once.polled [.addEmailAlarmMessage none (some "Error") (some "down")] (List.prefix_refl _)
  simp [performAll, perform, AlarmMessageManager.addEmailAlarmMessage, doUpdates, AlarmMessageManager.isHasAlarmMessage]
    at pending

end EngineMetrics

/-! ### Audit entries -/

namespace Auditing

/-- Every entry that was added is in the collector or was passed to `save`, and none was
passed twice. -/
structure Kept (s : Auditing) : Prop where
  somewhere : ∀ serial < s.added, (∃ entry ∈ s.systemLogList, entry.serial = serial) ∨ ∃ entry ∈ s.passed,
    entry.serial = serial
  once : (s.passed.map LogEntry.serial).Nodup

/-- Fewer entries than the limit are pending when one is added. -/
def Bounded (s : Auditing) : Label → Prop
  | .addSystemLog _ => s.systemLogList.length < maxCount
  | _ => True

/-- Nothing is added between the end of a run's loop and its removal, and no run starts
after one that an exception has cut short when it had passed on some entry. -/
def Orderly (s : Auditing) : Label → Prop
  | .addSystemLog _ => s.task ≠ .removing
  | .run => ∀ cursor, s.task = .aborted cursor → cursor = 0
  | _ => True

/-- How much of the list the run under way has passed on. -/
def SystemLogTask.Passed (list : List LogEntry) (k : Nat) : SystemLogTask → Prop
  | .idle => k = 0
  | .saving cursor _ => k = cursor
  | .removing => k = list.length
  | .aborted cursor => k = cursor

/-- The entries of the finished runs, then those the run under way has passed on, then the
others of the list: all that were added, in order. -/
def Accounted (s : Auditing) : Prop :=
  ∃ done k, k ≤ s.systemLogList.length ∧ s.passed = done ++ s.systemLogList.take k ∧
    (done ++ s.systemLogList).map LogEntry.serial = List.range s.added ∧ SystemLogTask.Passed s.systemLogList k s.task

section

variable {s t : Auditing} {label : Label}

theorem Accounted.kept (accounted : s.Accounted) : s.Kept := by
  obtain ⟨done, k, -, passed, all, -⟩ := accounted
  constructor
  · intro serial below
    have among : serial ∈ (done ++ s.systemLogList).map LogEntry.serial := by
      rw [all]
      exact List.mem_range.mpr below
    obtain ⟨entry, member, rfl⟩ := List.mem_map.mp among
    rcases List.mem_append.mp member with old | pending
    · exact .inr ⟨entry, by rw [passed]; exact List.mem_append_left _ old, rfl⟩
    · exact .inl ⟨entry, pending, rfl⟩
  · -- what was passed on is a first part of what was added
    have part : (s.passed.map LogEntry.serial).Sublist (List.range s.added) := by
      rw [passed, ← all]
      exact (List.Sublist.append_left (List.take_sublist k _) done).map _
    exact part.nodup List.nodup_range

theorem Accounted.addSystemLog (accounted : s.Accounted) (room : s.systemLogList.length < maxCount)
    (open_ : s.task ≠ .removing) (log : SystemLog) : (s.addSystemLog log).Accounted := by
  obtain ⟨done, k, within, passed, all, position⟩ := accounted
  have appends : s.addSystemLog log =
      { s with
        systemLogList := s.systemLogList ++ [⟨s.added, log⟩], modCount := s.modCount + 1, added := s.added + 1 } :=
    if_neg (by omega)
  rw [appends]
  refine ⟨done, k, ?_, ?_, ?_, ?_⟩
  · simp only [List.length_append]
    omega
  · rw [passed, List.take_append_of_le_length within]
  · rw [← List.append_assoc, List.map_append, all, List.range_succ]
    rfl
  · -- the run stays where it is, unless it is about to remove
    change SystemLogTask.Passed _ k s.task
    cases at_ : s.task with
    | removing => exact absurd at_ open_
    | aborted => rwa [at_] at position
    | idle => rwa [at_] at position
    | saving => rwa [at_] at position

theorem Accounted.turn (accounted : s.Accounted) {cursor expectedModCount : Nat}
    (under : s.task = .saving cursor expectedModCount) (saving : Saving) :
    (s.turn cursor expectedModCount saving).Accounted := by
  obtain ⟨done, k, within, passed, all, position⟩ := accounted
  rw [under] at position
  obtain rfl : k = cursor := position
  unfold Auditing.turn
  split
  next last => exact ⟨done, k, within, passed, all, last⟩
  next before =>
    split
    next => exact ⟨done, k, within, passed, all, rfl⟩
    next =>
      have inside : k < s.systemLogList.length := by omega
      rw [List.getElem?_eq_getElem inside]
      have next : s.passed ++ [s.systemLogList[k]] = done ++ s.systemLogList.take (k + 1) := by
        rw [passed, List.append_assoc, List.take_append_getElem]
      cases saving with
      | broken => exact ⟨done, k + 1, inside, next, all, rfl⟩
      | saved => exact ⟨done, k + 1, inside, next, all, rfl⟩
      | failed => exact ⟨done, k + 1, inside, next, all, rfl⟩

theorem Accounted.step (accounted : s.Accounted) (bounded : s.Bounded label) (orderly : s.Orderly label)
    (step : Step s label t) : t.Accounted := by
  cases step with
  | addSystemLog log => exact accounted.addSystemLog bounded orderly log
  | run free =>
    obtain ⟨done, k, within, passed, all, position⟩ := accounted
    -- a run starts at the head of the list, and nothing of it was passed on before
    obtain rfl : k = 0 := by
      rcases free with idle | ⟨cursor, aborted⟩
      · rwa [idle] at position
      · rw [aborted] at position
        exact Eq.trans position (orderly cursor aborted)
    unfold Auditing.run
    split <;> exact ⟨done, 0, within, passed, all, rfl⟩
  | turn saving under => exact accounted.turn under saving
  | removeSystemLogList under =>
    obtain ⟨done, k, within, passed, all, position⟩ := accounted
    rw [under] at position
    obtain rfl : k = s.systemLogList.length := position
    -- the whole list has been passed on when it goes
    rw [List.take_length] at passed
    exact ⟨s.passed, 0, Nat.zero_le _, by simp [removeSystemLogList], by
      simpa [removeSystemLogList, passed] using all, rfl⟩

/-- An entry that comes before the removal is lost with it. -/
theorem Accounted.lost (accounted : s.Accounted) (log : SystemLog) :
    ¬ (s.addSystemLog log).removeSystemLogList.Kept := by
  obtain ⟨done, k, -, passed, all, -⟩ := accounted
  intro kept
  have same : (s.addSystemLog log).removeSystemLogList.added = s.added + 1 ∧
      (s.addSystemLog log).removeSystemLogList.passed = s.passed := by
    unfold Auditing.addSystemLog
    split <;> exact ⟨rfl, rfl⟩
  rcases kept.somewhere s.added (by omega) with ⟨entry, member, -⟩ | ⟨entry, member, serial⟩
  · cases member
  · -- what was passed on was added before
    rw [same.2, passed] at member
    have among : entry ∈ done ++ s.systemLogList :=
      (List.Sublist.append_left (List.take_sublist k _) done).subset member
    have below : entry.serial ∈ List.range s.added := all ▸ List.mem_map_of_mem among
    rw [List.mem_range] at below
    omega

/-- A run after one that was cut short passes the first entry on again. -/
theorem Accounted.twice (accounted : s.Accounted) {cursor : Nat} (aborted : s.task = .aborted cursor)
    (some_ : 0 < cursor) (saving : Saving) : ¬ (s.run.turn 0 s.modCount saving).Kept := by
  obtain ⟨done, k, within, passed, -, position⟩ := accounted
  rw [aborted] at position
  obtain rfl : k = cursor := position
  match list : s.systemLogList with
  | [] =>
    rw [list] at within
    exact absurd some_ (by simpa using within)
  | entry :: rest =>
    have again : (s.run.turn 0 s.modCount saving).passed = s.passed ++ [entry] := by
      cases saving <;> simp [Auditing.run, Auditing.turn, list]
    intro kept
    have once := kept.once
    rw [again, List.map_append, List.nodup_append] at once
    have member : entry ∈ s.passed := by
      rw [passed, list]
      exact List.mem_append_right _ (List.mem_take_iff_getElem.mpr ⟨0, by simp; omega, rfl⟩)
    exact once.2.2 entry.serial (List.mem_map_of_mem member) entry.serial (by simp) rfl

/-- In a run whose additions come at an orderly point, every entry is kept. -/
theorem kept_of_orderly (reachable : Reachable system (fun s label => s.Bounded label ∧ s.Orderly label) s) :
    s.Kept := by
  apply Accounted.kept
  apply reachable.invariant
  · rintro _ ⟨m, rfl⟩
    exact ⟨[], 0, Nat.le_refl _, rfl, rfl, rfl⟩
  · intro s label t accounted admitted step
    exact accounted.step admitted.1 admitted.2 step

end

def login : SystemLog :=
  { operatorName := some "root", ip := some "10.0.0.1", logType := some "login", logContent := some "in" }

/-- One entry was added, and a run has passed it on. -/
def passedOne : Auditing := (addSystemLog {} login).run.turn 0 1 .saved

theorem reachable_passedOne : Reachable system (fun s label => s.Bounded label ∧ s.Orderly label) passedOne := by
  have added : Step {} (.addSystemLog login) (addSystemLog {} login) := .addSystemLog {} login
  have running : Step (addSystemLog {} login) .run (addSystemLog {} login).run := .run (.inl rfl)
  have saved : Step (addSystemLog {} login).run (.turn .saved) passedOne := .turn .saved rfl
  have start : Reachable system (fun s label => s.Bounded label ∧ s.Orderly label) {} := .start ⟨{}, rfl⟩
  refine .next (.next (.next start ?_ added) ?_ running) ?_ saved
  · exact ⟨show 0 < maxCount by decide, fun removing => by cases removing⟩
  · exact ⟨trivial, fun cursor aborted => by cases aborted⟩
  · exact ⟨trivial, trivial⟩

/-- The list of the run is removed. -/
def removedOne : Auditing := { (passedOne.turn 1 1 .saved).removeSystemLogList with task := .idle }

/-- One more entry was added then, and a second run has passed it on. -/
def passedTwo : Auditing := (removedOne.addSystemLog login).run.turn 0 3 .saved

theorem reachable_passedTwo : Reachable system (fun s label => s.Bounded label ∧ s.Orderly label) passedTwo := by
  have through : Step passedOne (.turn .saved) (passedOne.turn 1 1 .saved) := .turn .saved rfl
  have removed : Step (passedOne.turn 1 1 .saved) .removeSystemLogList removedOne := .removeSystemLogList rfl
  have added : Step removedOne (.addSystemLog login) (removedOne.addSystemLog login) := .addSystemLog _ login
  have running : Step (removedOne.addSystemLog login) .run (removedOne.addSystemLog login).run := .run (.inl rfl)
  have saved : Step (removedOne.addSystemLog login).run (.turn .saved) passedTwo := .turn .saved rfl
  refine .next (.next (.next (.next (.next reachable_passedOne ?_ through) ?_ removed) ?_ added) ?_ running) ?_ saved
  · exact ⟨trivial, trivial⟩
  · exact ⟨trivial, trivial⟩
  · exact ⟨show 0 < maxCount by decide, fun removing => by cases removing⟩
  · exact ⟨trivial, fun cursor aborted => by cases aborted⟩
  · exact ⟨trivial, trivial⟩

/-- One entry has been passed on and removed; of the next two the last comes during the loop of a run. -/
theorem kept_lateEntry : removedOne.systemLogList = [] ∧ (passedTwo.addSystemLog login).passed.length = 2 ∧
    (passedTwo.addSystemLog login).systemLogList.length = 2 ∧ (passedTwo.addSystemLog login).Kept := by
  have late : Step passedTwo (.addSystemLog login) (passedTwo.addSystemLog login) := .addSystemLog _ login
  refine ⟨rfl, rfl, rfl, kept_of_orderly (.next reachable_passedTwo ?_ late)⟩
  exact ⟨show 1 < maxCount by decide, fun removing => by cases removing⟩

/-- The second entry comes after the loop and before the removal. -/
theorem not_kept_lateEntry : ∃ s, Reachable system Bounded s ∧ ¬ s.Kept := by
  have through : Step passedOne (.turn .saved) (passedOne.turn 1 1 .saved) := .turn .saved rfl
  have late : Step (passedOne.turn 1 1 .saved) (.addSystemLog login) ((passedOne.turn 1 1 .saved).addSystemLog login) :=
    .addSystemLog _ login
  have removed : Step ((passedOne.turn 1 1 .saved).addSystemLog login) .removeSystemLogList
      { ((passedOne.turn 1 1 .saved).addSystemLog login).removeSystemLogList with task := .idle } :=
        .removeSystemLogList rfl
  have start : Reachable system Bounded passedOne := reachable_passedOne.mono fun _ _ admitted => admitted.1
  refine ⟨_, .next (.next (.next start ?_ through) ?_ late) ?_ removed, ?_⟩
  · trivial
  · exact show 1 < maxCount by decide
  · trivial
  · intro kept
    have nowhere := kept.somewhere 1 (by decide)
    revert nowhere
    decide

end Auditing

end Hella

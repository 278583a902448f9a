import Hella.Properties.Batch
import Hella.Protocol.World

/-!
# What an executor reports

A job is listed from the step that finishes it until a heartbeat that carries it has come
back. The jobs are counted in the order in which they were handed to the thread pool;
an event ID that is executed again names a new job.
-/
namespace Hella

open Runs

/-! ### The last place of an ID -/

/-- The last place where an ID occurs. -/
def lastPlace (ids : List String) (eventID : String) : Option Nat :=
  (ids.reverse.idxOf? eventID).map fun fromEnd => ids.length - 1 - fromEnd

theorem lastPlace_append (ids : List String) (other eventID : String) :
    lastPlace (ids ++ [other]) eventID = if other = eventID then some ids.length else lastPlace ids eventID := by
  rw [lastPlace, List.reverse_append, List.reverse_singleton, List.singleton_append, List.idxOf?_cons]
  by_cases same : other = eventID
  · simp [same]
  · rw [if_neg (by simpa using same), if_neg same, Option.map_map, lastPlace]
    congr 1
    funext fromEnd
    simp only [Function.comp_apply, List.length_append, List.length_singleton]
    omega

theorem getElem?_of_lastPlace {ids : List String} {eventID : String} {n : Nat} (last : lastPlace ids eventID = some n) :
    ids[n]? = some eventID := by
  obtain ⟨fromEnd, found, rfl⟩ := Option.map_eq_some_iff.mp last
  obtain ⟨inside, here, -⟩ := List.idxOf?_eq_some_iff.mp found
  rw [List.length_reverse] at inside
  rw [List.getElem_reverse] at here
  exact List.getElem?_eq_some_iff.mpr ⟨by omega, by simpa using here⟩

theorem JobPlanNodeState.name_ne_dispatchSuccess (state : JobPlanNodeState) (final : state.isRunningState = false) :
    state.name ≠ dispatchSuccess.name := by
  cases state <;> first | decide | cases final

namespace Executor

variable {newInstance : String → Instantiation} {x : Executor} {eventID : String} {report : JobProgress}

/-- The job's own thread changes its `Xjob`, which the runner holds. -/
def changed (x : Executor) (eventID : String) (xjob : Xjob) : Executor :=
  match x.xjobRunners.lookup eventID with
  | none => x
  | some runner => { x with xjobRunners := x.xjobRunners.insert eventID { runner with xjob := xjob } }

/-! ### The collected list -/

/-- The two maps have the same keys, and a progress has its own ID. -/
structure Paired (x : Executor) : Prop where
  keys : ∀ eventID, eventID ∈ x.jobProgressMap ↔ eventID ∈ x.xjobRunners
  reads : ∀ eventID jobProgress, x.jobProgressMap.lookup eventID = some jobProgress → jobProgress.eventID = eventID

theorem reportOf_eq_some : x.reportOf eventID = some report ↔
    ∃ runner state jobProgress, x.xjobRunners.lookup eventID = some runner ∧ runner.xjob.jobPlanNodeState = some state ∧
      state.isRunningState = false ∧ x.jobProgressMap.lookup eventID = some jobProgress ∧
      { jobProgress with
        jobPlanNodeState := state.name
        progress := runner.xjob.progress
        runTime := some (runner.xjob.jobRunDate.getD "")
        runInfo := runner.xjob.runInfo } = report := by
  simp only [reportOf, Option.bind_eq_bind, Option.bind_eq_some_iff]
  constructor
  · rintro ⟨runner, found, state, known, rest⟩
    split at rest
    · cases rest
    next final =>
      obtain ⟨jobProgress, stored, same⟩ := Option.bind_eq_some_iff.mp rest
      exact ⟨runner, state, jobProgress, found, known, by simpa using final, stored, Option.some.inj same⟩
  · rintro ⟨runner, state, jobProgress, found, known, final, stored, rfl⟩
    refine ⟨runner, found, state, known, ?_⟩
    rw [if_neg (by simp [final])]
    simp [stored]

/-- A listed report is about a final state of the job that is registered under its ID. -/
theorem Paired.listed (paired : x.Paired) (listed : report ∈ x.getJobProgressList) :
    ∃ runner state, x.xjobRunners.lookup report.eventID = some runner ∧ runner.xjob.jobPlanNodeState = some state ∧
      state.isRunningState = false ∧ report.jobPlanNodeState = state.name := by
  obtain ⟨eventID, -, made⟩ := List.mem_filterMap.mp listed
  obtain ⟨runner, state, jobProgress, found, known, final, stored, rfl⟩ := reportOf_eq_some.mp made
  have own : jobProgress.eventID = eventID := paired.reads _ _ stored
  subst own
  exact ⟨runner, state, found, known, final, rfl⟩

/-- Every registered job in a final state is listed. -/
theorem Paired.lists (paired : x.Paired) {runner : XjobRunner} {state : JobPlanNodeState}
    (found : x.xjobRunners.lookup eventID = some runner) (known : runner.xjob.jobPlanNodeState = some state)
    (final : state.isRunningState = false) : ∃ report ∈ x.getJobProgressList, report.eventID = eventID := by
  have collected : eventID ∈ x.jobProgressMap :=
    (paired.keys eventID).mpr (AList.lookup_isSome.mp (Option.isSome_iff_exists.mpr ⟨runner, found⟩))
  obtain ⟨jobProgress, stored⟩ := Option.isSome_iff_exists.mp (AList.lookup_isSome.mpr collected)
  refine ⟨_, List.mem_filterMap.mpr ⟨eventID, AList.mem_keys.mp collected, reportOf_eq_some.mpr
    ⟨runner, state, jobProgress, found, known, final, stored, rfl⟩⟩, ?_⟩
  have own := paired.reads _ _ stored
  exact own

/-! ### What keeps the maps paired -/

theorem Paired.clearEvent (paired : x.Paired) (eventID : String) : (x.clearEvent eventID).Paired where
  keys other := by
    simp only [Executor.clearEvent, removeXjobRunner, AList.mem_erase, paired.keys]
  reads other jobProgress stored := by
    have left : (x.jobProgressMap.erase eventID).lookup other = some jobProgress := stored
    by_cases own : other = eventID
    · rw [own, AList.lookup_erase] at left
      cases left
    · rw [AList.lookup_erase_ne own] at left
      exact paired.reads other jobProgress left

theorem Paired.added (paired : x.Paired) (event : JobEvent) (xjob : Xjob) :
    ((x.addProgress event).add { xjob := xjob, event := event }).Paired where
  keys other := by
    simp only [add, addProgress, AList.mem_insert, paired.keys]
  reads other jobProgress stored := by
    simp only [add, addProgress] at stored
    by_cases own : other = event.eventID
    · rw [own, AList.lookup_insert] at stored
      cases stored
      exact own.symm
    · rw [AList.lookup_insert_ne own] at stored
      exact paired.reads other jobProgress stored

theorem Paired.changed (paired : x.Paired) (eventID : String) (xjob : Xjob) : (x.changed eventID xjob).Paired := by
  unfold Executor.changed
  split
  · exact paired
  next runner found =>
    have there : eventID ∈ x.xjobRunners := AList.lookup_isSome.mp (Option.isSome_iff_exists.mpr ⟨runner, found⟩)
    refine ⟨fun other => ?_, paired.reads⟩
    simp only [AList.mem_insert, paired.keys]
    exact ⟨.inr, fun either => either.elim (· ▸ there) id⟩

theorem Paired.clearEvent_absent (paired : x.Paired) (absent : eventID ∉ x.xjobRunners) : x.clearEvent eventID = x := by
  have uncollected : eventID ∉ x.jobProgressMap := fun collected => absent ((paired.keys eventID).mp collected)
  have erased {V : Type} {map : JMap V} (missing : eventID ∉ map) : map.erase eventID = map :=
    AList.ext (List.kerase_of_notMem_keys missing)
  simp only [Executor.clearEvent, removeXjobRunner, erased absent, erased uncollected]

theorem lookup_changed (x : Executor) (eventID other : String) (xjob : Xjob) :
    (x.changed eventID xjob).xjobRunners.lookup other =
      if other = eventID then (x.xjobRunners.lookup eventID).map fun runner => { runner with xjob := xjob }
      else x.xjobRunners.lookup other := by
  unfold Executor.changed
  split
  next none_ =>
    split
    next own => rw [own, none_, Option.map_none]
    · rfl
  next runner found =>
    split
    next own => rw [own, AList.lookup_insert, found, Option.map_some]
    next foreign => exact AList.lookup_insert_ne foreign

theorem mem_changed {other : String} {xjob : Xjob} :
    other ∈ (x.changed eventID xjob).xjobRunners ↔ other ∈ x.xjobRunners := by
  rw [← AList.lookup_isSome, ← AList.lookup_isSome, lookup_changed]
  split
  next own => rw [own, Option.isSome_map]
  · rfl

/-- `clear` removes exactly the listed jobs whose reports are not of a dispatch. -/
theorem lookup_clear (x : Executor) (jobProgresses : List JobProgress) (eventID : String) :
    (x.clear jobProgresses).xjobRunners.lookup eventID =
      if ∃ report ∈ jobProgresses, report.eventID = eventID ∧
        report.jobPlanNodeState ≠ JobPlanNodeState.dispatchSuccess.name then none
      else x.xjobRunners.lookup eventID := by
  unfold clear
  induction jobProgresses generalizing x with
  | nil => simp
  | cons report rest ih =>
    rw [List.foldl_cons, ih]
    simp only [List.exists_mem_cons_iff]
    by_cases later : ∃ report ∈ rest, report.eventID = eventID ∧
      report.jobPlanNodeState ≠ JobPlanNodeState.dispatchSuccess.name
    · rw [if_pos later, if_pos (.inr later)]
    · simp only [later, or_false, if_false]
      by_cases dispatched : report.jobPlanNodeState = JobPlanNodeState.dispatchSuccess.name
      · simp [dispatched]
      · simp only [dispatched, if_false, ne_eq, not_false_eq_true, and_true, clearEvent, removeXjobRunner]
        by_cases own : report.eventID = eventID
        · simp [own]
        · simp [own, AList.lookup_erase_ne (Ne.symm own)]

theorem Paired.clear (paired : x.Paired) (jobProgresses : List JobProgress) : (x.clear jobProgresses).Paired :=
  clear_rule (fun _ _ _ _ paired => paired.clearEvent _) paired

end Executor

/-! ### The jobs of an executor -/

structure Job where
  event : JobEvent
  /-- the state its `Xjob` shows -/
  jobPlanNodeState : Option JobPlanNodeState

/-- The job has not come to an end. -/
def Job.Unfinished (job : Job) : Prop := ∀ state, job.jobPlanNodeState = some state → state.isRunningState = true

def Job.created (newInstance : String → Instantiation) (event : JobEvent) : Job :=
  match newInstance event.jobClassName with
  | .created xjob => { event := event, jobPlanNodeState := xjob.jobPlanNodeState }
  | _ => { event := event, jobPlanNodeState := none }

/-- An executor between two steps. Only `executor` is the program's; the rest records
what happened. -/
structure Reporting where
  executor : Executor := {}
  /-- every job that was registered, in order -/
  jobs : List Job := []
  /-- the list a heartbeat is under way with -/
  sending : Option (List JobProgress) := none
  /-- the jobs that list is about -/
  carried : List Nat := []
  /-- the jobs carried by heartbeats that came back -/
  acknowledged : List Nat := []

namespace Reporting

def ids (w : Reporting) : List String := w.jobs.map (·.event.eventID)

/-- A report is about the last job with its ID. -/
def about (w : Reporting) (report : JobProgress) : Option Nat := lastPlace w.ids report.eventID

inductive Event where
  | receive (newInstance : String → Instantiation) (events : List JobEvent)
  | advance (n : Nat) (xjob : Xjob)
  | collect
  | succeed
  | fail

/-- `processHeartbeat` with a batch of events. -/
def received (newInstance : String → Instantiation) (events : List JobEvent) (w : Reporting) : Reporting :=
  let y := w.executor.processHeartbeat newInstance events
  { w with
    executor := y
    jobs := w.jobs ++ (y.started.drop w.executor.started.length).map (Job.created newInstance) }

/-- A job moves on. The maps know it while it is the last with its ID. -/
def advanced (n : Nat) (job : Job) (xjob : Xjob) (w : Reporting) : Reporting :=
  { w with
    jobs := w.jobs.set n { job with jobPlanNodeState := xjob.jobPlanNodeState }
    executor :=
      if lastPlace w.ids job.event.eventID = some n then w.executor.changed job.event.eventID xjob else w.executor }

/-- `doReport` before it waits for the answer. -/
def collected (w : Reporting) : Reporting :=
  { w with
    sending := some w.executor.getJobProgressList
    carried := w.executor.getJobProgressList.filterMap w.about }

/-- `doReport` when there is an answer, up to the events it brings. -/
def succeeded (jobProgresses : List JobProgress) (w : Reporting) : Reporting :=
  { w with
    executor := w.executor.clear jobProgresses
    sending := none
    carried := []
    acknowledged := w.acknowledged ++ w.carried }

def failed (w : Reporting) : Reporting := { w with sending := none, carried := [] }

/-- A job that is in a final state stays in it. Batches come in at any time. -/
inductive Step : Reporting → Event → Reporting → Prop where
  | receives {w newInstance events} : Step w (.receive newInstance events) (w.received newInstance events)
  | advances {w n xjob job} (there : w.jobs[n]? = some job)
      (stays : ∀ state, job.jobPlanNodeState = some state → state.isRunningState = false →
        xjob.jobPlanNodeState = some state) :
      Step w (.advance n xjob) (w.advanced n job xjob)
  | collects {w} (idle : w.sending = none) : Step w .collect w.collected
  | succeeds {w jobProgresses} (sending : w.sending = some jobProgresses) : Step w .succeed (w.succeeded jobProgresses)
  | fails {w jobProgresses} (sending : w.sending = some jobProgresses) : Step w .fail w.failed

def system : System Reporting Event := ⟨fun w => w = {}, Step⟩

/-- An executor has the job in both maps, under its own ID. -/
structure Registered (w : Reporting) (x : Executor) (n : Nat) (job : Job) : Prop where
  last : lastPlace w.ids job.event.eventID = some n
  runner : job.event.eventID ∈ x.xjobRunners
  progress : job.event.eventID ∈ x.jobProgressMap

/-- Finished jobs are listed until they are acknowledged, and only they. -/
structure Accounts (w : Reporting) : Prop where
  keys : ∀ eventID, eventID ∈ w.executor.jobProgressMap ↔ eventID ∈ w.executor.xjobRunners
  listed : ∀ n job state, w.jobs[n]? = some job → job.jobPlanNodeState = some state → state.isRunningState = false →
    n ∉ w.acknowledged → ∃ report ∈ w.executor.getJobProgressList, w.about report = some n
  shows : ∀ n job, w.jobs[n]? = some job → ∀ report ∈ w.executor.getJobProgressList, w.about report = some n →
    ∃ state, job.jobPlanNodeState = some state ∧ state.isRunningState = false ∧ report.jobPlanNodeState = state.name
  gone : ∀ n ∈ w.acknowledged, ∀ report ∈ w.executor.getJobProgressList, w.about report ≠ some n
  kept : ∀ n job, w.jobs[n]? = some job → job.Unfinished → w.Registered w.executor n job ∧
    ∀ jobProgresses, w.sending = some jobProgresses → w.Registered (w.executor.clear jobProgresses) n job

/-! ### The invariant -/

structure Invariant (w : Reporting) : Prop where
  paired : w.executor.Paired
  /-- the maps hold the jobs that are not acknowledged -/
  present : ∀ n job, w.jobs[n]? = some job → n ∉ w.acknowledged → lastPlace w.ids job.event.eventID = some n ∧
    ∃ runner, w.executor.xjobRunners.lookup job.event.eventID = some runner ∧
      runner.xjob.jobPlanNodeState = job.jobPlanNodeState
  absent : ∀ eventID ∈ w.executor.xjobRunners, ∃ n, lastPlace w.ids eventID = some n ∧ n ∉ w.acknowledged
  final : ∀ n ∈ w.acknowledged, ∃ job state, w.jobs[n]? = some job ∧ job.jobPlanNodeState = some state ∧
    state.isRunningState = false
  /-- the list under way is about final jobs that are not acknowledged -/
  sent : ∀ jobProgresses, w.sending = some jobProgresses → w.carried = jobProgresses.filterMap w.about ∧
    ∀ report ∈ jobProgresses, ∃ n job state, w.about report = some n ∧ n ∉ w.acknowledged ∧ w.jobs[n]? = some job ∧
      job.jobPlanNodeState = some state ∧ state.isRunningState = false ∧ report.jobPlanNodeState = state.name

variable {w : Reporting} {n : Nat} {job : Job} {report : JobProgress}

theorem about_eq (about : w.about report = some n) (there : w.jobs[n]? = some job) :
    job.event.eventID = report.eventID := by
  have here := getElem?_of_lastPlace about
  rw [ids, List.getElem?_map, there] at here
  exact Option.some.inj here

namespace Invariant

/-- A listed report is about a job in a final state that is not acknowledged. -/
theorem of_listed (invariant : Invariant w) (listed : report ∈ w.executor.getJobProgressList) :
    ∃ n job state, w.about report = some n ∧ n ∉ w.acknowledged ∧ w.jobs[n]? = some job ∧
      job.jobPlanNodeState = some state ∧ state.isRunningState = false ∧ report.jobPlanNodeState = state.name := by
  obtain ⟨runner, state, found, known, final, shows⟩ := invariant.paired.listed listed
  have running : report.eventID ∈ w.executor.xjobRunners :=
    AList.lookup_isSome.mp (Option.isSome_iff_exists.mpr ⟨runner, found⟩)
  obtain ⟨n, about, unacknowledged⟩ := invariant.absent _ running
  have here := getElem?_of_lastPlace about
  rw [ids, List.getElem?_map] at here
  obtain ⟨job, there, own⟩ := Option.map_eq_some_iff.mp here
  obtain ⟨-, runner', found', same⟩ := invariant.present n job there unacknowledged
  rw [own, found] at found'
  cases found'
  exact ⟨n, job, state, about, unacknowledged, there, same ▸ known, final, shows⟩

theorem accounts (invariant : Invariant w) : w.Accounts := by
  constructor
  · exact invariant.paired.keys
  · intro n job state there known final unacknowledged
    obtain ⟨last, runner, found, same⟩ := invariant.present n job there unacknowledged
    obtain ⟨report, listed, own⟩ := invariant.paired.lists found (same.trans known) final
    exact ⟨report, listed, by rw [about, own, last]⟩
  · intro n job there report listed about
    obtain ⟨n', job', state, about', -, there', known, final, shows⟩ := invariant.of_listed listed
    rw [about] at about'
    cases about'
    rw [there] at there'
    cases there'
    exact ⟨state, known, final, shows⟩
  · intro n acknowledged report listed about
    obtain ⟨n', -, -, about', unacknowledged, -⟩ := invariant.of_listed listed
    rw [about] at about'
    cases about'
    exact unacknowledged acknowledged
  · intro n job there unfinished
    have unacknowledged : n ∉ w.acknowledged := by
      intro acknowledged
      obtain ⟨job', state, there', known, final⟩ := invariant.final n acknowledged
      rw [there] at there'
      cases there'
      simp [unfinished state known] at final
    obtain ⟨last, runner, found, -⟩ := invariant.present n job there unacknowledged
    have running : job.event.eventID ∈ w.executor.xjobRunners :=
      AList.lookup_isSome.mp (Option.isSome_iff_exists.mpr ⟨runner, found⟩)
    refine ⟨⟨last, running, (invariant.paired.keys _).mpr running⟩, fun jobProgresses sending => ?_⟩
    -- the list under way is not about it
    have survives : (w.executor.clear jobProgresses).xjobRunners.lookup job.event.eventID = some runner := by
      rw [Executor.lookup_clear, if_neg, found]
      rintro ⟨report, member, own, -⟩
      obtain ⟨n', job', state, about', -, there', known, final, -⟩ := (invariant.sent _ sending).2 report member
      rw [about, own, last] at about'
      cases about'
      rw [there] at there'
      cases there'
      simp [unfinished state known] at final
    have running' : job.event.eventID ∈ (w.executor.clear jobProgresses).xjobRunners :=
      AList.lookup_isSome.mp (Option.isSome_iff_exists.mpr ⟨runner, survives⟩)
    exact ⟨last, running', ((invariant.paired.clear jobProgresses).keys _).mpr running'⟩

theorem initially : Invariant {} := by
  constructor
  · exact ⟨fun eventID => by simp, fun eventID jobProgress stored => by simp at stored⟩
  all_goals simp

/-! ### The steps -/

/-- A job whose ID is not running is registered. -/
theorem registers (invariant : Invariant w) {newInstance : String → Instantiation} {event : JobEvent} {xjob : Xjob}
    (made : newInstance event.jobClassName = .created xjob) (fresh : event.eventID ∉ w.executor.xjobRunners) :
    Invariant { w with
      executor := (w.executor.addProgress event).add { xjob := xjob, event := event }
      jobs := w.jobs ++ [Job.created newInstance event] } := by
  have created : Job.created newInstance event = { event := event, jobPlanNodeState := xjob.jobPlanNodeState } := by
    rw [Job.created, made]
  have ids_eq : (w.jobs ++ [Job.created newInstance event]).map (·.event.eventID) = w.ids ++ [event.eventID] := by
    rw [created, List.map_append]
    rfl
  have size : w.ids.length = w.jobs.length := List.length_map _
  -- the other IDs name the jobs they named before
  have last {eventID : String} (running : eventID ∈ w.executor.xjobRunners) :
      lastPlace (w.ids ++ [event.eventID]) eventID = lastPlace w.ids eventID := by
    rw [lastPlace_append, if_neg]
    rintro rfl
    exact fresh running
  have older {n : Nat} {job : Job} (there : w.jobs[n]? = some job) :
      (w.jobs ++ [Job.created newInstance event])[n]? = some job := by
    rw [List.getElem?_append_left (List.getElem?_eq_some_iff.mp there).1, there]
  constructor
  · exact invariant.paired.added event xjob
  · intro n job there unacknowledged
    rw [ids, ids_eq]
    rcases Nat.lt_trichotomy n w.jobs.length with earlier | rfl | later
    · have before : w.jobs[n]? = some job := by rwa [List.getElem?_append_left earlier] at there
      obtain ⟨place, runner, found, same⟩ := invariant.present n job before unacknowledged
      have running : job.event.eventID ∈ w.executor.xjobRunners :=
        AList.lookup_isSome.mp (Option.isSome_iff_exists.mpr ⟨runner, found⟩)
      refine ⟨(last running).trans place, runner, ?_, same⟩
      simp only [Executor.add]
      rw [AList.lookup_insert_ne (fun own : job.event.eventID = event.eventID => fresh (own ▸ running))]
      exact found
    · rw [List.getElem?_concat_length] at there
      cases there
      rw [created]
      refine ⟨by rw [lastPlace_append, if_pos rfl, size], _, AList.lookup_insert _, rfl⟩
    · rw [List.getElem?_eq_none (by rw [List.length_append, List.length_singleton]; exact later)] at there
      cases there
  · intro eventID running
    rw [ids, ids_eq]
    by_cases own : eventID = event.eventID
    · refine ⟨w.jobs.length, by rw [lastPlace_append, if_pos own.symm, size], fun acknowledged => ?_⟩
      obtain ⟨job, state, there, -⟩ := invariant.final _ acknowledged
      exact absurd (List.getElem?_eq_some_iff.mp there).1 (Nat.lt_irrefl _)
    · have before : eventID ∈ w.executor.xjobRunners := ((AList.mem_insert _).mp running).resolve_left own
      rw [last before]
      exact invariant.absent eventID before
  · intro n acknowledged
    obtain ⟨job, state, there, known, final⟩ := invariant.final n acknowledged
    exact ⟨job, state, older there, known, final⟩
  · intro jobProgresses sending
    obtain ⟨carried, all⟩ := invariant.sent jobProgresses sending
    have same : ∀ report ∈ jobProgresses,
        lastPlace (w.ids ++ [event.eventID]) report.eventID = w.about report := by
      intro report member
      obtain ⟨n, job, state, about, unacknowledged, there, -⟩ := all report member
      obtain ⟨-, runner, found, -⟩ := invariant.present n job there unacknowledged
      rw [about_eq about there] at found
      exact last (AList.lookup_isSome.mp (Option.isSome_iff_exists.mpr ⟨runner, found⟩))
    refine ⟨carried.trans (List.filterMap_congr fun report member => ?_), fun report member => ?_⟩
    · rw [← same report member, ← ids_eq]
      rfl
    · obtain ⟨n, job, state, about, unacknowledged, there, rest⟩ := all report member
      refine ⟨n, job, state, ?_, unacknowledged, older there, rest⟩
      rw [Reporting.about, ids, ids_eq, same report member, about]

/-- A batch registers the jobs it starts and removes none. -/
theorem received (invariant : Invariant w) (newInstance : String → Instantiation) (events : List JobEvent) :
    Invariant (w.received newInstance events) := by
  have turns : ∃ fresh, (w.executor.processHeartbeat newInstance events).started = w.executor.started ++ fresh ∧
      Invariant { w with
        executor := w.executor.processHeartbeat newInstance events
        jobs := w.jobs ++ fresh.map (Job.created newInstance) } := by
    let sound (y : Executor) : Prop := ∃ fresh, y.started = w.executor.started ++ fresh ∧
      Invariant { w with executor := y, jobs := w.jobs ++ fresh.map (Job.created newInstance) }
    apply Executor.processHeartbeat_rule (P := fun _ y => sound y) (Q := sound)
    · rintro event - y xjob ⟨fresh, grows, kept⟩ - made absent
      refine ⟨fresh ++ [event], by simp [Executor.add, Executor.addProgress, grows], ?_⟩
      rw [List.map_append, ← List.append_assoc]
      exact kept.registers made absent
    · rintro event - y ⟨fresh, grows, kept⟩ absent
      have same : y.clearEvent event.eventID = y := kept.paired.clearEvent_absent absent
      rw [same]
      exact ⟨fresh, grows, kept⟩
    · exact fun _ _ _ holds => holds
    · exact fun _ _ holds => holds
    · exact ⟨[], by simp, by simpa using invariant⟩
  obtain ⟨fresh, grows, kept⟩ := turns
  rw [Reporting.received, grows, List.drop_left]
  exact kept

theorem advanced (invariant : Invariant w) {xjob : Xjob} (there : w.jobs[n]? = some job)
    (stays : ∀ state, job.jobPlanNodeState = some state → state.isRunningState = false →
      xjob.jobPlanNodeState = some state) : Invariant (w.advanced n job xjob) := by
  have inside := (List.getElem?_eq_some_iff.mp there).1
  have ids_eq : (w.advanced n job xjob).ids = w.ids := by
    apply List.ext_getElem?
    intro m
    simp only [ids, Reporting.advanced, List.getElem?_map, List.getElem?_set]
    split
    next own =>
      rw [← own, there]
      rfl
    · rfl
  have about_eq (report : JobProgress) : (w.advanced n job xjob).about report = w.about report := by
    rw [Reporting.about, ids_eq]
    rfl
  -- what is final does not change
  have final {m : Nat} {other : Job} {state : JobPlanNodeState} (here : w.jobs[m]? = some other)
      (known : other.jobPlanNodeState = some state) (final : state.isRunningState = false) :
      ∃ job', (w.advanced n job xjob).jobs[m]? = some job' ∧ job'.jobPlanNodeState = some state := by
    simp only [Reporting.advanced, List.getElem?_set]
    split
    next own =>
      subst own
      rw [there] at here
      cases here
      exact ⟨_, rfl, stays state known final⟩
    · exact ⟨other, here, known⟩
  constructor
  · simp only [Reporting.advanced]
    split
    · exact invariant.paired.changed _ _
    · exact invariant.paired
  · intro m other here unacknowledged
    rw [ids_eq]
    simp only [Reporting.advanced, List.getElem?_set] at here ⊢
    split at here
    next own =>
      subst own
      cases here
      obtain ⟨last, runner, found, -⟩ := invariant.present n job there unacknowledged
      refine ⟨last, { runner with xjob := xjob }, ?_, rfl⟩
      rw [if_pos last, Executor.lookup_changed, if_pos rfl, found]
      rfl
    next foreign =>
      obtain ⟨last, runner, found, same⟩ := invariant.present m other here unacknowledged
      refine ⟨last, runner, ?_, same⟩
      split
      next own =>
        rw [Executor.lookup_changed, if_neg, found]
        intro shared
        rw [shared, own] at last
        exact foreign (Option.some.inj last)
      · exact found
  · intro eventID running
    rw [ids_eq]
    apply invariant.absent eventID
    simp only [Reporting.advanced] at running
    split at running
    · exact Executor.mem_changed.mp running
    · exact running
  · intro m acknowledged
    obtain ⟨other, state, here, known, ended⟩ := invariant.final m acknowledged
    obtain ⟨job', here', known'⟩ := final here known ended
    exact ⟨job', state, here', known', ended⟩
  · intro jobProgresses sending
    obtain ⟨carried, all⟩ := invariant.sent jobProgresses sending
    refine ⟨carried.trans (List.filterMap_congr fun report _ => (about_eq report).symm), fun report member => ?_⟩
    obtain ⟨m, other, state, about, unacknowledged, here, known, ended, shows⟩ := all report member
    obtain ⟨job', here', known'⟩ := final here known ended
    exact ⟨m, job', state, (about_eq report).trans about, unacknowledged, here', known', ended, shows⟩

theorem collected (invariant : Invariant w) : Invariant w.collected where
  paired := invariant.paired
  present := invariant.present
  absent := invariant.absent
  final := invariant.final
  sent := by
    rintro _ ⟨⟩
    exact ⟨rfl, fun report listed => invariant.of_listed listed⟩

theorem succeeded (invariant : Invariant w) {jobProgresses : List JobProgress}
    (sending : w.sending = some jobProgresses) : Invariant (w.succeeded jobProgresses) := by
  obtain ⟨carried, all⟩ := invariant.sent jobProgresses sending
  constructor
  · exact invariant.paired.clear jobProgresses
  · intro n job there unacknowledged
    have before : n ∉ w.acknowledged := fun acknowledged => unacknowledged (List.mem_append_left _ acknowledged)
    have uncarried : n ∉ w.carried := fun carried => unacknowledged (List.mem_append_right _ carried)
    -- a job that was not carried is still with its runner
    obtain ⟨last, runner, found, same⟩ := invariant.present n job there before
    refine ⟨last, runner, ?_, same⟩
    simp only [Reporting.succeeded]
    rw [Executor.lookup_clear, if_neg, found]
    rintro ⟨report, member, own, -⟩
    apply uncarried
    rw [carried]
    exact List.mem_filterMap.mpr ⟨report, member, by rw [about, own, last]⟩
  · intro eventID running
    have kept := AList.lookup_isSome.mpr running
    simp only [Reporting.succeeded, Executor.lookup_clear] at kept
    split at kept
    -- what is still running was not among the reports that were carried, or only as dispatched
    · cases kept
    next unlisted =>
      obtain ⟨n, last, unacknowledged⟩ := invariant.absent eventID (AList.lookup_isSome.mp kept)
      refine ⟨n, last, fun either => (List.mem_append.mp either).elim unacknowledged fun member => ?_⟩
      rw [carried] at member
      obtain ⟨report, listed, about⟩ := List.mem_filterMap.mp member
      obtain ⟨n', job, state, about', -, there, known, final, shows⟩ := all report listed
      rw [about] at about'
      cases about'
      have own := getElem?_of_lastPlace last
      rw [getElem?_of_lastPlace about] at own
      exact unlisted ⟨report, listed, Option.some.inj own, shows ▸ state.name_ne_dispatchSuccess final⟩
  -- acknowledged now is what the reports carried, and those were final
  · intro n acknowledged
    rcases List.mem_append.mp acknowledged with before | now
    · exact invariant.final n before
    · rw [carried] at now
      obtain ⟨report, listed, about⟩ := List.mem_filterMap.mp now
      obtain ⟨n', job, state, about', -, there, known, final, -⟩ := all report listed
      rw [about] at about'
      cases about'
      exact ⟨job, state, there, known, final⟩
  · rintro _ ⟨⟩

theorem failed (invariant : Invariant w) : Invariant w.failed where
  paired := invariant.paired
  present := invariant.present
  absent := invariant.absent
  final := invariant.final
  sent := by rintro _ ⟨⟩

theorem step {t : Reporting} {event : Event} (invariant : Invariant w) (step : Step w event t) : Invariant t := by
  cases step with
  | receives => exact invariant.received _ _
  | advances there stays => exact invariant.advanced there stays
  | collects => exact invariant.collected
  | succeeds sending => exact invariant.succeeded sending
  | fails => exact invariant.failed

end Invariant

variable {newInstance : String → Instantiation} {jobProgresses : List JobProgress} {answer : HeartbeatResponse}

/-- What a process does with an answer is two steps, or one. -/
theorem reachable_answered (reachable : Reachable system (fun _ _ => True) w)
    (sending : w.sending = some jobProgresses) : ∃ v, Reachable system (fun _ _ => True) v ∧ v.sending = none ∧
      v.executor = w.executor.answered newInstance jobProgresses answer := by
  have back : Reachable system (fun _ _ => True) (w.succeeded jobProgresses) :=
    reachable.next (a := .succeed) True.intro (.succeeds sending)
  unfold Executor.answered
  split
  · exact ⟨_, back.next (a := .receive newInstance answer.jobEvents) True.intro .receives, rfl, rfl⟩
  · exact ⟨_, back, rfl, rfl⟩

/-- In every run the lists are about the finished jobs that are not acknowledged. -/
theorem accounts_of_reachable (reachable : Reachable system (fun _ _ => True) w) : w.Accounts := by
  apply Invariant.accounts
  apply reachable.invariant
  · rintro _ rfl
    exact Invariant.initially
  · exact fun _ _ _ invariant _ step => invariant.step step

end Reporting

/-! ### A job whose first heartbeat is lost -/

namespace LostHeartbeat

open Reporting

def job : Job := Job.created OneHeartbeat.newInstance (OneHeartbeat.event .executeJob "1")

def finished : Reporting :=
  advanced 0 job { jobPlanNodeState := some .resultSuccess } (received OneHeartbeat.newInstance [job.event] {})

/-- The first list is collected and its heartbeat fails, the second one comes back. -/
def sent : Reporting := finished.collected.failed.collected.succeeded finished.executor.getJobProgressList

end LostHeartbeat

open LostHeartbeat in
theorem accounts_lostHeartbeat :
    finished.executor.getJobProgressList.map (·.jobPlanNodeState) = [JobPlanNodeState.resultSuccess.name] ∧
      sent.acknowledged = [0] ∧ sent.executor.getJobProgressList = [] ∧ sent.Accounts := by
  have here : (Reporting.received OneHeartbeat.newInstance [job.event] {}).jobs[0]? = some job := rfl
  have begun : Runs.Reachable Reporting.system (fun _ _ => True) finished := by
    apply Runs.Reachable.next (a := .advance 0 { jobPlanNodeState := some .resultSuccess })
    · exact .next (a := .receive OneHeartbeat.newInstance [job.event]) (.start rfl) True.intro .receives
    · trivial
    · apply Reporting.Step.advances here
      rintro state ⟨⟩ final
      cases final
  refine ⟨by decide +kernel, by decide +kernel, by decide +kernel, Reporting.accounts_of_reachable ?_⟩
  have first : Reporting.Step finished .collect finished.collected := .collects rfl
  have lost : Reporting.Step finished.collected .fail finished.collected.failed := .fails rfl
  have second : Reporting.Step finished.collected.failed .collect finished.collected.failed.collected := .collects rfl
  have back : Reporting.Step finished.collected.failed.collected .succeed sent := .succeeds rfl
  exact (((begun.next True.intro first).next True.intro lost).next True.intro second).next True.intro back

end Hella

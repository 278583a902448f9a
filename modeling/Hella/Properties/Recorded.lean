import Hella.Control.Ledger

/-!
# Results in their own rows

A job event of an action node is dispatched for the row of that activation, and the
report of its result is recorded in that row and in no other while the run is
registered. The job of an end node is dispatched before its row is saved, and the
results of fail and end nodes come when the run is over.
-/
namespace Hella

open Exec Runs

/-- The executor's report of a result for the event. -/
structure JobEvent.Answers (event : JobEvent) (report : JobProgress) (state : JobPlanNodeState) : Prop where
  eventID : report.eventID = event.eventID
  executorType : report.executorType = event.xjobExecutorType
  reads : JobPlanNodeState.valueOf report.jobPlanNodeState = some state
  result : state.isResultState = true
  runTime : report.runTime.isSome = true

/-- The row with the reported state, progress, run time and run info. -/
def XjobState.recorded (row : XjobState) (report : JobProgress) (state : JobPlanNodeState) : XjobState :=
  { row with
    jobPlanNodeState := state
    finishedPercent := report.progress
    runTime := report.runTime
    runInfo := report.runInfo }

/-- The report is in the row of that id. The other rows are as before, or failed by a fail
node when they were running. -/
structure Recorded (s t : Store) (id : Nat) (report : JobProgress) (state : JobPlanNodeState) : Prop where
  own : ∃ row, s.xjobState? id = some row ∧ t.xjobState? id = some (row.recorded report state)
  others : ∀ other row, other ≠ id → s.xjobState? other = some row →
    ∃ now, t.xjobState? other = some now ∧ Overtaken row now

namespace Store

variable {s t : Store} {row : XjobState}

theorem Onward.lookup (onward : Onward s t) (numbered : t.Numbered) (member : row ∈ s.xjobStates) :
    ∃ now, t.xjobState? row.id = some now ∧ Overtaken row now := by
  obtain ⟨-, f, new, rows, overtaken, -⟩ := onward
  have there : f row ∈ t.xjobStates := by
    rw [rows]
    exact List.mem_append_left _ (List.mem_map_of_mem member)
  refine ⟨f row, ?_, overtaken row member⟩
  rw [← (overtaken row member).id]
  exact numbered.find there

theorem mem_of_xjobState? {id : Nat} (found : s.xjobState? id = some row) : row ∈ s.xjobStates ∧ row.id = id :=
  ⟨List.mem_of_find?_eq_some found, by simpa using List.find?_some found⟩

/-- What is true once the row was written and control has moved on. -/
theorem Onward.recorded {report : JobProgress} {state : JobPlanNodeState} (numbered : t.Numbered)
    (sound : s.Sound) (member : row ∈ s.xjobStates) (result : state.isResultState = true)
    (runTime : report.runTime.isSome = true)
    (onward : Onward (s.updateXjobState (row.recorded report state)) t) : Recorded s t row.id report state := by
  obtain ⟨time, given⟩ := Option.isSome_iff_exists.mp runTime
  have written : row.recorded report state ∈ (s.updateXjobState (row.recorded report state)).xjobStates := by
    refine List.mem_map.mpr ⟨row, member, ?_⟩
    simp [XjobState.recorded, XjobState.overwrite, given, Text.orNull]
  -- the written row has a result state, so a fail node that comes after leaves it alone
  refine ⟨⟨row, sound.find member, ?_⟩, fun other old apart found => ?_⟩
  · obtain ⟨now, there, same | failed⟩ := onward.lookup numbered written
    · exact same ▸ there
    · have running := failed.running
      rw [XjobState.recorded, JobPlanNodeState.not_running_of_result result] at running
      cases running
  · obtain ⟨inside, rfl⟩ := mem_of_xjobState? found
    refine onward.lookup numbered (List.mem_map.mpr ⟨old, inside, if_neg apart⟩)

end Store

/-! ### Recording a report -/

section Reports

variable {env : Env} {wf : Workflow} (dao : ∀ n, env.daoSucceeds n = true) {s : Store} {row : XjobState}
  {report : JobProgress} {state : JobPlanNodeState} {node : JobPlanNode} (numbered : s.Numbered)
  (member : row ∈ s.xjobStates) (own : report.xjobStateID = row.id)
  (reads : JobPlanNodeState.valueOf report.jobPlanNodeState = some state) (result : state.isResultState = true)
include dao numbered member own reads result

/-- The report is written first, whatever becomes of the exit after that. -/
theorem actionExit_records : Triple (fun t => t.store = s)
    (ActionNodeHandler.exit env wf { jobPlanNode := node } { jobProgress := some report })
    (fun _ => Ahead (s.updateXjobState (row.recorded report state)))
    fun _ => Ahead (s.updateXjobState (row.recorded report state)) := by
  rintro t rfl
  have real : report.xjobStateID ≠ 0 := own ▸ numbered.positive row member
  have found : t.store.xjobState? report.xjobStateID = some row := own ▸ numbered.find member
  let context : NodeContext := { jobProgress := some report }
  obtain ⟨report, t1, checked, rfl, here⟩ :=
    checkJobProgress_returns wf (.refl t) (by rfl : context.jobProgress = _) real
  obtain ⟨row, t2, loaded, rfl, here⟩ := loadXjobState_returns dao here found
  obtain ⟨_, t3, updated, k, -, rfl⟩ := attempt_returns (updJobState_returns dao here (row.recorded report state)) ()
  unfold ActionNodeHandler.exit
  rw [bind_ok checked]
  simp only [reads, result, Bool.not_true, Bool.false_eq_true, if_false]
  rw [XjobState.recorded] at updated ⊢
  rw [bind_ok loaded, bind_ok updated]
  -- from here on nothing is written, whether a successor is named or the retry fails
  refine (?_ : Keeps (Ahead _) _) _ ((Store.Onward.refl _).of_same rfl rfl)
  split
  · exact Keeps.pure _
  · split
    · split
      · exact Keeps.bind (Keeps.throw _) fun _ => Keeps.pure _
      · exact Keeps.pure _
    · exact Keeps.pure _

/-- What control does after the report was written. -/
theorem complete_records {name : String} (found : wf.getNode name = some node) (type : node.type = .action) :
    Triple (fun t => t.store = s) (completeJobPlanNode env wf name { jobProgress := some report })
      (fun _ => Ahead (s.updateXjobState (row.recorded report state)))
      fun _ => Ahead (s.updateXjobState (row.recorded report state)) := by
  have later := numbered.update (row.recorded report state)
  refine Triple.bind (Q := fun _ t => t.store = s) (Triple.modifying fun _ same => same) fun _ => ?_
  refine Triple.bind (Q := fun _ => Ahead (s.updateXjobState (row.recorded report state))) ?_ fun _ => ?_
  · refine Triple.catching (F := fun _ => Ahead (s.updateXjobState (row.recorded report state))) ?_
      (fun _ _ => Tread.setStatus _) fun _ _ _ holds => holds
    rw [found]
    refine Stable.createNodeHandler ?_
    unfold NodeHandler.multiExit
    simp only [type]
    refine Triple.bind (Q := fun _ => Ahead (s.updateXjobState (row.recorded report state))) ?_ fun exits => ?_
    · refine Triple.bind (actionExit_records dao numbered member own reads result) fun _ => Keeps.pure _
    · have rule := footprint_onward env wf later
      exact rule.processNextNodes (fun _ _ comes found passing => rule.signal _ comes found passing) _ _
        fun _ _ _ _ => trivial
  · refine Keeps.getting.bind fun t => ?_
    split
    · exact Tread.onStore (Keeps.modifying fun _ holds => holds.of_same rfl rfl)
    · exact Keeps.pure _

end Reports

namespace Engine

variable {env : Env} {e : Engine} {n : Nat} {i : Instance}

theorem instance_of_getWorkflow? {key : String} (registered : e.getWorkflow? key = some (n, i)) :
    e.instances[n]? = some i := by
  obtain ⟨m, -, there⟩ := Option.bind_eq_some_iff.mp registered
  obtain ⟨j, found, same⟩ := Option.map_eq_some_iff.mp there
  cases same
  exact found

/-- A result of a registered run goes into the row its entry leads to. -/
theorem handle_records (cluster : String) {row : XjobState} {report : JobProgress} {state : JobPlanNodeState}
    {node : JobPlanNode} {info : JobNodeRuningInfo} (dao : ∀ n, env.daoSucceeds n = true) (numbered : e.store.Numbered)
    (member : row ∈ e.store.xjobStates) (own : info.xjobStateID = row.id) (reads : report.Reads .auto state)
    (result : state.isResultState = true) (found : e.runingInfo? report.eventID = some info)
    (registered : e.getWorkflow? info.workflowRunKey = some (n, i))
    (there : i.workflow.getNode info.jobNodeName = some node) (type : node.type = .action) :
    (e.store.updateXjobState (row.recorded report state)).Onward
      (after (handlejobProgress env cluster report e)).store := by
  -- a result of an automatic job takes the way through the instance
  have flow : ¬ Aside .auto state := by
    rintro (rfl | once)
    · cases result
    · cases once
  have place := instance_of_getWorkflow? registered
  have records := complete_records dao numbered member
    (by exact own : JobProgress.xjobStateID { report with xjobStateID := info.xjobStateID } = _) reads.state result
    there type (i.run e.store) rfl
  rw [handlejobProgress_result reads found flow registered result]
  -- an error of the virtual machine skips the alarms; the rows are written by then
  cases told : completeJobPlanNode env i.workflow info.jobNodeName
      { jobProgress := some { report with xjobStateID := info.xjobStateID } } (i.run e.store) with
  | error thrown s =>
    rw [told] at records
    rw [bind_error (completeJobProgress_error place told)]
    exact records
  | ok _ s =>
    rw [told] at records
    have returns : Returns (completeJobProgress env cluster info.jobNodeName n _ state) e _ :=
      completeJobProgress_returns place told
    obtain ⟨_, t, returned, store, noticed, rfl⟩ := returns
    have rows : store.xjobStates = s.store.xjobStates := by rw [noticed.rest]
    have last : store.lastXjobStateID = s.store.lastXjobStateID := by rw [noticed.rest]
    rw [bind_ok returned]
    exact Store.Onward.of_same records rows last

/-- The tables have unique positive row ids, and nothing is running. -/
def Initial (e : Engine) : Prop := e.store.Numbered ∧ e.instances = []

theorem books {guard : Engine → Call → Prop} (dao : ∀ n, env.daoSucceeds n = true)
    (distinct : Function.Injective env.generateID)
    (reachable : Reachable (system env Initial) guard e) : Books env e := by
  refine reachable.invariant (fun e initial => ?_) fun _ _ _ books _ step => books_step distinct dao step books
  exact ⟨initial.1, by simp [initial.2]⟩

/-- Every event of an action carries the id of the row saved for that activation, and the
result of a registered run is recorded in that row and in no other. -/
theorem recorded_in_own_row (dao : ∀ n, env.daoSucceeds n = true) (distinct : Function.Injective env.generateID)
    (reachable : Reachable (system env Initial) (fun _ _ => True) e) (there : e.instances[n]? = some i)
    {before : List Act} {name : String} {id : Nat} {event : JobEvent}
    (dispatched : before ++ [.dispatched name id event] <+: i.trace) (action : i.workflow.IsAction name) :
    [.entered name, .added id] <:+ before ∧
    (∃ node row, i.workflow.getNode name = some node ∧ e.store.xjobState? id = some row ∧
      row.jobPlanNodeID = node.id ∧ row.currentExecutorKey = i.workflow.getWorkflowKey) ∧
    (∀ info, e.runingInfo? event.eventID = some info → info = ⟨name, id, i.workflow.getWorkflowKey⟩) ∧
    ∀ cluster report state, event.Answers report state → (e.runingInfo? event.eventID).isSome = true →
      e.getWorkflow? i.workflow.getWorkflowKey = some (n, i) →
      Recorded e.store (after (handlejobProgress env cluster report e)).store id report state := by
  have books := books dao distinct reachable
  obtain ⟨saved, booked⟩ := (books.ledgers i (List.mem_of_getElem? there)).booked before name id event dispatched action
  obtain ⟨node, found, row, member, isId, isNode, isRun⟩ := booked.row
  have leads : ∀ info, e.runingInfo? event.eventID = some info → info = ⟨name, id, i.workflow.getWorkflowKey⟩ := by
    intro info stored
    -- while there is an entry, it is the one the dispatch made
    rcases booked.entry with gone | kept
    · cases gone.symm.trans stored
    · exact Option.some.inj (stored.symm.trans kept)
  refine ⟨saved, ⟨node, row, found, isId ▸ books.numbered.find member, isNode, isRun⟩, leads, ?_⟩
  intro cluster report state answers stored registered
  obtain ⟨info, entry⟩ := Option.isSome_iff_exists.mp stored
  obtain rfl := leads info entry
  have type : node.type = .action := by
    obtain ⟨other, same, type⟩ := action
    cases found.symm.trans same
    exact type
  have auto : XjobExecutorType.valueOf report.executorType = some .auto := by
    rw [answers.executorType, booked.type, XjobExecutorType.valueOf_name]
  subst isId
  have onward := handle_records cluster dao books.numbered member rfl ⟨auto, answers.reads⟩ answers.result
    (answers.eventID ▸ entry) registered found type
  have later := ((steady_books distinct dao).lasting.enduring.handlejobProgress cluster report).after books
  exact onward.recorded later.numbered books.numbered.toSound member answers.result answers.runTime

end Engine

/-! ### Jobs of end and fail nodes -/

namespace Notifying

def xjobMeta : XjobMeta := { mode := "local", executionContent := "notify.sh", jobClassName := "shell" }

/-- One action; the end and the fail node have jobs too. -/
def plan : JobExecutionPlan where
  id := 1
  jobPlanNodeList :=
    [{ Diamond.node 1 .start "start" with toNode := some "a" },
     Diamond.action 2 "a" "end",
     { Diamond.node 3 .fail "fail" with xjobMeta := some xjobMeta },
     { Diamond.node 4 .end_ "end" with xjobMeta := some xjobMeta }]

def stored : Engine := { store := { jobPlans := [plan] } }

/-- The action has been started. -/
def started : Engine := after (Engine.startJobPlan Env.calm 1 none stored)

def answer (eventID : String) (state : JobPlanNodeState) : JobProgress :=
  { executorType := "Auto", jobPlanNodeState := state.name, progress := 100, eventID := eventID
    runInfo := some "done", runTime := some "20140129121000" }

/-- The action has been answered. -/
def answered (state : JobPlanNodeState) : Engine :=
  after (Engine.handlejobProgress Env.calm "c" (answer "1270011014" state) started)

theorem started_reachable : Reachable (Engine.system Env.calm Engine.Initial) (fun _ _ => True) started := by
  have initial : Engine.Initial stored := ⟨⟨⟨List.nodup_nil, by simp [stored]⟩, by simp [stored]⟩, rfl⟩
  exact (Reachable.start initial).next trivial .starts

theorem answered_reachable (state : JobPlanNodeState) :
    Reachable (Engine.system Env.calm Engine.Initial) (fun _ _ => True) (answered state) :=
  started_reachable.next trivial .handles

theorem calm_distinct : Function.Injective Env.calm.generateID := fun _ _ same => Nat.add_right_cancel same

end Notifying

/-- The result of the action goes into the row 2, which was saved for it. -/
theorem recorded_in_own_row_started :
    ∃ i event, Reachable (Engine.system Env.calm Engine.Initial) (fun _ _ => True) Notifying.started ∧
      Notifying.started.instances[0]? = some i ∧ .dispatched "a" 2 event ∈ i.trace ∧
      (Notifying.started.runingInfo? event.eventID).isSome = true ∧
      Recorded Notifying.started.store (Notifying.answered .resultSuccess).store 2
        (Notifying.answer "1270011014" .resultSuccess) .resultSuccess := by
  -- the run of a plan of one action, evaluated step by step
  obtain ⟨i, there⟩ : ∃ i, Notifying.started.instances[0]? = some i := Option.isSome_iff_exists.mp (by decide +kernel)
  let event := Store.executeEvent "1270011014" (Diamond.action 2 "a" "end")
    { mode := "local", executionContent := "run.sh", jobClassName := "shell" } .auto none
  let before : List Act :=
    [.assigned .running, .entered "start", .added 1, .passed "start" 1 [some "a"], .entered "a", .added 2]
  have trace : Notifying.started.instances[0]?.map (·.trace) = some (before ++ [.dispatched "a" 2 event]) := by
    decide +kernel
  have node : Notifying.started.instances[0]?.bind (·.workflow.getNode "a") = some (Diamond.action 2 "a" "end") := by
    decide +kernel
  have key : Notifying.started.instances[0]?.map (·.workflow.getWorkflowKey) = some "10031" := by decide +kernel
  have run : Notifying.started.store.workflowsMap.lookup "10031" = some 0 := by decide +kernel
  simp only [there, Option.map_some, Option.some.injEq, Option.bind_some] at trace node key
  have stored : (Notifying.started.runingInfo? event.eventID).isSome = true := by decide +kernel
  have registered : Notifying.started.getWorkflow? i.workflow.getWorkflowKey = some (0, i) := by
    rw [Engine.getWorkflow?, key, run, Option.bind_some, there]
    rfl
  have dispatched : before ++ [.dispatched "a" 2 event] <+: i.trace := by simp [trace]
  -- the general result, for the report of the row that this event belongs to
  have recorded := (Engine.recorded_in_own_row (fun _ => rfl) Notifying.calm_distinct Notifying.started_reachable there
    dispatched ⟨_, node, rfl⟩).2.2.2 "c" (Notifying.answer "1270011014" .resultSuccess) .resultSuccess
    ⟨rfl, rfl, by decide, rfl, rfl⟩ stored registered
  exact ⟨i, event, Notifying.started_reachable, there, by simp [trace], stored, recorded⟩

/-- The entry of an end node's job carries the id 0, which no row has. The result of a fail
node's job is not recorded: an error leaves the row of the activation as it is, a success. -/
theorem notifying_not_recorded :
    (∃ e event info, Reachable (Engine.system Env.calm Engine.Initial) (fun _ _ => True) e ∧
      (∃ i ∈ e.instances, .dispatched "end" 0 event ∈ i.trace) ∧ e.runingInfo? event.eventID = some info ∧
      ∀ row ∈ e.store.xjobStates, row.id ≠ info.xjobStateID) ∧
    ∃ e event report, Reachable (Engine.system Env.calm Engine.Initial) (fun _ _ => True) e ∧
      (∃ i ∈ e.instances, [.added 3, .dispatched "fail" 3 event] <:+: i.trace) ∧ event.Answers report .resultError ∧
      ((after (Engine.handlejobProgress Env.calm "c" report e)).store.xjobState? 3).map (·.jobPlanNodeState) =
        some .resultSuccess := by
  have ends : ∃ i ∈ (Notifying.answered .resultSuccess).instances,
      .dispatched "end" 0 (Store.executeEvent "1270011019" (Diamond.node 4 .end_ "end") Notifying.xjobMeta .auto none) ∈
        i.trace := by decide +kernel
  have fails : ∃ i ∈ (Notifying.answered .resultError).instances,
      [.added 3, .dispatched "fail" 3 (Store.executeEvent "1270011020" (Diamond.node 3 .fail "fail") Notifying.xjobMeta
        .auto none)] <:+: i.trace := by decide +kernel
  refine ⟨⟨_, _, ⟨"end", 0, "10031"⟩, Notifying.answered_reachable _, ends, by decide +kernel, by decide +kernel⟩, ?_⟩
  exact ⟨_, _, Notifying.answer "1270011020" .resultError, Notifying.answered_reachable _, fails,
    ⟨rfl, rfl, by decide, rfl, rfl⟩, by decide +kernel⟩

end Hella

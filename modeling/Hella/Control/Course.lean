import Hella.Control.Balance
import Hella.Control.Rules

/-!
# Courses of a properly nested plan

The states of an instance from its creation on, with reports for dispatched actions in
any order and other runs writing their own rows in between. If every DAO call succeeds,
the history stays balanced while the plan is running, and the row of every action that
waits for its report is a running one.
-/
namespace Hella

open Exec Text ForkJoin

/-! ### Room -/

section Room

variable {env : Env} {wf : Workflow}

theorem Fits.mono {room more : Nat} {name : String} (fits : Fits wf room name) (enough : room ≤ more) :
    Fits wf more name := by
  induction room generalizing more name with
  | zero => exact fits.elim
  | succ room ih =>
    obtain ⟨more, rfl⟩ : ∃ n, more = n + 1 := ⟨more - 1, by omega⟩
    intro node found next leads after reached passing
    exact ih (fits node found next leads after reached passing) (by omega)

/-- The node needs no more than the given room, or none. -/
def FitsIn (wf : Workflow) (room : Nat) (name : String) : Prop :=
  ∀ node, wf.getNode name = some node → node.type.isFinalType = false → Fits wf room name

theorem FitsIn.mono {room more : Nat} {name : String} (fits : FitsIn wf room name) (enough : room ≤ more) :
    FitsIn wf more name := fun node found passing => (fits node found passing).mono enough

theorem FitsIn.entries {next : String} {b : Flow String} {room : Nat} (after : FitsIn wf room next)
    (inner : ∀ x ∈ b.names, FitsIn wf (b.names.length + room) x) {x : String} (member : x ∈ b.entries next) :
    FitsIn wf (b.names.length + room) x := by
  rcases List.mem_cons.mp (Flow.entries_subset next b member) with rfl | inside
  · exact after.mono (by omega)
  · exact inner x inside

/-- A flow needs no more room than it has nodes, beyond what comes after it. -/
theorem Realizes.fits {fail next : String} {b : Flow String} {room : Nat} (realizes : Realizes wf fail next b)
    (plain : ∀ y ∈ next :: b.names, y ≠ "" ∧ ',' ∉ y.toList) (after : FitsIn wf room next) :
    ∀ x ∈ b.names, FitsIn wf (b.names.length + room) x := by
  induction b generalizing next room with
  | done => simp
  | step a rest ih =>
    obtain ⟨⟨node, found, type, _⟩, later⟩ := realizes
    intro x member
    rcases List.mem_cons.mp member with rfl | inside
    · intro other same passing
      obtain rfl := Option.some.inj (found.symm.trans same)
      simp [type, JobPlanNodeType.isFinalType] at passing
    · exact (ih later (fun y place => plain y (Flow.subset_step next a rest place)) after x inside).mono (by simp)
  | fork f j paths rest ihPaths ihRest =>
    obtain ⟨⟨forkNode, forkFound, forkType, listed, _⟩, ⟨joinNode, joinFound, joinType, leads, _⟩, inner, later⟩ :=
      realizes
    have laterFits := ihRest later (fun y place => plain y (Flow.subset_fork_rest next f j paths rest place)) after
    -- the join leads into the rest
    have joinFits : FitsIn wf (rest.names.length + room + 1) j := by
      intro node found _ node' found' next' leadsOn onward reached passing
      obtain rfl := Option.some.inj (joinFound.symm.trans found')
      have target : some next' ∈ (rest.entries next).map some := by
        rw [← leads, leadsOn.2 (by simp [joinType])]
        simp
      obtain ⟨y, place, same⟩ := List.mem_map.mp target
      obtain rfl := Option.some.inj same
      exact after.entries laterFits place onward reached passing
    have innerFits := ihPaths inner (fun y place => plain y (Flow.subset_fork_paths next f j paths rest place)) joinFits
    -- the fork leads into its paths
    have forkFits : FitsIn wf (paths.names.length + (rest.names.length + room + 1) + 1) f := by
      intro node found _ node' found' next' leadsOn onward reached passing
      obtain rfl := Option.some.inj (forkFound.symm.trans found')
      obtain ⟨toNode, to_, place⟩ := leadsOn.1 forkType
      obtain rfl := Option.some.inj (to_.symm.trans listed)
      have inside (y : String) (entry : y ∈ paths.entries j) : y ∈ next :: (Flow.fork f j paths rest).names :=
        Flow.subset_fork_paths next f j paths rest (Flow.entries_subset j paths entry)
      have some_path : paths.entries j ≠ [] := by
        apply List.ne_nil_of_length_pos
        rw [Flow.length_entries]
        exact Flow.width_pos paths
      rw [split_intercalate _ some_path (fun y entry => (plain y (inside y entry)).1)
        fun y entry => (plain y (inside y entry)).2] at place
      exact joinFits.entries innerFits place onward reached passing
    intro x member
    simp only [Flow.names, List.mem_cons, List.mem_append] at member
    rcases member with rfl | rfl | inside | inside
    · exact forkFits.mono (by simp; omega)
    · exact joinFits.mono (by simp; omega)
    · exact (innerFits x inside).mono (by simp; omega)
    · exact (laterFits x inside).mono (by simp; omega)
  | both left right ihLeft ihRight =>
    intro x member
    rcases List.mem_append.mp member with one | other
    · exact (ihLeft realizes.1 (fun y place => plain y (Flow.subset_left next left right place)) after x one).mono
        (by simp)
    · exact (ihRight realizes.2 (fun y place => plain y (Flow.subset_right next left right place)) after x other).mono
        (by simp)

/-- A properly nested plan needs no more nested calls than it has nodes. -/
theorem Nested.roomy (plan : Nested wf) (enough : plan.names.length ≤ env.stackDepth) : Roomy env wf := by
  -- no name is blank or has a comma, so a list of names is split as it was written
  have plain (y : String) (place : y ∈ plan.end_ :: plan.body.names) : y ≠ "" ∧ ',' ∉ y.toList := by
    have listed : y ∈ plan.start :: plan.end_ :: plan.fail :: plan.body.names := by
      simp at place ⊢
      tauto
    exact ⟨plan.nonempty y listed, plan.plain y listed⟩
  obtain ⟨startNode, startFound, startType, leads⟩ := plan.starts
  obtain ⟨endNode, endFound, endType⟩ := plan.ends
  obtain ⟨failNode, failFound, failType⟩ := plan.fails
  have final {x : String} {node : JobPlanNode} (found : wf.getNode x = some node) (type : node.type.isFinalType = true)
      (room : Nat) : FitsIn wf room x := by
    intro other same passing
    obtain rfl := Option.some.inj (found.symm.trans same)
    simp [type] at passing
  -- the end node and the fail node need no depth, the body one level for each of its names
  have endFits : FitsIn wf 0 plan.end_ := final endFound (by rw [endType]; rfl) 0
  have bodyFits := plan.realizes.fits plain endFits
  have startFits : FitsIn wf (plan.body.names.length + 1) plan.start := by
    intro node found _ node' found' next leadsOn onward reached passing
    obtain rfl := Option.some.inj (startFound.symm.trans found')
    have target : some next ∈ (plan.body.entries plan.end_).map some := by
      rw [← leads, leadsOn.2 (by simp [startType])]
      simp
    obtain ⟨y, place, same⟩ := List.mem_map.mp target
    obtain rfl := Option.some.inj same
    exact endFits.entries bodyFits place onward reached passing
  -- a node of the plan is the start node, the end node, the fail node or in the body
  intro name node found passing
  have listed := plan.complete name (by simp [found])
  simp only [names, List.length_cons] at enough
  simp only [List.mem_cons] at listed
  rcases listed with rfl | rfl | rfl | inside
  · exact (startFits node found passing).mono (by omega)
  · exact (final endFound (by rw [endType]; rfl) _) node found passing
  · exact (final failFound (by rw [failType]; rfl) _) node found passing
  · exact (bodyFits name inside node found passing).mono (by omega)

/-- A properly nested plan with a job for every action is dealt with calmly. -/
theorem Nested.steady (plan : Nested wf) (dao : ∀ n, env.daoSucceeds n = true)
    (jobs : ∀ name node, wf.getNode name = some node → node.type = .action → node.xjobMeta.isSome = true)
    (room : Roomy env wf) : Steady env wf := by
  refine ⟨dao, jobs, fun name node found type => ?_, room⟩
  cases plan.role (plan.mem_body found (by simp [type])) with
  | action same other =>
    obtain rfl := Option.some.inj (found.symm.trans same)
    simp [type] at other
  | fork same _ _ paths =>
    obtain rfl := Option.some.inj (found.symm.trans same)
    simp [paths]
  | join same other =>
    obtain rfl := Option.some.inj (found.symm.trans same)
    simp [type] at other

end Room

/-- A result is reported for a job the run has dispatched, and not more results than the
node has been entered. -/
structure Reports (wf : Workflow) (results : String → JobPlanNodeState → Prop) (s : Run) (name : String)
    (context : NodeContext) : Prop where
  expected : Expected wf results s.trace name context
  action : wf.IsAction name
  sent : ∃ event, .dispatched name context.xjobStateID event ∈ s.trace
  result : ∃ state, context.reported = some state ∧ state.isResultState = true

/-- The other runs add rows and write their own. -/
structure Others (wf : Workflow) (s t : Store) : Prop where
  sound : s.Sound → t.Sound
  rows : ∀ row ∈ s.xjobStates, row.currentExecutorKey = wf.getWorkflowKey → row ∈ t.xjobStates

/-- The states of an instance that was created on the given store, between calls. -/
inductive Course (env : Env) (wf : Workflow) (world : Store → Store → Prop)
    (allowed : Run → String → NodeContext → Prop) (store : Store) : Run → Prop where
  | created : Course env wf world allowed store { store := store }
  | starting {s : Run} (before : Course env wf world allowed store s) :
    Course env wf world allowed store (after (start env wf s))
  | completing {s : Run} {name : String} {context : NodeContext} (before : Course env wf world allowed store s)
      (allows : allowed s name context) :
    Course env wf world allowed store (after (completeJobPlanNode env wf name context s))
  | elsewhere {s : Run} {other : Store} (before : Course env wf world allowed store s)
      (changes : world s.store other) : Course env wf world allowed store { s with store := other }

/-! ### Rows -/

/-- Every dispatched action has its row, a running one until the report. -/
structure Rowed (wf : Workflow) (s : Run) : Prop where
  sound : s.store.Sound
  rows : ∀ name id event, .dispatched name id event ∈ s.trace → wf.IsAction name → id ≠ 0 ∧
    ∃ row ∈ s.store.xjobStates, row.id = id ∧ row.currentExecutorKey = wf.getWorkflowKey ∧
      (s.status = .running → .completing name id ∈ s.trace ∨ row.jobPlanNodeState.isRunningState = true)
  single : ∀ name name' id event event', .dispatched name id event ∈ s.trace → .dispatched name' id event' ∈ s.trace →
    wf.IsAction name → wf.IsAction name' → name = name'

namespace Rowed

variable {env : Env} {wf : Workflow} {s t : Run} {names names' : List String}

/-- Rows are added and no action is dispatched. -/
theorem extend (rowed : Rowed wf s) (sound : t.store.Sound) (heard : s.trace ⊆ t.trace)
    (sent : ∀ name id event, .dispatched name id event ∈ t.trace → wf.IsAction name →
      .dispatched name id event ∈ s.trace)
    (rows : s.store.xjobStates ⊆ t.store.xjobStates) (running : t.status = .running → s.status = .running) :
    Rowed wf t := by
  refine ⟨sound, fun name id event told action => ?_, fun name name' id event event' told told' action action' => ?_⟩
  · obtain ⟨real, row, member, own, key, alive⟩ := rowed.rows name id event (sent name id event told action) action
    exact ⟨real, row, rows member, own, key, fun still => (alive (running still)).imp_left fun done => heard done⟩
  · exact rowed.single name name' id event event' (sent _ _ _ told action) (sent _ _ _ told' action') action action'

/-- The job of an action is dispatched for the row that was added. -/
theorem dispatch (rowed : Rowed wf s) (name : String) {row : XjobState} (event : JobEvent) (sound : t.store.Sound)
    (newest : row.id = s.store.lastXjobStateID + 1) (key : row.currentExecutorKey = wf.getWorkflowKey)
    (alive : row.jobPlanNodeState.isRunningState = true) (heard : s.trace ⊆ t.trace)
    (sent : ∀ name' id event', .dispatched name' id event' ∈ t.trace →
      .dispatched name' id event' ∈ s.trace ∨ Act.dispatched name' id event' = .dispatched name row.id event)
    (rows : t.store.xjobStates = s.store.xjobStates ++ [row]) (running : t.status = .running → s.status = .running) :
    Rowed wf t := by
  -- the row is new, so nothing was dispatched for it before
  have old (name' : String) (event' : JobEvent) (told : .dispatched name' row.id event' ∈ s.trace)
      (action : wf.IsAction name') : False := by
    obtain ⟨_, other, member, own, _⟩ := rowed.rows name' row.id event' told action
    exact rowed.sound.fresh member (own.trans newest)
  refine ⟨sound, fun name id event told action => ?_, fun name name' id event event' told told' action action' => ?_⟩
  · rw [rows]
    rcases sent name id event told with earlier | now
    · obtain ⟨real, row, member, own, key, alive⟩ := rowed.rows name id event earlier action
      refine ⟨real, row, List.mem_append_left _ member, own, key, fun still => ?_⟩
      exact (alive (running still)).imp_left fun done => heard done
    · cases now
      exact ⟨by omega, row, by simp, rfl, key, fun _ => .inr alive⟩
  · -- the new row's id is none of the ids dispatched before
    rcases sent name id event told with earlier | now <;> rcases sent name' id event' told' with earlier' | now'
    · exact rowed.single name name' id event event' earlier earlier' action action'
    · cases now'
      exact (old name event earlier action).elim
    · cases now
      exact (old name' event' earlier' action').elim
    · cases now
      cases now'
      rfl

/-- The run is over and its rows are settled. -/
theorem settle (rowed : Rowed wf s) (g : XjobState → XjobState) (sound : t.store.Sound)
    (sent : ∀ name id event, .dispatched name id event ∈ t.trace → wf.IsAction name →
      .dispatched name id event ∈ s.trace)
    (settles : ∀ x ∈ s.store.xjobStates, Store.Settles wf.getWorkflowKey x (g x) ∧ g x ∈ t.store.xjobStates)
    (stopped : t.status ≠ .running) : Rowed wf t := by
  refine ⟨sound, fun name id event told action => ?_, fun name name' id event event' told told' action action' => ?_⟩
  · obtain ⟨real, row, member, own, key, _⟩ := rowed.rows name id event (sent name id event told action) action
    obtain ⟨⟨sameId, sameKey, _⟩, there⟩ := settles row member
    exact ⟨real, g row, there, sameId.trans own, sameKey.trans key, fun still => absurd still stopped⟩
  · exact rowed.single name name' id event event' (sent _ _ _ told action) (sent _ _ _ told' action') action action'

theorem sent_of_notified {x : String} {node : JobPlanNode} {id : Nat} (notified : Notified env wf node id s t)
    (found : wf.getNode x = some node) (type : node.type ≠ .action) {name : String} {id' : Nat} {event : JobEvent}
    (told : .dispatched name id' event ∈ t.trace) (action : wf.IsAction name) :
      .dispatched name id' event ∈ s.trace := by
  cases notified with
  | silent => exact told
  | sent event k later named =>
    rcases List.mem_append.mp told with earlier | now
    · exact earlier
    · obtain ⟨rfl, _⟩ : name = node.name ∧ _ := by simpa using now
      obtain ⟨other, same, action⟩ := action
      rw [Workflow.getNode_name found] at same
      obtain rfl := Option.some.inj (found.symm.trans same)
      exact absurd action type

theorem calm (calm : Calm env wf names s names' t) (rowed : Rowed wf s) : Rowed wf t := by
  have sound := calm.sound rowed.sound
  cases calm with
  | absent | skips => exact rowed
  | begins => exact rowed.extend sound (by simp) (by simp +contextual) (by simp) id
  | @acts x _ _ node row event k n found type newest key state =>
    exact rowed.dispatch x event sound newest key (by rw [state]; rfl) (by simp) (by simp) rfl id
  | forks | arrives | releases | underflows => exact rowed.extend sound (by simp) (by simp +contextual) (by simp) id
  | faults => exact rowed.extend sound (by simp) (by simp +contextual) (by simp) (by simp)
  | @ends x _ _ u node row date n found type notified =>
    refine rowed.extend sound ?_ (fun name id event told action => ?_) (by simp) (by simp)
    · cases notified <;> simp
    · have before : .dispatched name id event ∈ u.trace := by simpa using told
      simpa using sent_of_notified notified found (by simp [type]) before action
  | @gives x _ _ u node row g date n found type notified newest key settled =>
    refine rowed.settle g sound (fun name id event told action => ?_) (fun x member => ?_) (by simp)
    · have before : .dispatched name id event ∈ u.trace := by simpa using told
      simpa using sent_of_notified notified found (by simp [type]) before action
    · have inside : x ∈ s.store.xjobStates ++ [row] := List.mem_append_left _ member
      exact ⟨settled x inside, List.mem_map_of_mem inside⟩

/-- The row of the report is written, the others are left alone. -/
theorem written (rowed : Rowed wf s) {name : String} {x : XjobState} {event : JobEvent} (action : wf.IsAction name)
    (told : .dispatched name x.id event ∈ s.trace) : Rowed wf (s.written name x) := by
  have before (name' : String) (id : Nat) (event' : JobEvent)
      (sent : .dispatched name' id event' ∈ (s.written name x).trace) : .dispatched name' id event' ∈ s.trace := by
    simpa [Run.written] using sent
  refine ⟨rowed.sound.update x, fun name' id event' sent action' => ?_,
    fun name' name'' id event' event'' sent sent' action' action'' =>
      rowed.single name' name'' id event' event'' (before _ _ _ sent) (before _ _ _ sent') action' action''⟩
  obtain ⟨real, row, member, rfl, key, alive⟩ := rowed.rows name' id event' (before _ _ _ sent) action'
  by_cases hit : row.id = x.id
  · refine ⟨real, Store.XjobState.overwrite row x, ?_, rfl, key, fun _ => .inl ?_⟩
    · exact List.mem_map.mpr ⟨row, member, if_pos hit⟩
    · have same := rowed.single name' name row.id event' event (before _ _ _ sent) (hit ▸ told) action' action
      simp [Run.written, same, hit]
  · refine ⟨real, row, List.mem_map.mpr ⟨row, member, if_neg hit⟩, rfl, key, fun still => ?_⟩
    exact (alive still).imp_left fun done => by simp [Run.written, done]

/-- Rows and history are the same, and the run is no more alive. -/
theorem same (rowed : Rowed wf s) (sound : t.store.Sound) (trace : t.trace = s.trace)
    (rows : ∀ row ∈ s.store.xjobStates, row.currentExecutorKey = wf.getWorkflowKey → row ∈ t.store.xjobStates)
    (running : t.status = .running → s.status = .running) : Rowed wf t := by
  refine ⟨sound, fun name id event told action => ?_, fun name name' id event event' told told' => ?_⟩
  · rw [trace] at told ⊢
    obtain ⟨real, row, member, own, key, alive⟩ := rowed.rows name id event told action
    exact ⟨real, row, rows row member key, own, key, fun still => alive (running still)⟩
  · rw [trace] at told told'
    exact rowed.single name name' id event event' told told'

/-- The report is about a row of the table. -/
theorem reported (rowed : Rowed wf s) {results : String → JobPlanNodeState → Prop} {name : String}
    {context : NodeContext} (reports : Reports wf results s name context) :
    ∃ row state, Reported s context row state ∧ context.reported = some state ∧ context.xjobStateID = row.id := by
  obtain ⟨event, told⟩ := reports.sent
  obtain ⟨state, report, result⟩ := reports.result
  obtain ⟨real, row, member, own, key, _⟩ := rowed.rows name context.xjobStateID event told reports.action
  obtain ⟨progress, given, value⟩ := Option.bind_eq_some_iff.mp report
  have same : progress.xjobStateID = row.id := by simpa [NodeContext.xjobStateID, given] using own.symm
  exact ⟨row, state, ⟨⟨progress, given, same, value⟩, result, own ▸ real, rowed.sound.find member⟩, report, own.symm⟩

end Rowed

/-! ### An invariant rule for courses -/

/-- A report is about to be handled, and its row has been written as `x`. -/
structure Handles (wf : Workflow) (results : String → JobPlanNodeState → Prop) (s : Run) (name : String)
    (node : JobPlanNode) (state : JobPlanNodeState) (x : XjobState) : Prop where
  found : wf.getNode name = some node
  type : node.type = .action
  report : ∃ context, Reports wf results s name context ∧ context.reported = some state ∧ context.xjobStateID = x.id
  result : state.isResultState = true

/-- The invariant, with the nodes still to be entered, is kept by calm steps, by the rest
of the engine and by what each call does before it enters nodes. -/
structure Calmly (env : Env) (wf : Workflow) (world : Store → Store → Prop)
    (results : String → JobPlanNodeState → Prop) (I : List String → Run → Prop) : Prop where
  rowed : ∀ names s, I names s → Rowed wf s
  calm : ∀ names s names' t, Calm env wf names s names' t → I names s → I names' t
  others : ∀ names s store, world s.store store → I names s → I names { s with store := store }
  ticks : ∀ s n, world s { s with tick := n }
  closes : ∀ s runs, world s { s with workflowsMap := runs }
  starts : ∀ s y, wf.workflowManager.getStartNodeName = some y → s.status = .prep → I [] s →
    I [y] { s with status := .running, trace := s.trace ++ [.assigned .running] }
  late : ∀ s name node state x, Handles wf results s name node state x → s.status.isEndState = true → I [] s →
    I [] (s.written name x)
  retries : ∀ s name node state row x, Handles wf results s name node state x → HasRetry node row state → I [] s →
    I [] { s.written name x with status := .failed, trace := (s.written name x).trace ++ [.assigned .failed] }
  answers : ∀ s name node state x, Handles wf results s name node state x → s.status.isEndState = false → I [] s →
    I (node.answer state).toList { s.written name x with
      trace := (s.written name x).trace ++ [.passed name x.id [node.answer state]] }

namespace Calmly

variable {env : Env} {wf : Workflow} {world : Store → Store → Prop} {results : String → JobPlanNodeState → Prop}
  {I : List String → Run → Prop} {s : Run} (calmly : Calmly env wf world results I)
include calmly

theorem calms {x y : List String × Run} (calms : Calms env wf x y) (holds : I x.1 x.2) : I y.1 y.2 := by
  induction calms with
  | refl => exact holds
  | tail _ calm ih => exact calmly.calm _ _ _ _ calm ih

theorem ticked {names : List String} (n : Nat) (holds : I names s) :
    I names { s with store := { s.store with tick := n } } :=
  calmly.others names s _ (calmly.ticks s.store n) holds

theorem closed (holds : I [] s) : I [] (s.closed wf) := by
  unfold Run.closed
  split
  · exact calmly.others _ _ _ (calmly.closes s.store _) holds
  · exact holds

theorem start (steady : Steady env wf) {y : String} (found : wf.workflowManager.getStartNodeName = some y)
    (holds : I [] s) : I [] (after (start env wf s)) := by
  by_cases prep : s.status = .prep
  · obtain ⟨_, t, returned, calms⟩ := start_calms steady (calmly.rowed _ _ holds).sound prep found
    rw [returned]
    exact calmly.calms calms (calmly.starts s y found prep holds)
  · have refused : Hella.start env wf s = .error (.workflowException " Work flowInstance has not PREP ") s := by
      simp only [Hella.start, bind_apply, get_apply, ne_eq, prep, not_false_eq_true, if_true, throw_apply]
    rw [refused]
    exact holds

theorem complete (steady : Steady env wf) {name : String} {context : NodeContext}
    (reports : Reports wf results s name context) (holds : I [] s) :
    I [] (after (completeJobPlanNode env wf name context s)) := by
  have rowed := calmly.rowed _ _ holds
  obtain ⟨node, found, type⟩ := reports.action
  obtain ⟨row, state, reported, report, same⟩ := rowed.reported reports
  obtain ⟨_, t, returned, x, u, v, written, ⟨n, later, rfl⟩, answered, rfl⟩ :=
    completeJobPlanNode_calm steady rowed.sound found type reported
  have handles : Handles wf results s name node state x :=
    ⟨found, type, ⟨context, reports, report, same.trans written.id.symm⟩, reported.result⟩
  rw [returned, after_ok]
  refine calmly.closed ?_
  cases answered with
  | retries again => exact calmly.ticked n (calmly.retries s name node state row x handles again holds)
  | late ended => exact calmly.ticked n (calmly.late s name node state x handles ended holds)
  | goes last live calms =>
    rw [Workflow.getNode_name found, ← written.id] at calms
    exact calmly.calms calms (calmly.ticked n (calmly.answers s name node state x handles live holds))

theorem course (steady : Steady env wf) {y : String} (found : wf.workflowManager.getStartNodeName = some y)
    {store : Store} (course : Course env wf world (Reports wf results) store s) (created : I [] { store := store }) :
    I [] s := by
  induction course with
  | created => exact created
  | starting _ ih => exact calmly.start steady found ih
  | completing _ reports ih => exact calmly.complete steady reports ih
  | elsewhere _ changes ih => exact calmly.others _ _ _ changes ih

end Calmly

/-! ### The invariant of a course -/

theorem Calm.status {env : Env} {wf : Workflow} {names names' : List String} {s t : Run}
    (calm : Calm env wf names s names' t) :
    names ≠ [] ∧ (t.status = s.status ∨ t.status = .succeeded ∨ t.status = .failed) := by
  cases calm <;> simp

theorem Notified.grows {env : Env} {wf : Workflow} {node : JobPlanNode} {id : Nat} {s t : Run}
    (notified : Notified env wf node id s t) : s.trace <+: t.trace := by
  cases notified with
  | silent => exact List.prefix_rfl
  | sent => exact List.prefix_append _ _

/-- The history only grows. -/
theorem Calm.grows {env : Env} {wf : Workflow} {names names' : List String} {s t : Run}
    (calm : Calm env wf names s names' t) : s.trace <+: t.trace := by
  cases calm with
  | absent | skips => exact List.prefix_rfl
  | begins | acts | forks | arrives | releases | underflows | faults => simp [List.append_assoc]
  | ends found type notified =>
    have told := (List.prefix_append _ _).trans notified.grows
    exact told.trans (by simp [List.append_assoc])
  | gives found type notified =>
    have told := notified.grows
    simp only [List.append_assoc] at told
    exact ((List.prefix_append _ _).trans told).trans (List.prefix_append _ _)

/-- What holds of an instance with the given nodes still to be entered. -/
structure Healthy (wf : Workflow) (results : String → JobPlanNodeState → Prop) (names : List String) (s : Run) :
    Prop where
  owed : Owed wf results s.status s.vars s.trace (names.map .enter)
  rowed : Rowed wf s
  status : s.status ≠ .suspended
  fresh : s.status = .prep → s.trace = [] ∧ names = []
  begun : s.status = .running → 0 < total Act.begins s.trace
  balanced : s.status = .running → Balanced wf names s.trace

namespace Healthy

variable {env : Env} {wf : Workflow} {results : String → JobPlanNodeState → Prop} {names names' : List String}
  {s t : Run}

theorem calm (plan : Nested wf) (keys : plan.DistinctKeys) (calm : Calm env wf names s names' t)
    (healthy : Healthy wf results names s) : Healthy wf results names' t := by
  obtain ⟨some_name, status⟩ := calm.status
  have back {status' : WorkflowStatus} (now : t.status = status') (notEnd : status'.isEndState = false) :
      s.status = status' := by
    rcases status with same | ended | ended
    · exact same.symm.trans now
    · rw [← now, ended] at notEnd
      cases notEnd
    · rw [← now, ended] at notEnd
      cases notEnd
  constructor
  · exact healthy.owed.calm calm
  · exact healthy.rowed.calm calm
  · exact fun suspended => healthy.status (back suspended rfl)
  · intro prep
    exact absurd (healthy.fresh (back prep rfl)).2 some_name
  · intro running
    exact (healthy.begun (back running rfl)).trans_le (total_mono _ calm.grows)
  · intro running
    exact .nested plan keys calm healthy.owed running (healthy.balanced (back running rfl))

theorem created {store : Store} (sound : store.Sound) : Healthy wf results [] { store := store } := by
  constructor
  · exact Owed.initial wf results
  · exact ⟨sound, fun _ _ _ told => by simp at told, fun _ _ _ _ _ told => by simp at told⟩
  · exact fun suspended => by simp at suspended
  · exact fun _ => ⟨rfl, rfl⟩
  · exact fun running => by simp at running
  · exact fun running => by simp at running

/-- Other runs do not get in the way. -/
theorem elsewhere {store : Store} (healthy : Healthy wf results names s) (others : Others wf s.store store) :
    Healthy wf results names { s with store := store } := by
  constructor
  · exact healthy.owed
  · exact healthy.rowed.same (others.sound healthy.rowed.sound) rfl others.rows id
  · exact healthy.status
  · exact healthy.fresh
  · exact healthy.begun
  · exact healthy.balanced

/-- An instance that was not started yet is about to enter the start node. -/
theorem launched (plan : Nested wf) (healthy : Healthy wf results [] s) (prep : s.status = .prep) :
    Healthy wf results [plan.start] { s with status := .running, trace := s.trace ++ [.assigned .running] } := by
  obtain ⟨empty, _⟩ := healthy.fresh prep
  constructor
  · exact (prep ▸ healthy.owed).starts _ (fun y => by simp [plan.startFound, tick]) (by simp)
  · exact ⟨healthy.rowed.sound, fun _ _ _ told => by simp [empty] at told, fun _ _ _ _ _ told => by
      simp [empty] at told⟩
  · exact fun suspended => by simp at suspended
  · exact fun prep => by simp at prep
  · intro _
    simp [Act.begins]
  · intro _
    constructor
    · intro y
      simp [empty, entered, named, plan.startFound, Balanced.count_cons_tick]
    · intro y node found notFail notEnd
      cases node.type <;> simp [empty, handled, passed, forked, arrivals, dispatched, entered]
    · intro y node found inner
      cases node.type <;> simp [empty, passed, mayLeave, forked, released, completed, entered]
    · intro y node found final
      simp [empty, entered]

/-- The report of an action is about to be passed on. -/
theorem answered {name : String} {node : JobPlanNode} {state : JobPlanNodeState} {x : XjobState}
    (healthy : Healthy wf results [] s) (handles : Handles wf results s name node state x)
    (live : s.status.isEndState = false) :
    Healthy wf results (node.answer state).toList { s.written name x with
      trace := (s.written name x).trace ++ [.passed name x.id [node.answer state]] } := by
  obtain ⟨found, type, ⟨context, reports, report, same⟩, result⟩ := handles
  obtain ⟨event, told⟩ := reports.sent
  -- a report is expected only by a run that is under way
  have running : s.status = .running := by
    cases status : s.status with
    | prep => simp [(healthy.fresh status).1] at told
    | running => rfl
    | suspended => exact absurd status healthy.status
    | succeeded | failed => simp [status, WorkflowStatus.isEndState] at live
  have written := healthy.rowed.written reports.action (same ▸ told)
  constructor
  -- the report is taken, answered and passed on, one after the other
  · have called := healthy.owed.completes reports.expected x.id
    have answers :=
      called.answers ⟨node, found, by rw [type]; exact ⟨state, reports.expected.2.2 state report, result, rfl⟩⟩
    have passes := answers.passes x.id
    rwa [List.reduceOption_singleton, List.append_nil] at passes
  · exact written.extend written.sound (by simp) (by simp +contextual) (by simp) id
  · exact healthy.status
  · intro prep
    exact absurd (running.symm.trans prep) (by simp)
  · intro _
    have begun := healthy.begun running
    simp [Run.written, Act.begins, begun]
  · intro _
    have acts : (s.written name x).trace ++ [.passed name x.id [node.answer state]] =
        s.trace ++ [.completing name x.id, .passed name x.id [node.answer state]] := by simp [Run.written]
    rw [acts]
    refine (healthy.balanced running).step found (by simp [Act.subject]) (fun y => ?_) (by simp [type]) ?_ fun _ => ?_
    · rw [← List.reduceOption_singleton, Balanced.count_targets]
      simp [entered, named]
    · simp [type, handled, entered, dispatched]
    · simp [type, mayLeave, passed, completed]

/-- A run that is over. -/
theorem stopped (owed : Owed wf results s.status s.vars s.trace []) (rowed : Rowed wf s)
    (ended : s.status.isEndState = true) : Healthy wf results [] s := by
  have other {status : WorkflowStatus} (notEnd : status.isEndState = false) : s.status ≠ status := by
    rintro rfl
    rw [ended] at notEnd
    cases notEnd
  exact ⟨owed, rowed, other rfl, fun prep => absurd prep (other rfl), fun running => absurd running (other rfl),
    fun running => absurd running (other rfl)⟩

/-- A report after the end only writes its row. -/
theorem late {name : String} {node : JobPlanNode} {state : JobPlanNodeState} {x : XjobState}
    (healthy : Healthy wf results [] s) (handles : Handles wf results s name node state x)
    (ended : s.status.isEndState = true) : Healthy wf results [] (s.written name x) := by
  obtain ⟨_, _, ⟨context, reports, _, same⟩, _⟩ := handles
  obtain ⟨event, told⟩ := reports.sent
  have called := healthy.owed.completes reports.expected x.id
  exact stopped (called.drop List.nil_suffix) (healthy.rowed.written reports.action (same ▸ told)) ended

theorem retried {name : String} {node : JobPlanNode} {state : JobPlanNodeState} {x : XjobState}
    (healthy : Healthy wf results [] s) (handles : Handles wf results s name node state x) :
    Healthy wf results []
      { s.written name x with status := .failed, trace := (s.written name x).trace ++ [.assigned .failed] } := by
  obtain ⟨_, _, ⟨context, reports, _, same⟩, _⟩ := handles
  obtain ⟨event, told⟩ := reports.sent
  have called := healthy.owed.completes reports.expected x.id
  have rowed := healthy.rowed.written reports.action (same ▸ told)
  refine stopped (called.stops List.nil_suffix (by simp) (by simp)) ?_ rfl
  exact rowed.extend rowed.sound (by simp) (by simp +contextual) (by simp) (by simp)

variable (env results) in
/-- A properly nested plan stays healthy. -/
theorem calmly (plan : Nested wf) (keys : plan.DistinctKeys) :
    Calmly env wf (Others wf) results (Healthy wf results) where
  rowed _ _ healthy := healthy.rowed
  calm _ _ _ _ calm healthy := healthy.calm plan keys calm
  others _ _ _ others healthy := healthy.elsewhere others
  ticks _ _ := ⟨fun sound => ⟨sound.distinct, sound.known⟩, fun _ member _ => member⟩
  closes _ _ := ⟨fun sound => ⟨sound.distinct, sound.known⟩, fun _ member _ => member⟩
  starts s y found prep healthy := by
    obtain rfl := Option.some.inj (plan.startFound.symm.trans found)
    exact healthy.launched plan prep
  late _ _ _ _ _ handles ended healthy := healthy.late handles ended
  retries _ _ _ _ _ _ handles _ healthy := healthy.retried handles
  answers _ _ _ _ _ handles live healthy := healthy.answered handles live

end Healthy

/-! ### The diamond -/

/-- The job of the node has been dispatched for the row. -/
def Act.sends (name : String) (id : Nat) : Act → Bool
  | .dispatched name' id' _ => name' == name && id' == id
  | _ => false

theorem exists_sent {name : String} {id : Nat} {trace : List Act} (sent : trace.any (Act.sends name id) = true) :
    ∃ event, .dispatched name id event ∈ trace := by
  obtain ⟨act, member, shape⟩ := List.any_eq_true.mp sent
  cases act with
  | dispatched name' id' event =>
    obtain ⟨rfl, rfl⟩ : name' = name ∧ id' = id := by simpa [Act.sends] using shape
    exact ⟨event, member⟩
  | _ => cases shape

namespace Diamond

theorem roomy : Roomy Env.calm workflow := nested.roomy (by decide)

theorem jobs (name : String) (node : JobPlanNode) (found : workflow.getNode name = some node)
    (type : node.type = .action) : node.xjobMeta.isSome = true := by
  have all : ∀ node ∈ plan.jobPlanNodeList, node.type = .action → node.xjobMeta.isSome = true := by decide
  exact all node (Workflow.getNode_mem found) type

theorem sound : store.Sound := ⟨by decide, by decide⟩

end Diamond

end Hella

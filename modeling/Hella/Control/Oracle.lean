import Hella.Control.Descent
import Hella.Lib.Answers

/-!
# What the database has to answer

Whether a row is saved decides whether a start node is left at once or keeps control,
and nothing else a descent depends on. So for every list of successors the plan lets
an instance go through there are answers to the DAO calls with which it does.
-/
namespace Hella

open Exec Text Answers

variable {env : Env} {wf : Workflow} {name : String} {node : JobPlanNode} {vars vars' left : JMap String} {s t : Run}

/-- The instance is running with these variables, and its rows are in order. -/
structure Underway (vars : JMap String) (s : Run) : Prop where
  running : s.status = .running
  vars : s.vars = vars
  sound : s.store.Sound

theorem checkCurrentExecutorKey_ok (wf : Workflow) (s : Run) : checkCurrentExecutorKey wf s = .ok () s := by
  have visible : isBlank (some wf.getWorkflowKey) = false := isBlank_numeral ..
  simp [checkCurrentExecutorKey, visible]

theorem daoCall_answered {s : Store} (saves : env.daoSucceeds s.tick = true) :
    Store.daoCall env s = .ok () { s with tick := s.tick + 1 } := by rw [Store.daoCall_apply, saves, if_pos rfl]

theorem addJobState_answered (saves : env.daoSucceeds s.store.tick = true) (x : XjobState) :
    addJobState env x s = .ok { x with id := s.store.lastXjobStateID + 1 } { s with
      trace := s.trace ++ [.added (s.store.lastXjobStateID + 1)]
      store := { s.store.insertXjobState x with tick := s.store.tick + 1 } } := by
  simp only [addJobState, bind_apply, onStore_apply, Store.addJobState, daoCall_answered saves]
  rfl

theorem addJobState_refused (loses : env.daoSucceeds s.store.tick = false) (x : XjobState) :
    addJobState env x s = .error .daoException { s with store := { s.store with tick := s.store.tick + 1 } } := by
  simp only [addJobState, bind_apply, onStore_apply, Store.addJobState, Store.daoCall_apply, loses]
  rfl

theorem updJobState_answered (saves : env.daoSucceeds s.store.tick = true) (x : XjobState) :
    onStore (Store.updJobState env x) s =
      .ok () { s with store := { s.store.updateXjobState x with tick := s.store.tick + 1 } } := by
  simp only [bind_apply, onStore_apply, Store.updJobState, daoCall_answered saves]
  rfl

theorem loadXjobState_answered (saves : env.daoSucceeds s.store.tick = true) {id : Nat} {row : XjobState}
    (found : s.store.xjobState? id = some row) :
    loadXjobState env id s = .ok row { s with store := { s.store with tick := s.store.tick + 1 } } := by
  simp only [loadXjobState, bind_apply, onStore_apply, Store.queryXjobState, daoCall_answered saves,
    get_apply, pure_apply]
  rw [show Store.xjobState? { s.store with tick := s.store.tick + 1 } id = some row from found]
  rfl

/-- Requests `changeJobExecutionPlanCurrentXjobState` makes. -/
def marks (id : Nat) : Nat := if id = 0 then 1 else 3

theorem change_answered (id : Nat) (state : CurrentXjobState)
    (saves : ∀ k < marks id, env.daoSucceeds (s.store.tick + k) = true) :
    ∃ date, onStore (Store.changeJobExecutionPlanCurrentXjobState env id state) s =
      .ok () { s with store := { s.store.mark id state date with tick := s.store.tick + marks id } } := by
  refine ⟨env.now s.store.tick, ?_⟩
  by_cases zero : id = 0
  · simp only [onStore_apply, Store.changeJobExecutionPlanCurrentXjobState, bind_apply, Store.newDate, Store.request,
      Store.updateJobPlanCurrentXjobState, zero, Store.mark, marks, if_true]
    rfl
  · have tick (store : Store) (f : JobExecutionPlan → JobExecutionPlan) :
      (store.modifyJobPlan id f).tick = store.tick := rfl
    have first : env.daoSucceeds (s.store.tick + 1) = true := saves 1 (by simp [marks, zero])
    have second : env.daoSucceeds (s.store.tick + 1 + 1) = true := saves 2 (by simp [marks, zero])
    simp only [onStore_apply, Store.changeJobExecutionPlanCurrentXjobState, bind_apply, Store.newDate, Store.request,
      Store.updateJobPlanCurrentXjobState, zero, Store.mark, marks, if_false, Store.queryJobPlan,
      modifyGet_apply, Store.daoCall_apply, first, tick, second, if_true, modify_apply,
      get_apply, pure_apply]
    rfl

/-! ### Start nodes -/

theorem startEnter_answered (type : node.type = .start) (saves : env.daoSucceeds (s.store.tick + 1) = true) :
    ∃ date, NodeHandler.enter env wf { jobPlanNode := node } {} s =
      .ok (true, { jobPlanNode := node }, contextOf
        { newXjobState wf node date with id := s.store.lastXjobStateID + 1 })
        { s with
          trace := s.trace ++ [.entered node.name] ++ [.added (s.store.lastXjobStateID + 1)]
          store := { s.store.insertXjobState (newXjobState wf node date) with tick := s.store.tick + 1 + 1 } } := by
  refine ⟨env.now s.store.tick, ?_⟩
  let dated : Run := { s with
    trace := s.trace ++ [.entered node.name], store := { s.store with tick := s.store.tick + 1 } }
  have saved := @addJobState_answered env dated saves (newXjobState wf node (env.now s.store.tick))
  simp only [NodeHandler.enter, type, StartNodeHandler.enter, record, bind_apply, modify_apply,
    checkCurrentExecutorKey_ok, attempt]
  rw [catching_ok ((bind_ok (newDate_ok _)).trans (bind_ok saved))]
  rfl

theorem startEnter_refused (type : node.type = .start) (loses : env.daoSucceeds (s.store.tick + 1) = false) :
    NodeHandler.enter env wf { jobPlanNode := node } {} s = .ok (false, { jobPlanNode := node }, {}) { s with
      trace := s.trace ++ [.entered node.name], store := { s.store with tick := s.store.tick + 1 + 1 } } := by
  let dated : Run := { s with
    trace := s.trace ++ [.entered node.name], store := { s.store with tick := s.store.tick + 1 } }
  have lost := @addJobState_refused env dated loses (newXjobState wf node (env.now s.store.tick))
  simp only [NodeHandler.enter, type, StartNodeHandler.enter, record, bind_apply, modify_apply,
    checkCurrentExecutorKey_ok, attempt]
  rw [catching_error ((bind_ok (newDate_ok _)).trans (bind_error lost)) rfl]
  rfl

theorem checkJobProgress_ok (wf : Workflow) {context : NodeContext} {progress : JobProgress}
    (given : context.jobProgress = some progress) (real : progress.xjobStateID ≠ 0) (s : Run) :
    checkJobProgress wf context s = .ok progress s := by
  rw [checkJobProgress, bind_ok (checkCurrentExecutorKey_ok wf s), given]
  simp only [if_neg real]
  rfl

theorem startExit_answered (type : node.type = .start) (sound : s.store.Sound) {context : NodeContext}
    {progress : JobProgress} {row : XjobState} (given : context.jobProgress = some progress)
    (real : progress.xjobStateID ≠ 0) (found : s.store.xjobState? progress.xjobStateID = some row)
    (saves : ∀ k < 3 + marks wf.jobExecutionPlan.id, env.daoSucceeds (s.store.tick + k) = true) :
    ∃ t, NodeHandler.multiExit env wf { jobPlanNode := node } context s = .ok (some [node.toNode]) t ∧
      t.status = s.status ∧ t.vars = s.vars ∧ t.store.Sound ∧
      t.store.tick = s.store.tick + (3 + marks wf.jobExecutionPlan.id) := by
  -- reading the row, the clock, writing the row, marking the plan: three calls and those of the mark
  let runTime := env.now (s.store.tick + 1)
  let x : XjobState := { row with
    runTime := some runTime, jobPlanNodeState := if isBlank node.toNode then .resultError else .resultSuccess }
  let loaded : Run := { s with store := { s.store with tick := s.store.tick + 1 } }
  let dated : Run := { s with store := { s.store with tick := s.store.tick + 1 + 1 } }
  let written : Run := { s with store := { s.store.updateXjobState x with tick := s.store.tick + 1 + 1 + 1 } }
  have loads : loadXjobState env progress.xjobStateID s = .ok row loaded :=
    loadXjobState_answered (saves 0 (by omega)) found
  have writes : onStore (Store.updJobState env x) dated = .ok () written := updJobState_answered (saves 2 (by omega)) x
  -- the mark makes its calls after the first three
  obtain ⟨date, marked⟩ := @change_answered env written wf.jobExecutionPlan.id .doing fun k inside => by
    have later := saves (3 + k) (by omega)
    rwa [← Nat.add_assoc] at later
  let closed : Run := { written with store := { written.store.mark wf.jobExecutionPlan.id .doing date with
    tick := written.store.tick + marks wf.jobExecutionPlan.id } }
  have exits : StartNodeHandler.exit env wf node context s = .ok node.toNode closed := by
    refine (bind_ok (checkJobProgress_ok wf given real s)).trans ((bind_ok loads).trans ?_)
    refine (bind_ok (newDate_ok loaded)).trans ((bind_ok (catching_ok ((bind_ok writes).trans marked))).trans ?_)
    rfl
  refine ⟨closed, ?_, rfl, rfl, ⟨(sound.update x).distinct, (sound.update x).known⟩, ?_⟩
  · simp only [NodeHandler.multiExit, type]
    exact bind_ok exits
  · simp only [closed, written]
    omega

/-! ### Successors -/

/-- The requests are answered as the list says. -/
abbrev Env.Answers (env : Env) (s : Run) (answers : List Bool) : Prop := Gives env.daoSucceeds s.store.tick answers

theorem action_answered {signals : String → NodeContext → RunM Unit} (found : wf.getNode name = some node)
    (type : node.type = .action) (job : node.xjobMeta.isSome = true) (underway : Underway vars s)
    (given : env.Answers s (List.replicate 4 true)) :
    ∃ t, processNextNode env wf signals (some name) s = .ok () t ∧ Underway vars t ∧
      t.store.tick = s.store.tick + 4 := by
  obtain ⟨xjobMeta, configured⟩ := Option.isSome_iff_exists.mp job
  -- the clock, the insertion, the id of the event and the update: four calls
  let fresh := newXjobState wf node (env.now s.store.tick)
  let row : XjobState := { fresh with id := s.store.lastXjobStateID + 1 }
  let dated : Run := { s with
    trace := s.trace ++ [.entered node.name], store := { s.store with tick := s.store.tick + 1 } }
  let saved : Run := { dated with
    trace := dated.trace ++ [.added row.id]
    store := { dated.store.insertXjobState fresh with tick := dated.store.tick + 1 } }
  have saves : addJobState env fresh dated = .ok row saved :=
    addJobState_answered (given.replicate (k := 1) (by omega)) fresh
  obtain ⟨event, -, dispatches⟩ :=
    Store.executeXJob_ok env configured wf.getWorkflowKey row.id .auto wf.args saved.store
  let sent : Run := { saved with
    trace := saved.trace ++ [.dispatched node.name row.id event]
    store := { saved.store.dispatch event ⟨node.name, row.id, wf.getWorkflowKey⟩ with tick := saved.store.tick + 1 } }
  -- the dispatch itself reaches no database
  have sends : executeXJob env wf node row.id wf.args saved = .ok () sent := by
    simp only [executeXJob, bind_apply, onStore_apply, dispatches]
    rfl
  let written : Run := { sent with
    store := { sent.store.updateXjobState { row with jobPlanNodeState := .notifySuccess } with
      tick := sent.store.tick + 1 } }
  have writes : onStore (Store.updJobState env { row with jobPlanNodeState := .notifySuccess }) sent = .ok () written :=
    updJobState_answered (given.replicate (k := 3) (by omega)) _
  have enters : ActionNodeHandler.enter env wf node { s with trace := s.trace ++ [.entered node.name] } =
      .ok (true, contextOf row) written := by
    refine (bind_ok (newDate_ok _)).trans ((bind_ok (catching_ok saves)).trans ?_)
    exact (bind_ok sends).trans ((bind_ok (catching_ok writes)).trans rfl)
  have entered : NodeHandler.enter env wf { jobPlanNode := node } {} s =
      .ok (true, { jobPlanNode := node, xjobContext := some (contextOf row) }, contextOf row) written := by
    simp only [NodeHandler.enter, type]
    exact bind_ok enters
  have sound := (underway.sound.insert fresh).update { row with jobPlanNodeState := .notifySuccess }
  refine ⟨written, ?_, ⟨underway.running, underway.vars, sound.distinct, sound.known⟩, rfl⟩
  simp only [processNextNode, Option.bind_some, found, type, JobPlanNodeType.isFinalType, createNodeHandler, pure_bind]
  exact (bind_ok entered).trans rfl

theorem failing_ok {body : RunM Unit} (returned : body s = .ok () t) : failing body s = .ok () t := catching_ok returned

/-- Whether control stays in a node is up to the counters and to one answer. -/
theorem stays_answered (stays : Stays wf name vars vars') : ∃ answers : List Bool, ∀ (env : Env) (s : Run),
    Underway vars s → env.Answers s answers → ∃ t, signal env wf 1 name {} s = .ok () t ∧ Underway vars' t ∧
      t.store.tick = s.store.tick + answers.length := by
  have visits {env : Env} {node : JobPlanNode} {handler : NodeHandler} {context : NodeContext} {s t : Run}
      (found : wf.getNode name = some node) (running : s.status = .running)
      (entered : NodeHandler.enter env wf { jobPlanNode := node } {} s = .ok (false, handler, context) t) :
      signal env wf 1 name {} s = .ok () t :=
    (signal_visits 0 found running).trans (failing_ok ((bind_ok entered).trans rfl))
  -- a node stays when it cannot leave: its row is not saved, or its counter is not one
  cases stays with
  | unsaved found type =>
    refine ⟨[false, false], fun env s underway given => ?_⟩
    exact ⟨_, visits found underway.running (startEnter_refused type given.2.1),
      ⟨underway.running, underway.vars, underway.sound.distinct, underway.sound.known⟩, rfl⟩
  -- a join reads its counter from the variables and asks the database nothing
  | @waits node _ left found type more positive =>
    refine ⟨[], fun env s underway _ => ?_⟩
    obtain ⟨running, rfl, sound⟩ := underway
    rcases @joinEnter_awaited node { s with trace := s.trace ++ [.entered node.name] } _ more with
      ⟨low, -⟩ | ⟨last, -⟩ | ⟨left', same, -, returned⟩
    · omega
    · omega
    · obtain rfl : left = left' := by omega
      exact ⟨_, visits found running ((enter_join env wf s type).trans (bind_ok returned)), ⟨running, rfl, sound⟩, rfl⟩
  | @spent node _ number found type low negative =>
    refine ⟨[], fun env s underway _ => ?_⟩
    obtain ⟨running, rfl, sound⟩ := underway
    rcases @joinEnter_awaited node { s with trace := s.trace ++ [.entered node.name] } _ low with
      ⟨-, returned⟩ | ⟨last, -⟩ | ⟨left', same, -, -⟩
    · exact ⟨_, visits found running ((enter_join env wf s type).trans (bind_ok returned)), ⟨running, rfl, sound⟩, rfl⟩
    · omega
    · omega

/-- The row of a start node is there when the node is left. -/
def Filed (node : JobPlanNode) (context : NodeContext) (s : Run) : Prop :=
  node.type = .start → ∃ progress row, context.jobProgress = some progress ∧ progress.xjobStateID ≠ 0 ∧
    s.store.xjobState? progress.xjobStateID = some row

theorem enters_answered {targets : List (Option String)} (leaves : Leaves wf name vars targets left)
    (found : wf.getNode name = some node) : ∃ answers : List Bool, ∀ (env : Env) (s : Run), Underway vars s →
      env.Answers s answers → ∃ context t,
        NodeHandler.enter env wf { jobPlanNode := node } {} s = .ok (true, { jobPlanNode := node }, context) t ∧
        Underway vars t ∧ Filed node context t ∧ t.store.tick = s.store.tick + answers.length := by
  -- only a start node asks the database when it is entered
  cases leaves with
  | start found' type =>
    obtain rfl := Option.some.inj (found.symm.trans found')
    refine ⟨[true, true], fun env s underway given => ?_⟩
    obtain ⟨date, entered⟩ := @startEnter_answered env wf _ s type given.2.1
    have sound := underway.sound.insert (newXjobState wf node date)
    refine ⟨_, _, entered, ⟨underway.running, underway.vars, sound.distinct, sound.known⟩, fun _ => ?_, rfl⟩
    exact ⟨_, _, rfl, Nat.succ_ne_zero _, underway.sound.find_newest rfl⟩
  | fork found' type =>
    obtain rfl := Option.some.inj (found.symm.trans found')
    refine ⟨[], fun env s underway _ => ⟨{}, _, enter_fork env wf s type, ?_, fun start => ?_, rfl⟩⟩
    · exact ⟨underway.running, underway.vars, underway.sound⟩
    · simp [type] at start
  | join found' type last =>
    obtain rfl := Option.some.inj (found.symm.trans found')
    refine ⟨[], fun env s underway _ => ?_⟩
    obtain ⟨running, rfl, sound⟩ := underway
    rcases @joinEnter_awaited node { s with trace := s.trace ++ [.entered node.name] } _ last with
      ⟨low, -⟩ | ⟨-, returned⟩ | ⟨more, same, positive, -⟩
    · omega
    · refine ⟨{}, _, (enter_join env wf s type).trans (bind_ok returned), ⟨running, rfl, sound⟩, fun start => ?_, rfl⟩
      simp [type] at start
    · omega

theorem exits_answered {targets : List (Option String)} (leaves : Leaves wf name vars targets left)
    (found : wf.getNode name = some node) : ∃ answers : List Bool, ∀ (env : Env) (s : Run) (context : NodeContext),
      Underway vars s → Filed node context s → env.Answers s answers → ∃ t,
        NodeHandler.multiExit env wf { jobPlanNode := node } context s = .ok (some targets) t ∧ Underway left t ∧
        t.store.tick = s.store.tick + answers.length := by
  cases leaves with
  | start found' type =>
    obtain rfl := Option.some.inj (found.symm.trans found')
    refine ⟨List.replicate (3 + marks wf.jobExecutionPlan.id) true, fun env s context underway filed given => ?_⟩
    obtain ⟨progress, row, given_, real, there⟩ := filed type
    obtain ⟨t, exits, status, same, sound, ticks⟩ := @startExit_answered env wf node s type underway.sound context
      progress row given_ real there fun k inside => given.replicate inside
    refine ⟨t, exits, ⟨status.trans underway.running, same.trans underway.vars, sound⟩, ?_⟩
    rw [ticks, List.length_replicate]
  | fork found' type paths =>
    obtain rfl := Option.some.inj (found.symm.trans found')
    refine ⟨[], fun env s context underway _ _ => ⟨_, multiExit_fork env wf s context type paths, ?_, rfl⟩⟩
    obtain ⟨running, rfl, sound⟩ := underway
    exact ⟨running, rfl, sound⟩
  | join found' type last =>
    obtain rfl := Option.some.inj (found.symm.trans found')
    refine ⟨[], fun env s context underway _ _ => ⟨_, multiExit_join env wf s context type, ?_, rfl⟩⟩
    obtain ⟨running, rfl, sound⟩ := underway
    exact ⟨running, rfl, sound⟩

theorem visit_answered {targets : List (Option String)} (leaves : Leaves wf name vars targets left)
    (found : wf.getNode name = some node) : ∃ answers : List Bool, ∀ (env : Env) (s : Run), Underway vars s →
      env.Answers s answers → ∃ t, Underway left t ∧ t.store.tick = s.store.tick + answers.length ∧ ∀ signals,
        visit env wf signals name node s = targets.forM (processNextNode env wf signals) t := by
  obtain ⟨entering, enters⟩ := enters_answered leaves found
  obtain ⟨exiting, exits⟩ := exits_answered leaves found
  refine ⟨entering ++ exiting, fun env s underway given => ?_⟩
  obtain ⟨first, second⟩ := gives_append.mp given
  obtain ⟨context, u, entered, inside, filed, ticks⟩ := enters env s underway first
  rw [← ticks] at second
  obtain ⟨t, left_, gone, more⟩ := exits env u context inside filed second
  refine ⟨{ t with trace := t.trace ++ [.passed name context.xjobStateID targets] },
    ⟨gone.running, gone.vars, gone.sound⟩, ?_, fun signals => ?_⟩
  · rw [List.length_append]
    have total : t.store.tick = s.store.tick + (entering.length + exiting.length) := by omega
    exact total
  · exact (bind_ok entered).trans ((bind_ok left_).trans (processNextNodes_going signals _ gone.running))

/-- Two parts of a loop that each have enough depth have enough depth together. -/
theorem loop_joined {next : Option String} {rest : List (Option String)} {u : Run} {depth depth' : Nat}
    (turn : processNextNode env wf (signal env wf depth) next s = .ok () u)
    (others : rest.forM (processNextNode env wf (signal env wf depth')) u = .ok () t) :
    ∃ depth, (next :: rest).forM (processNextNode env wf (signal env wf depth)) s = .ok () t := by
  have deeper {m n : Nat} (more : m ≤ n) (next : Option String) : Approximates Throwable.isException
      (processNextNode env wf (signal env wf m) next) (processNextNode env wf (signal env wf n) next) :=
    processNextNode_deeper (signal_deeper more) next
  refine ⟨max depth depth', (bind_ok ((deeper (le_max_left ..) next).ok turn)).trans ?_⟩
  exact (Approximates.forM (deeper (le_max_right ..)) rest).ok others

/-- The database can answer so that the successors are gone through. -/
theorem through_answered {names : List (Option String)} (through : Through wf names vars vars') :
    ∃ answers : List Bool, ∀ (env : Env) (s : Run), Underway vars s → env.Answers s answers →
      ∃ t depth, names.forM (processNextNode env wf (signal env wf depth)) s = .ok () t ∧ Underway vars' t ∧
        t.store.tick = s.store.tick + answers.length := by
  induction through with
  | done => exact ⟨[], fun env s underway _ => ⟨s, 0, rfl, underway, rfl⟩⟩
  | unknown missing _ ih =>
    obtain ⟨answers, runs⟩ := ih
    refine ⟨answers, fun env s underway given => ?_⟩
    obtain ⟨t, depth, others, after⟩ := runs env s underway given
    exact ⟨t, depth, (bind_ok (processNextNode_unknown missing)).trans others, after⟩
  | acts found type job _ ih =>
    obtain ⟨answers, runs⟩ := ih
    refine ⟨List.replicate 4 true ++ answers, fun env s underway given => ?_⟩
    obtain ⟨first, second⟩ := gives_append.mp given
    obtain ⟨u, turn, inside, ticks⟩ := @action_answered env wf _ _ _ s (signal env wf 0) found type job underway first
    rw [List.length_replicate, ← ticks] at second
    obtain ⟨t, depth, others, after, more⟩ := runs env u inside second
    obtain ⟨depth', both⟩ := loop_joined turn others
    exact ⟨t, depth', both, after, by rw [List.length_append, List.length_replicate]; omega⟩
  | stays stays _ ih =>
    obtain ⟨answers, runs⟩ := ih
    obtain ⟨staying, visits⟩ := stays_answered stays
    refine ⟨staying ++ answers, fun env s underway given => ?_⟩
    obtain ⟨first, second⟩ := gives_append.mp given
    obtain ⟨node, found, passing⟩ := stays.passing
    obtain ⟨u, visited, inside, ticks⟩ := visits env s underway first
    -- each call starts where the one before it stopped in the list of answers
    rw [← ticks] at second
    obtain ⟨t, depth, others, after, more⟩ := runs env u inside second
    obtain ⟨depth', both⟩ := loop_joined ((congrFun (processNextNode_passing found passing) s).trans visited) others
    exact ⟨t, depth', both, after, by rw [List.length_append]; omega⟩
  | leaves leaves _ _ ihInner ihOthers =>
    obtain ⟨node, found, passing⟩ := leaves.passing
    obtain ⟨leaving, visits⟩ := visit_answered leaves found
    obtain ⟨within, runsInner⟩ := ihInner
    obtain ⟨answers, runs⟩ := ihOthers
    -- the visit, the flow it starts and the rest of the loop share the answers in this order
    refine ⟨leaving ++ within ++ answers, fun env s underway given => ?_⟩
    obtain ⟨both, third⟩ := gives_append.mp given
    obtain ⟨first, second⟩ := gives_append.mp both
    obtain ⟨u, gone, ticks, goes⟩ := visits env s underway first
    rw [← ticks] at second
    obtain ⟨v, depth, inner, inside, more⟩ := runsInner env u gone second
    rw [List.length_append, ← Nat.add_assoc, ← ticks, ← more] at third
    obtain ⟨t, depth', others, after, rest⟩ := runs env v inside third
    have visited : signal env wf (depth + 1) _ {} s = .ok () v :=
      (signal_visits depth found underway.running).trans (failing_ok ((goes _).trans inner))
    obtain ⟨depth'', both⟩ := loop_joined ((congrFun (processNextNode_passing found passing) s).trans visited) others
    exact ⟨t, depth'', both, after, by simp only [List.length_append]; omega⟩

end Hella

import Hella.Control.Calm
import Hella.Control.Room

/-!
# Calm steps

With all DAO calls succeeding, a job for every action and room on the stack, an
instance works through the nodes it has to enter one whole node at a time. `Calm` is
one such step, with all it does to the store. Only a join without a running counter
can still fail.
-/
namespace Hella

open Exec Text

section Calm

variable (env : Env) (wf : Workflow)

/-- The first of the nodes still to be entered is dealt with. -/
inductive Calm : List String → Run → List String → Run → Prop where
  | absent {y rest s} (missing : wf.getNode y = none) : Calm (y :: rest) s rest s
  | skips {y rest s node} (found : wf.getNode y = some node) (passing : node.type.isFinalType = false)
      (stopped : s.status ≠ .running) : Calm (y :: rest) s rest s
  | begins {y rest s node} {row : XjobState} {date : String} {n : Nat} (found : wf.getNode y = some node)
      (type : node.type = .start) (running : s.status = .running)
      (newest : row.id = s.store.lastXjobStateID + 1) (key : row.currentExecutorKey = wf.getWorkflowKey)
      (closed : row.jobPlanNodeState.isRunningState = false) (later : s.store.tick ≤ n) :
    Calm (y :: rest) s (node.toNode.toList ++ rest) { s with
      trace := s.trace ++ [.entered y] ++ [.added row.id] ++ [.passed y row.id [node.toNode]]
      store := { s.store.mark wf.jobExecutionPlan.id .doing date with
        tick := n, xjobStates := s.store.xjobStates ++ [row], lastXjobStateID := row.id } }
  | acts {y rest s node} {row : XjobState} {event : JobEvent} {k n : Nat} (found : wf.getNode y = some node)
      (type : node.type = .action) (newest : row.id = s.store.lastXjobStateID + 1)
      (key : row.currentExecutorKey = wf.getWorkflowKey) (state : row.jobPlanNodeState = .notifySuccess)
      (later : s.store.tick ≤ k) (more : k < n)
      (named : event.eventID = env.idPrefix ++ toString (env.generateID k)) :
    Calm (y :: rest) s rest { s with
      trace := s.trace ++ [.entered y] ++ [.added row.id] ++ [.dispatched y row.id event]
      store := { s.store.dispatch event ⟨y, row.id, wf.getWorkflowKey⟩ with
        tick := n, xjobStates := s.store.xjobStates ++ [row], lastXjobStateID := row.id } }
  | forks {y rest s node toNode} (found : wf.getNode y = some node) (type : node.type = .fork)
      (running : s.status = .running) (paths : node.toNode = some toNode) :
    Calm (y :: rest) s (split toNode ++ rest) { s with
      vars := s.vars.insert (pairVar y (orNull node.joinName)) (toString (split toNode).length)
      trace := s.trace ++ [.entered y] ++ [.forked y (orNull node.joinName) (split toNode).length] ++
        [.passed y 0 ((split toNode).map some)] }
  | arrives {y rest s node text left} (found : wf.getNode y = some node) (type : node.type = .join)
      (running : s.status = .running) (value : s.vars.lookup (pairVar (orNull node.forkName) y) = some text)
      (number : parseInt text = some ((left + 1 : Nat) : Int)) (positive : 0 < left) :
    Calm (y :: rest) s rest { s with
      vars := s.vars.insert (pairVar (orNull node.forkName) y) (toString left)
      trace := s.trace ++ [.entered y] ++ [.peeked (orNull node.forkName) y] ++
        [.arrived (orNull node.forkName) y left] }
  | releases {y rest s node text} (found : wf.getNode y = some node) (type : node.type = .join)
      (running : s.status = .running) (value : s.vars.lookup (pairVar (orNull node.forkName) y) = some text)
      (number : parseInt text = some 1) :
    Calm (y :: rest) s (node.toNode.toList ++ rest) { s with
      vars := s.vars.erase (pairVar (orNull node.forkName) y)
      trace := s.trace ++ [.entered y] ++ [.peeked (orNull node.forkName) y] ++
        [.released (orNull node.forkName) y] ++ [.passed y 0 [node.toNode]] }
  | underflows {y rest s node text number} (found : wf.getNode y = some node) (type : node.type = .join)
      (running : s.status = .running) (value : s.vars.lookup (pairVar (orNull node.forkName) y) = some text)
      (parsed : parseInt text = some number) (low : number ≤ 0) :
    Calm (y :: rest) s rest { s with trace := s.trace ++ [.entered y] ++ [.peeked (orNull node.forkName) y] }
  /-- the counter is missing -/
  | faults {y rest s node} (found : wf.getNode y = some node) (type : node.type = .join)
      (running : s.status = .running)
      (value : (s.vars.lookup (pairVar (orNull node.forkName) y)).bind parseInt = none) :
    Calm (y :: rest) s rest { s with
      status := .failed
      trace := s.trace ++ [.entered y] ++ [.peeked (orNull node.forkName) y] ++ [.assigned .failed] }
  | ends {y rest s u node} {row : XjobState} {date : String} {n : Nat} (found : wf.getNode y = some node)
      (type : node.type = .end_)
      (notified : Notified env wf node 0 { s with trace := s.trace ++ [.entered y] } u)
      (newest : row.id = s.store.lastXjobStateID + 1) (key : row.currentExecutorKey = wf.getWorkflowKey)
      (closed : row.jobPlanNodeState.isRunningState = false) (later : u.store.tick ≤ n) :
    Calm (y :: rest) s rest { u with
      status := .succeeded
      trace := u.trace ++ [.added row.id] ++ [.assigned .succeeded]
      store := { u.store.mark wf.jobExecutionPlan.id .success date with
        tick := n, xjobStates := s.store.xjobStates ++ [row], lastXjobStateID := row.id
        producedEvents := s.store.producedEvents ++ s.store.eventOf node.jobExecutionPlanID } }
  | gives {y rest s u node} {row : XjobState} {g : XjobState → XjobState} {date : String} {n : Nat}
      (found : wf.getNode y = some node) (type : node.type = .fail)
      (notified : Notified env wf node row.id { s with trace := s.trace ++ [.entered y] ++ [.added row.id] } u)
      (newest : row.id = s.store.lastXjobStateID + 1) (key : row.currentExecutorKey = wf.getWorkflowKey)
      (settled : ∀ x ∈ s.store.xjobStates ++ [row], Store.Settles wf.getWorkflowKey x (g x))
      (later : u.store.tick ≤ n) :
    Calm (y :: rest) s rest { u with
      status := .failed
      trace := u.trace ++ [.assigned .failed]
      store := { u.store.mark wf.jobExecutionPlan.id .error date with
        tick := n, xjobStates := (s.store.xjobStates ++ [row]).map g, lastXjobStateID := row.id } }

abbrev Calms : List String × Run → List String × Run → Prop :=
  Relation.ReflTransGen fun x y => Calm env wf x.1 x.2 y.1 y.2

/-- What calm steps need of the environment and the plan. -/
structure Steady : Prop where
  dao : ∀ n, env.daoSucceeds n = true
  jobs : ∀ name node, wf.getNode name = some node → node.type = .action → node.xjobMeta.isSome = true
  paths : ∀ name node, wf.getNode name = some node → node.type = .fork → node.toNode.isSome = true
  room : Roomy env wf

end Calm

/-- The report's row has been written. -/
def Run.written (s : Run) (name : String) (x : XjobState) : Run :=
  { s with trace := s.trace ++ [.completing name x.id], store := s.store.updateXjobState x }

/-- What a report leads to once its row has been written. -/
inductive Answered (env : Env) (wf : Workflow) (node : JobPlanNode) (row : XjobState) (state : JobPlanNodeState)
    (s : Run) : Run → Prop where
  | retries (again : HasRetry node row state) :
    Answered env wf node row state s { s with status := .failed, trace := s.trace ++ [.assigned .failed] }
  | late (ended : s.status.isEndState = true) : Answered env wf node row state s s
  | goes {t : Run} (last : ¬ HasRetry node row state) (live : s.status.isEndState = false)
      (calms : Calms env wf ((node.answer state).toList,
        { s with trace := s.trace ++ [.passed node.name row.id [node.answer state]] }) ([], t)) :
    Answered env wf node row state s t

/-- An instance that has reached an end state is taken out of the registry. -/
def Run.closed (wf : Workflow) (s : Run) : Run :=
  if s.status.isEndState then
    { s with store := { s.store with workflowsMap := s.store.workflowsMap.erase wf.getWorkflowKey } }
  else s

section Refinement

variable {env : Env} {wf : Workflow} (steady : Steady env wf) {s t : Run} {y : String} {rest : List String}
  {node : JobPlanNode}

theorem Store.Sound.grow {s t : Store} {row : XjobState} (sound : s.Sound) (newest : row.id = s.lastXjobStateID + 1)
    (rows : t.xjobStates = s.xjobStates ++ [row]) (last : t.lastXjobStateID = row.id) : t.Sound where
  distinct := by
    have fresh : ∀ x ∈ s.xjobStates, x.id ≠ row.id := fun x member => newest ▸ sound.fresh member
    simpa [rows, List.nodup_append] using ⟨sound.distinct, fresh⟩
  known x member := by
    rw [rows] at member
    rw [last, newest]
    rcases List.mem_append.mp member with old | new
    · exact (sound.known x old).trans (Nat.le_succ _)
    · rw [List.mem_singleton.mp new, newest]

theorem Store.Sound.settle {s t : Store} {g : XjobState → XjobState} {key : String} (sound : s.Sound)
    (settled : ∀ x ∈ s.xjobStates, Store.Settles key x (g x)) (rows : t.xjobStates = s.xjobStates.map g)
    (last : t.lastXjobStateID = s.lastXjobStateID) : t.Sound where
  distinct := by
    have same : t.xjobStates.map (·.id) = s.xjobStates.map (·.id) := by
      rw [rows, List.map_map]
      exact List.map_congr_left fun x member => (settled x member).1
    rw [same]
    exact sound.distinct
  known x member := by
    rw [rows] at member
    obtain ⟨old, inside, rfl⟩ := List.mem_map.mp member
    rw [(settled old inside).1, last]
    exact sound.known old inside

theorem Calm.sound {names names' : List String} (calm : Calm env wf names s names' t) (sound : s.store.Sound) :
    t.store.Sound := by
  cases calm with
  | absent | skips | forks | arrives | releases | underflows | faults => exact sound
  | begins found type running newest => exact sound.grow newest rfl rfl
  | acts found type newest => exact sound.grow newest rfl rfl
  | ends found type notified newest => exact sound.grow newest rfl rfl
  | gives found type notified newest key settled =>
    have grown : Store.Sound { s.store with
        xjobStates := s.store.xjobStates ++ [_], lastXjobStateID := _ } := sound.grow newest rfl rfl
    exact grown.settle settled rfl rfl

/-! ### Final-type nodes -/

include steady

variable (rest) in
theorem action_calm (sound : s.store.Sound) (found : wf.getNode y = some node) (type : node.type = .action) :
    Returns (NodeHandler.enter env wf { jobPlanNode := node } {}) s fun _ t => Calm env wf (y :: rest) s rest t := by
  have name := Workflow.getNode_name found
  refine (record_returns (Upto.refl s) _).bind fun _ _ here => ?_
  simp only [type]
  refine (actionEnter_returns steady.dao here sound (steady.jobs y node found type)).bind fun _ _ post =>
    Returns.pure ?_
  obtain ⟨row, event, k, newest, key, state, later, named, n, more, rfl⟩ := post
  rw [name]
  exact .acts found type newest key state later more named

variable (rest) in
theorem end_calm (sound : s.store.Sound) (found : wf.getNode y = some node) (type : node.type = .end_) :
    Returns (do
      let (_, _, context) ← NodeHandler.enter env wf { jobPlanNode := node } {}
      let _ ← EndNodeHandler.exit env wf node context
      setStatus .succeeded) s fun _ t => Calm env wf (y :: rest) s rest t := by
  have name := Workflow.getNode_name found
  -- the row `enter` inserts is the newest, with the executor key the workflow gives it
  refine Returns.bind (Q := fun result u => ∃ row v, row.id = s.store.lastXjobStateID + 1 ∧
    row.currentExecutorKey = wf.getWorkflowKey ∧ result.2.2 = contextOf row ∧
    Notified env wf node 0 { s with trace := s.trace ++ [.entered y] } v ∧
    Upto { v with
      trace := v.trace ++ [.added row.id]
      store := { v.store with xjobStates := s.store.xjobStates ++ [row], lastXjobStateID := row.id } } u) ?_ ?_
  · refine (record_returns (Upto.refl s) _).bind fun _ _ here => ?_
    simp only [type]
    refine (endEnter_returns steady.dao here).bind fun _ _ post => Returns.pure ?_
    obtain ⟨row, v, newest, key, rfl, notified, here⟩ := post
    rw [name] at notified
    exact ⟨row, v, newest, key, rfl, notified, here⟩
  -- `exit` looks the row up again and closes it, and only then the status changes
  · rintro ⟨exiting, handler, context⟩ u ⟨row, v, newest, key, rfl, notified, here⟩
    have found_row : Store.xjobState? { v.store with
        xjobStates := s.store.xjobStates ++ [row], lastXjobStateID := row.id } row.id = some row := by
      rw [Store.xjobState?, newest]
      exact sound.find_newest newest
    have real : row.id ≠ 0 := by omega
    refine (endExit_returns steady.dao here rfl real found_row).bind fun _ _ post => ?_
    obtain ⟨runTime, date, here⟩ := post
    refine (setStatus_returns here _).conseq fun _ _ here => ?_
    obtain ⟨n, later, rfl⟩ := here
    have calm := @Calm.ends env wf y rest s v node (Store.XjobState.overwrite row
      { row with runTime := runTime, jobPlanNodeState := .resultSuccess }) date n found type notified
        newest key rfl later
    simp only [Store.updateXjobState, Store.XjobState.overwrite_id, newest] at calm ⊢
    -- both updates fall on the same, newest row, so one closed row is left
    rw [sound.map_newest newest]
    cases notified <;> exact calm

variable (rest) in
theorem fail_calm (sound : s.store.Sound) (found : wf.getNode y = some node) (type : node.type = .fail) :
    Returns (do
      let (_, _, context) ← NodeHandler.enter env wf { jobPlanNode := node } {}
      let _ ← FailNodeHandler.exit env wf context
      setStatus .failed) s fun _ t => Calm env wf (y :: rest) s rest t := by
  have name := Workflow.getNode_name found
  refine Returns.bind (Q := fun result u => ∃ row v, row.id = s.store.lastXjobStateID + 1 ∧
    row.currentExecutorKey = wf.getWorkflowKey ∧ result.2.2 = contextOf row ∧
    Notified env wf node row.id { s with trace := s.trace ++ [.entered y] ++ [.added row.id] } v ∧
    Upto { v with
      store := { v.store with xjobStates := s.store.xjobStates ++ [row], lastXjobStateID := row.id } } u) ?_ ?_
  · refine (record_returns (Upto.refl s) _).bind fun _ _ here => ?_
    simp only [type]
    refine (failEnter_returns steady.dao here sound).bind fun _ _ post => Returns.pure ?_
    obtain ⟨row, v, newest, key, rfl, notified, here⟩ := post
    rw [name] at notified
    exact ⟨row, v, newest, key, rfl, notified, here⟩
  · rintro ⟨exiting, handler, context⟩ u ⟨row, v, newest, key, rfl, notified, here⟩
    have real : row.id ≠ 0 := by omega
    -- `exit` reads all rows for those still running, so it matters that the new one is sound
    have grown : Store.Sound { v.store with
        xjobStates := s.store.xjobStates ++ [row], lastXjobStateID := row.id } := sound.grow newest rfl rfl
    refine (failExit_returns steady.dao here grown rfl real (by simp) rfl key).bind fun _ _ post => ?_
    obtain ⟨g, date, settled, here⟩ := post
    refine (setStatus_returns here _).conseq fun _ _ here => ?_
    obtain ⟨n, later, rfl⟩ := here
    exact .gives found type notified newest key settled later

theorem processNextNode_calm {signals : String → NodeContext → RunM Unit} (sound : s.store.Sound)
    (inner : ∀ node, wf.getNode y = some node → node.type.isFinalType = false →
      Returns (signals y {}) s fun _ t => Calms env wf (y :: rest, s) (rest, t)) :
    Returns (processNextNode env wf signals (some y)) s fun _ t => Calms env wf (y :: rest, s) (rest, t) := by
  simp only [processNextNode, Option.bind_some]
  cases found : wf.getNode y with
  | none => exact Returns.pure (.single (.absent found))
  | some node =>
    have name := Workflow.getNode_name found
    dsimp only
    split
    -- a node that passes control on is left to the signal
    next passing => exact name ▸ inner node found (by simpa using passing)
    next final =>
      have final : node.type.isFinalType = true := by simpa using final
      refine Returns.bind (Q := fun handler t => { jobPlanNode := node } = handler ∧ s = t) ⟨_, _, rfl, rfl, rfl⟩ ?_
      rintro _ _ ⟨rfl, rfl⟩
      cases type : node.type with
      | action =>
        refine (action_calm steady rest sound found type).bind fun _ _ calm => ?_
        exact Returns.pure (.single calm)
      | end_ =>
        simp only [if_true]
        exact (end_calm steady rest sound found type).conseq fun _ _ calm => .single calm
      | fail =>
        simp only [reduceCtorEq, if_false, if_true]
        exact (fail_calm steady rest sound found type).conseq fun _ _ calm => .single calm
      -- no other type is final
      | _ => simp [type, JobPlanNodeType.isFinalType] at final

omit steady in
theorem Calms.sound {x y : List String × Run} (calms : Calms env wf x y) (sound : x.2.store.Sound) :
    y.2.store.Sound := by
  induction calms with
  | refl => exact sound
  | tail _ calm ih => exact calm.sound ih

theorem processAll_calm {signals : String → NodeContext → RunM Unit} (sound : s.store.Sound)
    (targets : List (Option String))
    (inner : ∀ y node u rest, some y ∈ targets → wf.getNode y = some node → node.type.isFinalType = false →
      u.store.Sound → Returns (signals y {}) u fun _ t => Calms env wf (y :: rest, u) (rest, t)) :
    Returns (targets.forM (processNextNode env wf signals)) s fun _ t =>
      Calms env wf (targets.reduceOption ++ rest, s) (rest, t) := by
  induction targets generalizing s with
  | nil => exact Returns.pure .refl
  | cons target more ih =>
    cases target with
    | none => exact ih sound fun y node u rest member => inner y node u rest (by simp [member])
    | some y =>
      have first : Returns (processNextNode env wf signals (some y)) s fun _ t =>
          Calms env wf (y :: (more.reduceOption ++ rest), s) (more.reduceOption ++ rest, t) :=
        processNextNode_calm steady sound fun node found passing => inner y node s _ (by simp) found passing sound
      refine Returns.bind first fun _ t calms => ?_
      refine (ih (calms.sound sound) fun y node u rest member => inner y node u rest (by simp [member])).conseq
        fun _ u later => ?_
      rw [List.reduceOption_cons_of_some, List.cons_append]
      exact calms.trans later

/-! ### Nodes `signal` is called for -/

variable {signals : String → NodeContext → RunM Unit}

/-- What `signal` does inside its `try` block. -/
def visit (env : Env) (wf : Workflow) (signals : String → NodeContext → RunM Unit) (y : String) (node : JobPlanNode) :
    RunM Unit := do
  let (exiting, handler, context) ← NodeHandler.enter env wf { jobPlanNode := node } {}
  if exiting then
    let multiExit ← handler.multiExit env wf context
    processNextNodes env wf signals y context.xjobStateID multiExit

/-- The successors a node names are dealt with. -/
def Follows (env : Env) (wf : Workflow) (signals : String → NodeContext → RunM Unit) (targets : List (Option String)) :
    Prop :=
  ∀ u rest, u.store.Sound → Returns (targets.forM (processNextNode env wf signals)) u fun _ t =>
    Calms env wf (targets.reduceOption ++ rest, u) (rest, t)

omit steady in
theorem processNextNodes_live {id : Nat} {targets : List (Option String)} (rest : List String) (sound : s.store.Sound)
    (live : s.status.isEndState = false) (follows : Follows env wf signals targets) :
    Returns (processNextNodes env wf signals y id (some targets)) s fun _ t => Calms env wf
      (targets.reduceOption ++ rest, { s with trace := s.trace ++ [.passed y id targets] }) (rest, t) := by
  refine Returns.bind (Q := fun a t => s = a ∧ s = t) (Returns.getting ⟨rfl, rfl⟩) ?_
  rintro _ _ ⟨rfl, rfl⟩
  simp only [live, Bool.false_eq_true, if_false]
  refine Returns.bind (Returns.modifying (Q := fun _ t => t = _) rfl) fun _ t same => ?_
  subst same
  exact follows { s with trace := s.trace ++ [.passed y id targets] } rest sound

omit steady in
/-- A node that has been dealt with up to its successors. -/
theorem processNextNodes_calm {s₀ : Run} {id : Nat} {targets : List (Option String)} (sound : s.store.Sound)
    (live : s.status.isEndState = false) (follows : Follows env wf signals targets)
    (calm : Calm env wf (y :: rest) s₀ (targets.reduceOption ++ rest)
      { s with trace := s.trace ++ [.passed y id targets] }) :
    Returns (processNextNodes env wf signals y id (some targets)) s fun _ t =>
      Calms env wf (y :: rest, s₀) (rest, t) :=
  (processNextNodes_live rest sound live follows).conseq fun _ _ later => later.head calm

theorem start_calm (sound : s.store.Sound) (running : s.status = .running) (found : wf.getNode y = some node)
    (type : node.type = .start) (follows : Follows env wf signals [node.toNode]) :
    Returns (visit env wf signals y node) s fun _ t => Calms env wf (y :: rest, s) (rest, t) := by
  have live : s.status.isEndState = false := by rw [running]; rfl
  have name := Workflow.getNode_name found
  -- `enter` inserts a row and returns with the one node after it
  refine Returns.bind (Q := fun result u => ∃ x : XjobState, x.id = s.store.lastXjobStateID + 1 ∧
    x.currentExecutorKey = wf.getWorkflowKey ∧ result = (true, { jobPlanNode := node }, contextOf x) ∧
    Upto { s with
      trace := s.trace ++ [Act.entered y] ++ [Act.added x.id]
      store := { s.store with xjobStates := s.store.xjobStates ++ [x], lastXjobStateID := x.id } } u) ?_ ?_
  · refine (record_returns (Upto.refl s) _).bind fun _ _ here => ?_
    simp only [type]
    refine (startEnter_returns steady.dao here _).bind fun _ _ post => Returns.pure ?_
    obtain ⟨date, rfl, here⟩ := post
    rw [name] at here
    exact ⟨_, rfl, rfl, rfl, here⟩
  · rintro _ u ⟨x, newest, key, rfl, here⟩
    -- `exit` closes the row and marks the plan as being done
    have real : x.id ≠ 0 := by omega
    have found_row : Store.xjobState? { s.store with
        xjobStates := s.store.xjobStates ++ [x], lastXjobStateID := x.id } x.id = some x := by
      rw [Store.xjobState?, newest]
      exact sound.find_newest newest
    simp only [if_true, NodeHandler.multiExit, type]
    refine Returns.bind ((startExit_returns steady.dao here rfl real found_row).bind fun _ _ post =>
      Returns.pure (Q := fun exits t => exits = some [node.toNode] ∧ ∃ row : XjobState, ∃ date n,
        row.id = s.store.lastXjobStateID + 1 ∧ row.currentExecutorKey = wf.getWorkflowKey ∧
        row.jobPlanNodeState.isRunningState = false ∧ s.store.tick ≤ n ∧ t =
        { s with
          trace := s.trace ++ [Act.entered y] ++ [Act.added row.id]
          store := { s.store.mark wf.jobExecutionPlan.id .doing date with
            tick := n, xjobStates := s.store.xjobStates ++ [row], lastXjobStateID := row.id } }) ?_) ?_
    · obtain ⟨rfl, runTime, date, state, closed, n, later, rfl⟩ := post
      refine ⟨rfl, Store.XjobState.overwrite x { x with runTime := runTime, jobPlanNodeState := state }, date, n,
        newest, key, closed, later, ?_⟩
      simp only [Store.updateXjobState, Store.mark, Store.XjobState.overwrite_id, newest]
      rw [sound.map_newest newest]
      rfl
    · rintro _ _ ⟨rfl, row, date, n, newest', key, closed, later, rfl⟩
      -- the loop over the nodes after it goes on from the state with the closed row
      have same : (contextOf x).xjobStateID = row.id := newest.trans newest'.symm
      have calm := @Calm.begins env wf y rest s node row date n found type running newest' key closed later
      rw [same]
      rw [← List.reduceOption_singleton] at calm
      exact processNextNodes_calm (calm.sound sound) live follows calm

theorem fork_calm (sound : s.store.Sound) (running : s.status = .running) (found : wf.getNode y = some node)
    (type : node.type = .fork)
    (follows : ∀ toNode, node.toNode = some toNode → Follows env wf signals ((split toNode).map some)) :
    Returns (visit env wf signals y node) s fun _ t => Calms env wf (y :: rest, s) (rest, t) := by
  have live : s.status.isEndState = false := by rw [running]; rfl
  have name := Workflow.getNode_name found
  obtain ⟨toNode, paths⟩ := Option.isSome_iff_exists.mp (steady.paths y node found type)
  refine Returns.bind (Q := fun result t => result = (true, { jobPlanNode := node }, {}) ∧
    t = { s with trace := s.trace ++ [.entered y] }) ?_ ?_
  · refine ⟨_, _, ?_, rfl, rfl⟩
    simp only [NodeHandler.enter, type, name]
    rfl
  · rintro _ _ ⟨rfl, rfl⟩
    simp only [if_true, NodeHandler.multiExit, type, ForkNodeHandler.multiExit, paths, name]
    refine Returns.bind (Q := fun exits t => exits = some ((split toNode).map some) ∧ t = _) ⟨_, _, rfl, rfl, rfl⟩ ?_
    rintro _ _ ⟨rfl, rfl⟩
    refine processNextNodes_calm sound live (follows toNode paths) ?_
    have all : ((split toNode).map some).reduceOption = split toNode := by simp [List.reduceOption]
    rw [all]
    exact .forks found type running paths

omit steady in
/-- A join reads its counter and writes back what is left. -/
theorem joinEnter_cases (s : Run) (name : node.name = y) :
    let key := pairVar (orNull node.forkName) y
    let t := { s with trace := s.trace ++ [.peeked (orNull node.forkName) y] }
    ((s.vars.lookup key).bind parseInt = none ∧
      ∃ e, e.isException = true ∧ JoinNodeHandler.enter node s = .error e t) ∨
    (∃ text number, s.vars.lookup key = some text ∧ parseInt text = some number ∧
      ((number ≤ 0 ∧ JoinNodeHandler.enter node s = .ok false t) ∨
       (number = 1 ∧ JoinNodeHandler.enter node s = .ok true t) ∨
       ∃ left : Nat, number = ((left + 1 : Nat) : Int) ∧ 0 < left ∧
        JoinNodeHandler.enter node s = .ok false { s with
          vars := s.vars.insert key (toString left)
          trace := s.trace ++ [.peeked (orNull node.forkName) y] ++ [.arrived (orNull node.forkName) y left] })) := by
  subst name
  intro key t
  unfold JoinNodeHandler.enter
  simp only [record, bind_apply, modify_apply, get_apply]
  -- no counter, a text that is no number, or a number: a join node throws in the first two cases
  cases value : s.vars.lookup (orNull node.forkName ++ node.name) with
  | none => exact .inl ⟨by simp [key, pairVar, value], _, rfl, rfl⟩
  | some text =>
    dsimp only
    cases parsed : parseInt text with
    | none => exact .inl ⟨by simp [key, pairVar, value, parsed], _, rfl, rfl⟩
    | some number =>
      refine .inr ⟨text, number, value, parsed, ?_⟩
      dsimp only
      -- only a counter above one is written back
      split
      next positive =>
        obtain ⟨left, rfl⟩ : ∃ left : Nat, number = ((left + 1 : Nat) : Int) := ⟨(number - 1).toNat, by omega⟩
        have whole : ((left + 1 : Nat) : Int) - 1 = (left : Int) := by omega
        refine .inr (.inr ⟨left, rfl, by omega, ?_⟩)
        simp only [whole, Int.toNat_natCast, bind_apply, modify_apply, pure_apply]
        rfl
      next low =>
        by_cases last : number = 1
        · subst last
          exact .inr (.inl ⟨rfl, rfl⟩)
        · refine .inl ⟨by omega, ?_⟩
          have other : ¬ number - 1 = 0 := by omega
          simp [other, t]

omit steady in
theorem join_calm (sound : s.store.Sound) (running : s.status = .running) (found : wf.getNode y = some node)
    (type : node.type = .join) (follows : Follows env wf signals [node.toNode]) :
    Returns (failing (visit env wf signals y node)) s fun _ t => Calms env wf (y :: rest, s) (rest, t) := by
  have live : s.status.isEndState = false := by rw [running]; rfl
  have name := Workflow.getNode_name found
  let s₁ : Run := { s with trace := s.trace ++ [.entered y] }
  have enters : visit env wf signals y node s = (do
      let exiting ← JoinNodeHandler.enter node
      if exiting then
        let multiExit ← NodeHandler.multiExit env wf { jobPlanNode := node } {}
        processNextNodes env wf signals y 0 multiExit) s₁ := by
    simp only [visit, NodeHandler.enter, type, name, bind_assoc, pure_bind]
    rfl
  -- a missing or unreadable counter is the fault the catch block of `signal` records
  rcases joinEnter_cases s₁ name with ⟨value, e, exception, thrown⟩ | ⟨text, number, value, parsed, cases_⟩
  · refine Returns.caught (e := e) (t := _) (enters.trans (bind_error thrown)) exception ?_
    exact Returns.modifying (.single (.faults found type running value))
  · refine Returns.catching ?_
    unfold Returns
    rw [enters]
    -- below one the node is left at once, at one it releases, above one it waits
    rcases cases_ with ⟨low, returned⟩ | ⟨rfl, returned⟩ | ⟨left, rfl, positive, returned⟩
    · exact Returns.bind ⟨_, _, returned, rfl, rfl⟩ (Q := fun exiting t => exiting = false ∧ t = _) (by
        rintro _ _ ⟨rfl, rfl⟩
        exact Returns.pure (.single (.underflows found type running value parsed low)))
    · refine Returns.bind (Q := fun exiting t => exiting = true ∧ t = _) ⟨_, _, returned, rfl, rfl⟩ ?_
      rintro _ _ ⟨rfl, rfl⟩
      simp only [if_true, NodeHandler.multiExit, type, JoinNodeHandler.exit, name]
      refine Returns.bind (Q := fun exits t => exits = some [node.toNode] ∧ t = _) ⟨_, _, rfl, rfl, rfl⟩ ?_
      rintro _ _ ⟨rfl, rfl⟩
      refine processNextNodes_calm sound live follows ?_
      rw [List.reduceOption_singleton]
      exact .releases found type running value parsed
    · refine Returns.bind (Q := fun exiting t => exiting = false ∧ t = _) ⟨_, _, returned, rfl, rfl⟩ ?_
      rintro _ _ ⟨rfl, rfl⟩
      exact Returns.pure (.single (.arrives found type running value parsed positive))

/-- With enough room `signal` deals with a node and all it leads to. -/
theorem signal_calm (depth : Nat) {y : String} (fits : Fits wf depth y) (found : wf.getNode y = some node)
    (passing : node.type.isFinalType = false) (sound : s.store.Sound) :
    Returns (signal env wf depth y {}) s fun _ t => Calms env wf (y :: rest, s) (rest, t) := by
  induction depth generalizing y node s rest with
  -- a plan without loops never needs more stack than it fits in
  | zero => exact fits.elim
  | succ depth ih =>
    have follows (targets : List (Option String)) (lead : ∀ next, some next ∈ targets → Leads node next) :
        Follows env wf (signal env wf depth) targets := by
      intro u rest sound
      refine processAll_calm steady sound targets fun next after v more member reached onward safe => ?_
      exact ih (fits node found next (lead next member) after reached onward) reached onward safe
    have single (other : node.type ≠ .fork) (next : String) (member : some next ∈ [node.toNode]) : Leads node next :=
      ⟨fun fork => absurd fork other, fun _ => (List.mem_singleton.mp member).symm⟩
    refine Returns.bind (Q := fun a t => s = a ∧ s = t) (Returns.getting ⟨rfl, rfl⟩) ?_
    rintro _ _ ⟨rfl, rfl⟩
    -- the status is read first: once the workflow has ended nothing more happens
    split
    next stopped => exact Returns.pure (.single (.skips found passing stopped))
    next running =>
      have running : s.status = .running := by simpa using running
      rw [found]
      cases type : node.type with
      | start =>
        exact Returns.catching (start_calm steady sound running found type (follows _ (single (by simp [type]))))
      | fork =>
        refine Returns.catching (fork_calm steady sound running found type fun toNode paths => follows _ ?_)
        intro next member
        exact ⟨fun _ => ⟨toNode, paths, by simpa using member⟩, fun other => absurd type other⟩
      | join => exact join_calm sound running found type (follows _ (single (by simp [type])))
      | action => simp [type, JobPlanNodeType.isFinalType] at passing
      | fail => simp [type, JobPlanNodeType.isFinalType] at passing
      | end_ => simp [type, JobPlanNodeType.isFinalType] at passing

/-! ### Calls -/

theorem start_calms (sound : s.store.Sound) (prep : s.status = .prep)
    (found : wf.workflowManager.getStartNodeName = some y) :
    Returns (start env wf) s fun _ t => Calms env wf
      ([y], { s with status := .running, trace := s.trace ++ [.assigned .running] }) ([], t) := by
  obtain ⟨node, exists_, type⟩ := LiteWorkflowManager.getNode_start found
  have passing : node.type.isFinalType = false := by rw [type]; rfl
  refine Returns.bind (Q := fun a t => s = a ∧ s = t) (Returns.getting ⟨rfl, rfl⟩) ?_
  rintro _ _ ⟨rfl, rfl⟩
  simp only [prep, ne_eq, not_true_eq_false, if_false, found]
  refine Returns.bind (Returns.modifying (Q := fun _ t => t = _) rfl) fun _ t same => ?_
  subst same
  exact signal_calm steady env.stackDepth (steady.room y node exists_ passing) exists_ passing sound

/-- The successors a report names are dealt with. -/
theorem follows_calm (targets : List (Option String)) : Follows env wf (signal env wf env.stackDepth) targets := by
  intro u rest sound
  refine processAll_calm steady sound targets fun next node v more _ reached onward safe => ?_
  exact signal_calm steady env.stackDepth (steady.room next node reached onward) reached onward safe

theorem completeJobPlanNode_calm {context : NodeContext} {row : XjobState} {state : JobPlanNodeState}
    (sound : s.store.Sound) (found : wf.getNode y = some node) (type : node.type = .action)
    (reported : Reported s context row state) :
    Returns (completeJobPlanNode env wf y context) s fun _ t => ∃ x u v, Written row state x ∧
      Upto (s.written y x) u ∧ Answered env wf node row state u v ∧ t = v.closed wf := by
  obtain ⟨progress, given, same, value⟩ := reported.progress
  have named : context.xjobStateID = row.id := by simp [NodeContext.xjobStateID, given, same]
  let s₁ : Run := { s with trace := s.trace ++ [.completing y row.id] }
  -- the row of the report is written back before the exit says how the node is left
  obtain ⟨x, u, written, here, left⟩ := @actionExit_cases env wf steady.dao s₁ s₁ (.refl s₁) node context row state
    ⟨reported.progress, reported.result, reported.real, reported.found⟩
  have here : Upto (s.written y x) u := by simpa only [Run.written, written.id] using here
  have name := Workflow.getNode_name found
  refine Returns.bind (Q := fun _ t => t = s₁) (Returns.modifying (by rw [named])) fun _ t same => ?_
  subst same
  refine Returns.bind (Q := fun _ v => Answered env wf node row state u v) ?_ fun _ v answered => ?_
  · simp only [found, createNodeHandler, pure_bind, NodeHandler.multiExit, type, bind_assoc]
    -- the last attempt leaves the node, an earlier one leaves it by an exception that is swallowed
    rcases left with ⟨last, exits⟩ | ⟨again, throws⟩
    · refine Returns.catching (Returns.bind (Q := fun target t => target = node.answer state ∧ u = t)
        ⟨_, _, exits, rfl, rfl⟩ ?_)
      rintro _ _ ⟨rfl, rfl⟩
      -- another report may have ended the workflow: then nothing is entered
      cases ended : u.status.isEndState with
      | true =>
        refine ⟨(), u, ?_, .late ended⟩
        simp only [processNextNodes, bind_apply, get_apply, ended, if_true, pure_apply]
      | false =>
        have safe : u.store.Sound := by
          obtain ⟨n, later, rfl⟩ := here
          exact ⟨(sound.update x).distinct, (sound.update x).known⟩
        refine (processNextNodes_live [] safe ended (follows_calm steady _)).conseq fun _ t calms => .goes last ended ?_
        simpa only [List.reduceOption_singleton, List.append_nil, named, name] using calms
    · refine Returns.caught (bind_error throws) rfl (Returns.modifying (.retries again))
  -- the plan is written back only if the workflow has ended
  · refine Returns.bind (Q := fun a t => v = a ∧ v = t) (Returns.getting ⟨rfl, rfl⟩) ?_
    rintro _ _ ⟨rfl, rfl⟩
    cases ended : v.status.isEndState with
    | true => exact ⟨(), _, rfl, x, u, v, written, here, answered, by simp only [Run.closed, ended, if_true]⟩
    | false =>
      simp only [Bool.false_eq_true, if_false]
      exact Returns.pure ⟨x, u, v, written, here, answered, by
        simp only [Run.closed, ended, Bool.false_eq_true, if_false]⟩

end Refinement

/-! ### Calm steps as moves -/

section Moves

variable {env : Env} {wf : Workflow} {allowed : List Act → String → NodeContext → Prop} {s t : Run}
  {y : String} {node : JobPlanNode}

/-- The nodes still to be entered, as duties. -/
def Run.entering (s : Run) (names : List String) : Agenda := s.agenda (names.map .enter)

variable (env allowed) in
theorem Run.enters (s : Run) (rest : List String) (found : wf.getNode y = some node)
    (live : node.type.isFinalType = false → s.status = .running) :
    Moves env wf allowed (s.entering (y :: rest))
      (Run.agenda { s with trace := s.trace ++ [.entered y] } (.inside y :: rest.map .enter)) :=
  .single (.enters found live)

theorem Notified.moves {id : Nat} (rest : List Due) (notified : Notified env wf node id s t)
    (found : wf.getNode y = some node) (type : node.type = .end_ ∨ node.type = .fail) :
    Moves env wf allowed (s.agenda (.inside y :: rest)) (t.agenda (.inside y :: rest)) := by
  cases notified with
  | silent => exact .refl
  | sent event k later named =>
    rw [Workflow.getNode_name found]
    exact .single (.dispatchesLast found type id event)

/-- Calm steps are sequences of moves. -/
theorem Calm.moves {names names' : List String} (calm : Calm env wf names s names' t) :
    Moves env wf allowed (s.entering names) (t.entering names') := by
  -- each of these steps of the source is a short run of the moves it is made of
  cases calm with
  | absent missing => exact .single (.absent missing)
  | skips found passing stopped => exact .single (.skips stopped)
  | @begins y rest _ node row date n found type running newest =>
    have live : s.status.isEndState = false := by rw [running]; rfl
    have begun := ((s.enters env allowed rest found fun _ => running).tail (.saves row.id)).tail (.begins found type)
    have passed := begun.tail (.passes live row.id)
    rwa [← List.map_append, List.reduceOption_singleton] at passed
  | @acts y rest _ node row event k n found type newest =>
    have entered := s.enters env allowed names' found (by simp [type, JobPlanNodeType.isFinalType])
    exact (entered.tail (.saves row.id)).tail (.dispatches found type row.id event)
  | @forks y rest _ node toNode found type running paths =>
    have live : s.status.isEndState = false := by rw [running]; rfl
    have all : split toNode = ((split toNode).map some).reduceOption := by simp [List.reduceOption]
    have forked := (s.enters env allowed rest found fun _ => running).tail (.forks found type paths)
    have passed := forked.tail (.passes live 0)
    rwa [← List.map_append, ← all] at passed
  | @arrives y rest _ node text left found type running value number positive =>
    have peeked := (s.enters env allowed names' found fun _ => running).tail (.peeks found type)
    exact peeked.tail (.arrives found type value number positive)
  | @releases y rest _ node text found type running value number =>
    have live : s.status.isEndState = false := by rw [running]; rfl
    have peeked := (s.enters env allowed rest found fun _ => running).tail (.peeks found type)
    have released := peeked.tail (.releases found type value number live 0)
    rwa [← List.map_append, List.reduceOption_singleton] at released
  | @underflows y rest _ node text number found type running value parsed low =>
    have peeked := (s.enters env allowed names' found fun _ => running).tail (.peeks found type)
    exact peeked.tail (.underflows found type value parsed low)
  | @faults y rest _ node found type running value =>
    have peeked := (s.enters env allowed names' found fun _ => running).tail (.peeks found type)
    exact peeked.tail (.fails (List.suffix_cons _ _))
  | @ends y rest _ u node row date n found type notified newest =>
    have entered := s.enters env allowed names' found (by simp [type, JobPlanNodeType.isFinalType])
    have notifies := entered.trans (notified.moves (names'.map .enter) found (.inl type))
    exact (notifies.tail (.saves row.id)).tail (.succeeds found type)
  | @gives y rest _ u node row g date n found type notified newest =>
    have entered := s.enters env allowed names' found (by simp [type, JobPlanNodeType.isFinalType])
    have notifies := (entered.tail (.saves row.id)).trans (notified.moves (names'.map .enter) found (.inr type))
    exact notifies.tail (.givesUp found type)

end Moves
end Hella

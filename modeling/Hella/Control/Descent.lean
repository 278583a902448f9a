import Hella.Control.CalmSteps
import Hella.Lib.Depth

/-!
# The descent

How deep the calls of `signal` nest is decided by the plan and the fork counters
alone. `Leaves` is a start, fork or join node that names its successors, `Through` a
list of successors that is dealt with and leaves the instance running, and `Onward`
the nesting itself: one node leads to a successor once those before it are through.
A plan is `Grounded` if no such chain goes on without end. Then every call ends,
whatever the database answers.
-/
namespace Hella

open Exec Text

/-- The number of paths a join still waits for, as its handler reads it. -/
def JobPlanNode.awaited (node : JobPlanNode) (vars : JMap String) : Option Int :=
  (vars.lookup (pairVar (orNull node.forkName) node.name)).bind parseInt

section Plan

variable (wf : Workflow)

/-- Control leaves a node for the successors. -/
inductive Leaves : String → JMap String → List (Option String) → JMap String → Prop where
  | start {name node vars} (found : wf.getNode name = some node) (type : node.type = .start) :
    Leaves name vars [node.toNode] vars
  | fork {name node vars toNode} (found : wf.getNode name = some node) (type : node.type = .fork)
    (paths : node.toNode = some toNode) :
    Leaves name vars ((split toNode).map some)
      (vars.insert (pairVar node.name (orNull node.joinName)) (toString (split toNode).length))
  | join {name node vars} (found : wf.getNode name = some node) (type : node.type = .join)
    (last : node.awaited vars = some 1) :
    Leaves name vars [node.toNode] (vars.erase (pairVar (orNull node.forkName) node.name))

/-- Control stays in a node without an error. -/
inductive Stays : String → JMap String → JMap String → Prop where
  /-- the row of the start node could not be saved -/
  | unsaved {name node vars} (found : wf.getNode name = some node) (type : node.type = .start) : Stays name vars vars
  | waits {name node vars} {left : Nat} (found : wf.getNode name = some node) (type : node.type = .join)
    (more : node.awaited vars = some ((left + 1 : Nat) : Int)) (positive : 0 < left) :
    Stays name vars (vars.insert (pairVar (orNull node.forkName) node.name) (toString left))
  | spent {name node vars} {number : Int} (found : wf.getNode name = some node) (type : node.type = .join)
    (low : node.awaited vars = some number) (negative : number ≤ 0) : Stays name vars vars

/-- The successors are dealt with in order and the instance is still running. -/
inductive Through : List (Option String) → JMap String → JMap String → Prop where
  | done {vars} : Through [] vars vars
  | unknown {next rest vars vars'} (missing : next.bind wf.getNode = none) (others : Through rest vars vars') :
    Through (next :: rest) vars vars'
  | acts {name node rest vars vars'} (found : wf.getNode name = some node) (type : node.type = .action)
    (job : node.xjobMeta.isSome = true) (others : Through rest vars vars') : Through (some name :: rest) vars vars'
  | stays {name rest vars vars' vars''} (stays : Stays wf name vars vars') (others : Through rest vars' vars'') :
    Through (some name :: rest) vars vars''
  | leaves {name targets rest vars left vars' vars''} (leaves : Leaves wf name vars targets left)
    (inner : Through targets left vars') (others : Through rest vars' vars'') : Through (some name :: rest) vars vars''

/-- With these counters a node leads on to a successor, reached with those counters. -/
def Onward (here next : String × JMap String) : Prop :=
  ∃ targets left before after, Leaves wf here.1 here.2 targets left ∧ targets = before ++ some next.1 :: after ∧
    Through wf before left next.2

/-- No chain of nodes goes onward without end. -/
def Grounded : Prop := WellFounded fun next here => Onward wf here next

end Plan

section Descent

variable {env : Env} {wf : Workflow} {name : String} {node : JobPlanNode} {vars vars' vars'' : JMap String}

theorem Through.append {names rest : List (Option String)} (first : Through wf names vars vars')
    (then_ : Through wf rest vars' vars'') : Through wf (names ++ rest) vars vars'' := by
  induction first with
  | done => exact then_
  | unknown missing _ ih => exact .unknown missing (ih then_)
  | acts found type job _ ih => exact .acts found type job (ih then_)
  | stays stays _ ih => exact .stays stays (ih then_)
  | leaves leaves inner _ _ ih => exact .leaves leaves inner (ih then_)

theorem Leaves.passing {targets : List (Option String)} (leaves : Leaves wf name vars targets vars') :
    ∃ node, wf.getNode name = some node ∧ node.type.isFinalType = false := by
  cases leaves with
  | start found type | fork found type | join found type => exact ⟨_, found, by rw [type]; rfl⟩

theorem Stays.passing (stays : Stays wf name vars vars') :
    ∃ node, wf.getNode name = some node ∧ node.type.isFinalType = false := by
  cases stays with
  | unsaved found type | waits found type | spent found type => exact ⟨_, found, by rw [type]; rfl⟩

/-! ### One node -/

/-- The other instance has the same status and variables. -/
def Run.Alike (s t : Run) : Prop := t.status = s.status ∧ t.vars = s.vars

theorem Run.alike_saves (s : Run) : Saves s.Alike where
  storeFree := fun _ _ alike => alike
  added := fun _ _ alike => alike

theorem Run.alike_neutral (s : Run) : Neutral s.Alike name where
  toSaves := s.alike_saves
  dispatched := fun _ _ _ alike => alike

/-- What is kept is kept, and only exceptions are thrown. -/
theorem guarded_of {α : Type} {I : Run → Prop} {x : RunM α} (keeps : Keeps I x) (tidy : ∀ s₀, Tidy env s₀ x) :
    Guarded I (·.isException = true) x := by
  intro s holds
  have kept := keeps s holds
  have wrote := tidy s.store s .refl
  cases result : x s <;> simp only [result] at kept wrote ⊢
  · exact kept
  · exact ⟨kept, wrote.2⟩

theorem processNextNodes_going (signals : String → NodeContext → RunM Unit) {targets : List (Option String)} (id : Nat)
    {s : Run} (running : s.status = .running) :
    processNextNodes env wf signals name id (some targets) s =
      targets.forM (processNextNode env wf signals) { s with trace := s.trace ++ [.passed name id targets] } := by
  have live : s.status.isEndState = false := by
    rw [running]
    rfl
  simp only [processNextNodes, bind_apply, get_apply, live, Bool.false_eq_true, if_false, record, modify_apply]

variable (env wf name node) in
/-- What `signal` does with a node before it calls itself. -/
inductive Visits (s : Run) : Prop where
  | throws (e : Throwable) (t : Run) (exception : e.isException = true)
    (ends : ∀ signals, visit env wf signals name node s = .error e t)
  | stays (t : Run) (stays : Stays wf name s.vars t.vars) (running : t.status = .running)
    (ends : ∀ signals, visit env wf signals name node s = .ok () t)
  | leaves (targets : List (Option String)) (t : Run) (leaves : Leaves wf name s.vars targets t.vars)
    (running : t.status = .running)
    (goes : ∀ signals, visit env wf signals name node s = targets.forM (processNextNode env wf signals) t)

variable {s : Run}

theorem startEnter_cases (env : Env) (wf : Workflow) (s : Run) (type : node.type = .start) :
    (∃ e t, e.isException = true ∧ NodeHandler.enter env wf { jobPlanNode := node } {} s = .error e t) ∨
      ∃ exiting context t, s.Alike t ∧
        NodeHandler.enter env wf { jobPlanNode := node } {} s = .ok (exiting, { jobPlanNode := node }, context) t := by
  have enters : NodeHandler.enter env wf { jobPlanNode := node } {} s =
      (StartNodeHandler.enter env wf node {} >>= fun result => pure (result.1, { jobPlanNode := node }, result.2))
        { s with trace := s.trace ++ [.entered node.name] } := by
    simp only [NodeHandler.enter, type]
    rfl
  have result := guarded_of (s.alike_saves.startEnter env wf node {}) (fun _ => wrote_startEnter node {})
    { s with trace := s.trace ++ [.entered node.name] } ⟨rfl, rfl⟩
  rw [enters]
  split at result
  next entered t returned => exact .inr ⟨entered.1, entered.2, t, result, bind_ok returned⟩
  next e t thrown => exact .inl ⟨e, t, result.2, bind_error thrown⟩

theorem startExit_cases (env : Env) (wf : Workflow) (s : Run) (context : NodeContext) (type : node.type = .start) :
    (∃ e t, e.isException = true ∧ NodeHandler.multiExit env wf { jobPlanNode := node } context s = .error e t) ∨
      ∃ t, s.Alike t ∧
        NodeHandler.multiExit env wf { jobPlanNode := node } context s = .ok (some [node.toNode]) t := by
  have exits : NodeHandler.multiExit env wf { jobPlanNode := node } context s =
      (StartNodeHandler.exit env wf node context >>= fun target => pure (some [target])) s := by
    simp only [NodeHandler.multiExit, type]
  have result := guarded_of (s.alike_saves.storeFree.startExit env wf node context)
    (fun _ => wrote_startExit node context) s ⟨rfl, rfl⟩
  have value := startExit_value env wf node context s trivial
  rw [exits]
  split at result
  next target t returned =>
    simp only [returned] at value
    subst value
    exact .inr ⟨t, result, bind_ok returned⟩
  next e t thrown => exact .inl ⟨e, t, result.2, bind_error thrown⟩

theorem start_visits (found : wf.getNode name = some node) (type : node.type = .start) (running : s.status = .running) :
    Visits env wf name node s := by
  rcases startEnter_cases env wf s type with ⟨e, t, exception, thrown⟩ | ⟨exiting, context, t, entered, returned⟩
  · exact .throws e t exception fun _ => bind_error thrown
  · cases exiting with
    | false => exact .stays t (entered.2 ▸ .unsaved found type) (entered.1.trans running) fun _ => bind_ok returned
    | true =>
      rcases startExit_cases env wf t context type with ⟨e, u, exception, thrown⟩ | ⟨u, left, returned'⟩
      · exact .throws e u exception fun _ => (bind_ok returned).trans (bind_error thrown)
      · have going : u.status = .running := left.1.trans (entered.1.trans running)
        have same : u.vars = s.vars := left.2.trans entered.2
        have leaves : Leaves wf name s.vars [node.toNode] u.vars := same ▸ .start found type
        refine .leaves [node.toNode] { u with trace := u.trace ++ [.passed name context.xjobStateID [node.toNode]] }
          leaves
          going fun signals => ?_
        exact (bind_ok returned).trans ((bind_ok returned').trans (processNextNodes_going signals _ going))

theorem enter_fork (env : Env) (wf : Workflow) (s : Run) (type : node.type = .fork) :
    NodeHandler.enter env wf { jobPlanNode := node } {} s =
      .ok (true, { jobPlanNode := node }, {}) { s with trace := s.trace ++ [.entered node.name] } := by
  simp only [NodeHandler.enter, type]
  rfl

theorem enter_join (env : Env) (wf : Workflow) (s : Run) (type : node.type = .join) :
    NodeHandler.enter env wf { jobPlanNode := node } {} s =
      (JoinNodeHandler.enter node >>= fun exiting => pure (exiting, { jobPlanNode := node }, {}))
        { s with trace := s.trace ++ [.entered node.name] } := by
  simp only [NodeHandler.enter, type]
  rfl

theorem multiExit_fork (env : Env) (wf : Workflow) (s : Run) (context : NodeContext) {toNode : String}
    (type : node.type = .fork) (paths : node.toNode = some toNode) :
    NodeHandler.multiExit env wf { jobPlanNode := node } context s = .ok (some ((split toNode).map some)) { s with
      vars := s.vars.insert (pairVar node.name (orNull node.joinName)) (toString (split toNode).length)
      trace := s.trace ++ [.forked node.name (orNull node.joinName) (split toNode).length] } := by
  simp only [NodeHandler.multiExit, type, ForkNodeHandler.multiExit, paths]
  rfl

theorem multiExit_join (env : Env) (wf : Workflow) (s : Run) (context : NodeContext) (type : node.type = .join) :
    NodeHandler.multiExit env wf { jobPlanNode := node } context s = .ok (some [node.toNode]) { s with
      vars := s.vars.erase (pairVar (orNull node.forkName) node.name)
      trace := s.trace ++ [.released (orNull node.forkName) node.name] } := by
  simp only [NodeHandler.multiExit, type, JoinNodeHandler.exit]
  rfl

theorem fork_visits (found : wf.getNode name = some node) (type : node.type = .fork) (running : s.status = .running) :
    Visits env wf name node s := by
  have entered := enter_fork env wf s type
  cases paths : node.toNode with
  | none =>
    refine .throws .nullPointerException { s with trace := s.trace ++ [.entered node.name] } rfl fun signals => ?_
    refine (bind_ok entered).trans (bind_error ?_)
    simp only [NodeHandler.multiExit, type, ForkNodeHandler.multiExit, paths]
    rfl
  | some toNode =>
    let t : Run := { s with
      vars := s.vars.insert (pairVar node.name (orNull node.joinName)) (toString (split toNode).length)
      trace := s.trace ++ [.entered node.name] ++ [.forked node.name (orNull node.joinName) (split toNode).length] }
    have left := multiExit_fork env wf { s with trace := s.trace ++ [.entered node.name] } {} type paths
    refine .leaves _ { t with trace := t.trace ++ [.passed name 0 ((split toNode).map some)] }
      (.fork found type paths) running fun signals => ?_
    exact (bind_ok entered).trans ((bind_ok left).trans (processNextNodes_going signals _ running))

/-- What a join does is decided by the number of paths it waits for. -/
theorem joinEnter_awaited {number : Int} (awaited : node.awaited s.vars = some number) :
    let read := { s with trace := s.trace ++ [.peeked (orNull node.forkName) node.name] }
    (number ≤ 0 ∧ JoinNodeHandler.enter node s = .ok false read) ∨
      (number = 1 ∧ JoinNodeHandler.enter node s = .ok true read) ∨
      ∃ left : Nat, number = ((left + 1 : Nat) : Int) ∧ 0 < left ∧ JoinNodeHandler.enter node s = .ok false { s with
        vars := s.vars.insert (pairVar (orNull node.forkName) node.name) (toString left)
        trace := read.trace ++ [.arrived (orNull node.forkName) node.name left] } := by
  rcases joinEnter_cases s rfl with ⟨none_, -⟩ | ⟨text, number', value, parsed, branches⟩
  · cases awaited.symm.trans none_
  · have same : number = number' := by
      rw [JobPlanNode.awaited, value, Option.bind_some, parsed] at awaited
      exact (Option.some.inj awaited).symm
    subst same
    exact branches

theorem join_visits (found : wf.getNode name = some node) (type : node.type = .join) (running : s.status = .running) :
    Visits env wf name node s := by
  let s₁ : Run := { s with trace := s.trace ++ [.entered node.name] }
  have entering := enter_join env wf s type
  -- the counter decides: none, spent, the last one, or more to come
  cases awaited : node.awaited s.vars with
  | none =>
    rcases joinEnter_cases s₁ rfl with ⟨-, e, exception, thrown⟩ | ⟨text, number, value, parsed, -⟩
    · exact .throws e _ exception fun signals => bind_error (entering.trans (bind_error thrown))
    · rw [JobPlanNode.awaited, show s.vars.lookup _ = some text from value, Option.bind_some, parsed] at awaited
      cases awaited
  | some number =>
    let read : Run := { s₁ with trace := s₁.trace ++ [.peeked (orNull node.forkName) node.name] }
    rcases @joinEnter_awaited node s₁ number awaited with ⟨low, returned⟩ | ⟨rfl, returned⟩ |
      ⟨left, rfl, positive, returned⟩
    · refine .stays read (.spent found type awaited low) running fun signals => ?_
      exact (bind_ok (entering.trans (bind_ok returned))).trans rfl
    -- the last path through releases the join and goes on to the node after it
    · let freed : Run := { read with
        vars := s.vars.erase (pairVar (orNull node.forkName) node.name)
        trace := read.trace ++ [.released (orNull node.forkName) node.name] }
      refine .leaves [node.toNode] { freed with trace := freed.trace ++ [.passed name 0 [node.toNode]] }
        (.join found type awaited) running fun signals => ?_
      refine (bind_ok (entering.trans (bind_ok returned))).trans ?_
      exact (bind_ok (multiExit_join env wf read {} type)).trans (processNextNodes_going signals 0 running)
    -- an earlier path only counts down
    · let counted : Run := { s₁ with
        vars := s.vars.insert (pairVar (orNull node.forkName) node.name) (toString left)
        trace := read.trace ++ [.arrived (orNull node.forkName) node.name left] }
      refine .stays counted (.waits found type awaited positive) running fun signals => ?_
      exact (bind_ok (entering.trans (bind_ok returned))).trans rfl

/-- A node `signal` is called for fails, keeps control, or hands it to its successors. -/
theorem visit_cases (found : wf.getNode name = some node) (passing : node.type.isFinalType = false)
    (running : s.status = .running) : Visits env wf name node s := by
  cases type : node.type with
  | start => exact start_visits found type running
  | fork => exact fork_visits found type running
  | join => exact join_visits found type running
  | action => simp [type, JobPlanNodeType.isFinalType] at passing
  | fail => simp [type, JobPlanNodeType.isFinalType] at passing
  | end_ => simp [type, JobPlanNodeType.isFinalType] at passing

/-! ### Calls of `signal` -/

theorem signal_stopped (depth : Nat) (context : NodeContext) (stopped : s.status ≠ .running) :
    signal env wf (depth + 1) name context s = .ok () s := by
  simp [signal, bind_apply, stopped]

theorem signal_visits (depth : Nat) (found : wf.getNode name = some node) (running : s.status = .running) :
    signal env wf (depth + 1) name {} s = failing (visit env wf (signal env wf depth) name node) s := by
  simp [signal, bind_apply, running, found, createNodeHandler]
  rfl

/-- A run that goes on was not caught. -/
theorem failing_going {body : RunM Unit} {t : Run} (returned : failing body s = .ok () t)
    (going : t.status = .running) : body s = .ok () t := by
  rcases catching_returns returned with inside | ⟨e, u, -, -, handled⟩
  · exact inside
  · cases handled
    cases going

theorem executeXJob_job {id : Nat} {args : Option String} :
    Triple (fun _ => True) (executeXJob env wf node id args) (fun _ _ => node.xjobMeta.isSome = true)
      (fun _ _ => True) := by
  intro s _
  cases job : node.xjobMeta with
  | some xjobMeta => split <;> trivial
  | none =>
    have thrown : executeXJob env wf node id args s =
        .error .nullPointerException { s with store := { s.store with tick := s.store.tick + 1 } } := by
      simp only [executeXJob, bind_apply, onStore_apply, Store.executeXJob, job]
      rfl
    rw [thrown]
    trivial

theorem actionEnter_job : Triple (fun _ => True) (ActionNodeHandler.enter env wf node)
    (fun _ _ => node.xjobMeta.isSome = true) (fun _ _ => True) := by
  apply Triple.bind Triple.trivial
  intro date
  apply Triple.bind Triple.trivial
  intro row
  apply executeXJob_job.bind
  intro _
  apply Triple.bind (Q := fun _ _ => node.xjobMeta.isSome = true)
  · have kept {x : RunM Unit} : Keeps (fun _ => node.xjobMeta.isSome = true) x := Keeps.of_after fun _ job => job
    exact kept.conseq (fun _ job => job) (fun _ _ job => job) fun _ _ _ => trivial
  · exact fun _ => Triple.pure fun _ job => job

theorem setStatus_last {α : Type} {x : RunM α} (status : WorkflowStatus) :
    Triple (fun _ => True) (x >>= fun _ => setStatus status) (fun _ t => t.status = status) (fun _ _ => True) :=
  Triple.bind Triple.trivial fun _ => Triple.modifying fun _ _ => rfl

/-- An action leaves status and variables alone; an end or fail node ends the run. -/
theorem final_going {signals : String → NodeContext → RunM Unit} (found : wf.getNode name = some node)
    (final : node.type.isFinalType = true) :
    Triple s.Alike (processNextNode env wf signals (some name))
      (fun _ t => t.status = .running → node.type = .action ∧ node.xjobMeta.isSome = true ∧ s.Alike t)
      (fun _ _ => True) := by
  simp only [processNextNode, Option.bind_some, found, final, Bool.not_true, Bool.false_eq_true, if_false,
    createNodeHandler, pure_bind]
  -- the status set last is no running one
  have ended {x : RunM Unit} {status : WorkflowStatus} (other : status ≠ .running)
      (sets : Triple (fun _ => True) x (fun _ t => t.status = status) (fun _ _ => True)) :
      Triple (fun _ => True) x (fun _ t => t.status = .running → node.type = .action ∧ node.xjobMeta.isSome = true ∧
        s.Alike t) (fun _ _ => True) :=
    sets.conseq (fun _ _ => trivial) (fun _ t same going => absurd (same.symm.trans going) other) fun _ _ _ => trivial
  by_cases action : node.type = .action
  · have enters := (s.alike_neutral.actionEnter env wf).and (@actionEnter_job env wf node)
    apply Triple.bind (Q := fun _ t => node.xjobMeta.isSome = true ∧ s.Alike t)
    · simp only [NodeHandler.enter, action]
      apply Triple.bind (Q := fun _ => s.Alike)
      · exact Triple.modifying fun _ alike => alike
      · intro _
        apply Triple.bind (enters.conseq (fun _ alike => ⟨alike, trivial⟩) (fun _ _ post => post) fun _ _ _ => trivial)
        exact fun _ => Triple.pure fun _ post => ⟨post.2, post.1⟩
    · intro _
      simp only [action, reduceCtorEq, if_false]
      exact Triple.pure fun _ post _ => ⟨trivial, post⟩
  · apply Triple.bind (Q := fun _ _ => True)
    · exact Triple.trivial.conseq (fun _ _ => trivial) (fun _ _ post => post) fun _ _ post => post
    · intro _
      by_cases last : node.type = .end_
      · rw [if_pos last]
        exact ended (by simp) (setStatus_last .succeeded)
      · have fail : node.type = .fail := by
          cases type : node.type <;> simp_all [JobPlanNodeType.isFinalType]
        rw [if_neg last, if_pos fail]
        exact ended (by simp) (setStatus_last .failed)

/-! ### What has been gone through -/

section Loop

variable {signals : String → NodeContext → RunM Unit} {next : Option String} {t : Run}

theorem processNextNode_unknown (missing : next.bind wf.getNode = none) :
    processNextNode env wf signals next s = .ok () s := by
  simp [processNextNode, missing]

/-- The cases of a successor, as `processNextNode` tells them apart. -/
theorem next_cases (wf : Workflow) (next : Option String) :
    next.bind wf.getNode = none ∨ ∃ name node, next = some name ∧ wf.getNode name = some node := by
  cases found : next.bind wf.getNode with
  | none => exact .inl rfl
  | some node =>
    obtain ⟨name, rfl, found⟩ := Option.bind_eq_some_iff.mp found
    exact .inr ⟨name, node, rfl, found⟩

/-- A loop that ends with the instance running has gone through its successors, if
the calls of `signal` in it have. -/
theorem through_loop (inner : ∀ name node s t, wf.getNode name = some node → node.type.isFinalType = false →
      signals name {} s = .ok () t → t.status = .running → s.status = .running ∧ Through wf [some name] s.vars t.vars)
    (targets : List (Option String)) (returned : targets.forM (processNextNode env wf signals) s = .ok () t)
    (going : t.status = .running) : s.status = .running ∧ Through wf targets s.vars t.vars := by
  induction targets generalizing s with
  | nil =>
    cases returned
    exact ⟨going, .done⟩
  | cons next rest ih =>
    obtain ⟨⟨⟩, u, first, others⟩ := bind_returns returned
    obtain ⟨running, through⟩ := ih others
    rcases next_cases wf next with missing | ⟨name, node, rfl, found⟩
    · rw [processNextNode_unknown missing] at first
      cases first
      exact ⟨running, .unknown missing through⟩
    · cases final : node.type.isFinalType with
      | false =>
        rw [processNextNode_passing found final] at first
        obtain ⟨before, head⟩ := inner name node s u found final first running
        exact ⟨before, head.append through⟩
      | true =>
        obtain ⟨action, job, alike⟩ := (final_going found final).ok ⟨rfl, rfl⟩ first running
        exact ⟨alike.1.symm.trans running, .acts found action job (alike.2 ▸ through)⟩

theorem through_signal (depth : Nat) (found : wf.getNode name = some node) (passing : node.type.isFinalType = false)
    (returned : signal env wf depth name {} s = .ok () t) (going : t.status = .running) :
    s.status = .running ∧ Through wf [some name] s.vars t.vars := by
  induction depth generalizing name node s t with
  | zero => cases returned
  | succ depth ih =>
    by_cases running : s.status = .running
    · rw [signal_visits depth found running] at returned
      have inside := failing_going returned going
      cases @visit_cases env wf name node s found passing running with
      | throws e u _ ends =>
        rw [ends] at inside
        cases inside
      | stays u stays _ ends =>
        rw [ends] at inside
        cases inside
        exact ⟨running, .stays stays .done⟩
      | leaves targets u leaves _ goes =>
        rw [goes] at inside
        obtain ⟨-, through⟩ := through_loop (fun _ _ _ _ found passing => ih found passing) targets inside going
        exact ⟨running, .leaves leaves through .done⟩
    · rw [signal_stopped depth {} running] at returned
      cases returned
      exact absurd going running

end Loop

/-! ### Deeper calls -/

theorem processNextNode_deeper {shallow deep : String → NodeContext → RunM Unit}
    (deeper : ∀ name context, Approximates Throwable.isException (shallow name context) (deep name context))
    (next : Option String) : Approximates Throwable.isException (processNextNode env wf shallow next)
      (processNextNode env wf deep next) := by
  unfold processNextNode
  split
  · exact .refl _
  · dsimp only
    split
    · exact deeper _ _
    · exact .refl _

theorem processNextNodes_deeper {shallow deep : String → NodeContext → RunM Unit}
    (deeper : ∀ name context, Approximates Throwable.isException (shallow name context) (deep name context))
    (node : String) (id : Nat) (exits : Option (List (Option String))) :
    Approximates Throwable.isException (processNextNodes env wf shallow node id exits)
      (processNextNodes env wf deep node id exits) := by
  apply Approximates.bind (.refl _)
  intro s
  split
  · exact .refl _
  · cases exits with
    | none => exact .refl _
    | some targets => exact .bind (.refl _) fun _ => .forM (processNextNode_deeper deeper) targets

theorem signal_deeper {m n : Nat} (more : m ≤ n) (name : String) (context : NodeContext) :
    Approximates Throwable.isException (signal env wf m name context) (signal env wf n name context) := by
  induction m generalizing n name context with
  | zero => exact fun s => .inl ⟨.stackOverflowError, s, rfl, rfl⟩
  | succ m ih =>
    obtain ⟨k, rfl⟩ : ∃ k, n = k + 1 := ⟨n - 1, by omega⟩
    apply Approximates.bind (.refl _)
    intro s
    split
    · exact .refl _
    · apply Approximates.catching
      apply Approximates.bind (.refl _)
      intro handler
      apply Approximates.bind (.refl _)
      rintro ⟨exiting, handler, left⟩
      dsimp only
      split
      · apply Approximates.bind (.refl _)
        exact fun exits => processNextNodes_deeper (ih (by omega)) _ _ exits
      · exact .refl _

/-! ### Every call ends -/

theorem failing_proper {body : RunM Unit} (proper : ¬ Escapes Throwable.isException body s) :
    ¬ Escapes Throwable.isException (failing body) s :=
  fun escapes => proper (escapes.of_catching fun _ _ _ => by
    rintro ⟨e, t, thrown, -⟩
    cases thrown)

theorem final_proper {signals : String → NodeContext → RunM Unit} (found : wf.getNode name = some node)
    (final : node.type.isFinalType = true) : ¬ Escapes Throwable.isException
      (processNextNode env wf signals (some name)) s := by
  rintro ⟨e, t, thrown, outside⟩
  have tidy : Tidy env s.store (processNextNode env wf signals (some name)) := by
    apply wrote_processNextNode fun _ exception => exception
    intro other same passing
    obtain rfl := Option.some.inj (found.symm.trans same)
    simp [final] at passing
  have exception := (tidy.error .refl thrown).2
  simp [outside] at exception

/-- A loop ends if the calls of `signal` it comes to end. -/
theorem loop_proper {left : JMap String} (before rest : List (Option String))
    (inner : ∀ done name after t, before ++ rest = done ++ some name :: after → Through wf done left t.vars →
      t.status = .running → (∃ node, wf.getNode name = some node ∧ node.type.isFinalType = false) →
      ∃ depth, ¬ Escapes Throwable.isException (signal env wf depth name {}) t)
    (through : s.status = .running → Through wf before left s.vars) :
    ∃ depth, ¬ Escapes Throwable.isException (rest.forM (processNextNode env wf (signal env wf depth))) s := by
  induction rest generalizing before s with
  | nil => exact ⟨0, Escapes.pure⟩
  | cons next rest ih =>
    have turn : ∃ depth, ¬ Escapes Throwable.isException (processNextNode env wf (signal env wf depth) next) s := by
      rcases next_cases wf next with missing | ⟨name, node, rfl, found⟩
      · refine ⟨0, ?_⟩
        rintro ⟨e, t, thrown, -⟩
        rw [processNextNode_unknown missing] at thrown
        cases thrown
      · cases final : node.type.isFinalType with
        | true => exact ⟨0, final_proper found final⟩
        | false =>
          have same (depth : Nat) : processNextNode env wf (signal env wf depth) (some name) s =
            signal env wf depth name {} s :=
            congrFun (processNextNode_passing found final) s
          by_cases running : s.status = .running
          · obtain ⟨depth, proper⟩ := inner before name rest s rfl (through running) running ⟨node, found, final⟩
            exact ⟨depth, by simpa only [Escapes, same] using proper⟩
          · refine ⟨1, ?_⟩
            rintro ⟨e, t, thrown, -⟩
            rw [same, signal_stopped 0 {} running] at thrown
            cases thrown
    obtain ⟨depth, proper⟩ := turn
    cases result : processNextNode env wf (signal env wf depth) next s with
    | error e t =>
      refine ⟨depth, fun escapes => ?_⟩
      rcases escapes.of_bind with first | ⟨⟨⟩, u, returned, -⟩
      · exact proper first
      · cases result.symm.trans returned
    | ok _ u =>
      -- the rest of the loop starts where the turn ended, whatever the depth is from now on
      have gone : u.status = .running → Through wf (before ++ [next]) left u.vars := by
        intro going
        have once : [next].forM (processNextNode env wf (signal env wf depth)) s = .ok () u := bind_ok result
        obtain ⟨running, head⟩ := through_loop (fun _ _ _ _ => through_signal depth) [next] once going
        exact (through running).append head
      obtain ⟨depth', proper'⟩ := ih (before ++ [next]) (by simpa using inner) gone
      have deeper {m n : Nat} (more : m ≤ n) (next : Option String) : Approximates Throwable.isException
          (processNextNode env wf (signal env wf m) next) (processNextNode env wf (signal env wf n) next) :=
        processNextNode_deeper (signal_deeper more) next
      refine ⟨max depth depth', fun escapes => ?_⟩
      rcases escapes.of_bind with first | ⟨⟨⟩, v, returned, rest_⟩
      · exact (deeper (le_max_left ..) next).proper proper first
      · rw [(deeper (le_max_left ..) next).eq proper, result] at returned
        cases returned
        exact (Approximates.forM (deeper (le_max_right ..)) rest).proper proper' rest_

/-- In a grounded plan every call of `signal` for a start, fork or join node ends. -/
theorem signal_proper (grounded : Grounded wf) (found : wf.getNode name = some node)
    (passing : node.type.isFinalType = false) :
    ∃ depth, ¬ Escapes Throwable.isException (signal env wf depth name {}) s := by
  obtain ⟨here, same⟩ : ∃ here : String × JMap String, here = (name, s.vars) := ⟨_, rfl⟩
  -- a grounded plan comes down with every node that passes on, so the induction is on node and variables
  induction here using grounded.induction generalizing name node s with
  | _ here ih =>
    subst same
    by_cases running : s.status = .running
    · have body : ∃ depth, ¬ Escapes Throwable.isException (visit env wf (signal env wf depth) name node) s := by
        cases @visit_cases env wf name node s found passing running with
        | throws e t exception ends =>
          refine ⟨0, ?_⟩
          rintro ⟨e', t', thrown, outside⟩
          rw [ends] at thrown
          cases thrown
          simp [exception] at outside
        | stays t _ _ ends =>
          refine ⟨0, ?_⟩
          rintro ⟨e', t', thrown, -⟩
          rw [ends] at thrown
          cases thrown
        | leaves targets t leaves going goes =>
          -- a path of the loop that passes on again is a step down
          have onward (done : List (Option String)) (next : String) (after : List (Option String)) (u : Run)
              (all : [] ++ targets = done ++ some next :: after) (through : Through wf done t.vars u.vars) :
              Onward wf (name, s.vars) (next, u.vars) := ⟨targets, t.vars, done, after, leaves, all, through⟩
          obtain ⟨depth, proper⟩ := @loop_proper env wf t t.vars [] targets
            (fun done next after u all through _ ⟨_, found', passing'⟩ =>
              ih (next, u.vars) (onward done next after u all through) found' passing' rfl) fun _ => .done
          exact ⟨depth, by simpa only [Escapes, goes] using proper⟩
      -- the signal needs one level more than its loop
      obtain ⟨depth, proper⟩ := body
      refine ⟨depth + 1, fun escapes => failing_proper proper ?_⟩
      simpa only [Escapes, signal_visits depth found running] using escapes
    · refine ⟨1, ?_⟩
      rintro ⟨e, t, thrown, -⟩
      rw [signal_stopped 0 {} running] at thrown
      cases thrown

end Descent

end Hella

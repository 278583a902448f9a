import Hella.Control.Agenda
import Hella.Control.Handlers

/-!
# The code refines the agenda machine

Every call of `start` and `completeJobPlanNode` is a sequence of moves. A call that
returns leaves an empty agenda; one that ends in a StackOverflowError leaves what
was still due.
-/
namespace Hella

open Exec Text

theorem Workflow.getNode_name {wf : Workflow} {name : String} {node : JobPlanNode}
    (found : wf.getNode name = some node) : node.name = name := by
  have := List.find?_some found
  simpa using this

theorem Workflow.getNode_mem {wf : Workflow} {name : String} {node : JobPlanNode}
    (found : wf.getNode name = some node) : node ∈ wf.jobExecutionPlan.jobPlanNodeList :=
  List.mem_of_find?_eq_some found

/-! ### What the exits return -/

theorem startExit_value (env : Env) (wf : Workflow) (node : JobPlanNode) (context : NodeContext) :
    Triple (fun _ => True) (StartNodeHandler.exit env wf node context)
      (fun target _ => target = node.toNode) (fun _ _ => True) := by
  refine Triple.bind Triple.trivial fun progress => Triple.bind Triple.trivial fun row => ?_
  refine Triple.bind Triple.trivial fun date => Triple.bind Triple.trivial fun _ => ?_
  exact Triple.pure fun _ _ => rfl

theorem failExit_value (env : Env) (wf : Workflow) (context : NodeContext) :
    Triple (fun _ => True) (FailNodeHandler.exit env wf context) (fun target _ => target = none)
      (fun _ _ => True) := by
  refine Triple.bind Triple.trivial fun progress => Triple.bind Triple.trivial fun row => ?_
  refine Triple.bind Triple.trivial fun date => Triple.bind Triple.trivial fun _ => ?_
  exact Triple.pure fun _ _ => rfl

/-- The handler of a report returns only if a result was reported, and then the
successor that belongs to it. -/
theorem actionExit_value (env : Env) (wf : Workflow) (node : JobPlanNode) (context : NodeContext) :
    Triple (fun _ => True) (ActionNodeHandler.exit env wf { jobPlanNode := node } context)
      (fun target _ => ∃ state, context.reported = some state ∧ state.isResultState = true ∧
        target = node.answer state) (fun _ _ => True) := by
  have given : Triple (fun _ => True) (checkJobProgress wf context)
      (fun progress _ => context.jobProgress = some progress) (fun _ _ => True) := by
    refine Triple.bind Triple.trivial fun _ => ?_
    -- the exit throws unless the context names a progress with a row and a result
    split
    next => exact Triple.throw fun _ _ => trivial
    next progress same =>
      split
      · exact Triple.throw fun _ _ => trivial
      · exact Triple.pure fun _ _ => same
  refine given.bind fun progress => Triple.of_imp ?_ fun _ same => same
  intro same
  split
  next => exact Triple.throw fun _ _ => trivial
  next state named =>
    have report : context.reported = some state := by simpa [NodeContext.reported, same] using named
    split
    · exact Triple.throw fun _ _ => trivial
    next result =>
      have result : state.isResultState = true := by simpa using result
      -- the row is written back in every case; only a retry throws after it
      refine Triple.bind Triple.trivial fun row => Triple.bind Triple.trivial fun _ => ?_
      split
      next success => exact Triple.pure fun _ _ => ⟨state, report, result, by rw [success]; rfl⟩
      next =>
        split
        next error =>
          -- a retry counts the row up and throws instead of answering
          split
          · exact Triple.bind (Q := fun _ _ => False) (Triple.throw fun _ _ => trivial)
              fun _ => Triple.of_false
          · exact Triple.pure fun _ _ => ⟨state, report, result, by rw [error]; rfl⟩
        next other =>
          exact Triple.pure fun _ _ => ⟨state, report, result, by cases state <;> simp_all [JobPlanNode.answer]⟩

section Refinement

variable {env : Env} {wf : Workflow} {allowed : List Act → String → NodeContext → Prop}
variable (env wf allowed)

/-- Moves lead from `a` to the instance with the given duties left. -/
def At (a : Agenda) (due : List Due) (s : Run) : Prop := Moves env wf allowed a (s.agenda due)

/-- Moves lead to the instance, with duties left beyond those of the callers. -/
def Lost (a : Agenda) (rest : List Due) (s : Run) : Prop := ∃ due, rest <:+ due ∧ At env wf allowed a due s

variable {env wf allowed} {a : Agenda} {due rest : List Due} {s t : Run}

theorem At.refl (s : Run) (due : List Due) : At env wf allowed (s.agenda due) due s :=
  Relation.ReflTransGen.refl

theorem At.move (here : At env wf allowed a due s) {due' : List Due}
    (move : Move env wf allowed (s.agenda due) (t.agenda due')) : At env wf allowed a due' t :=
  here.tail move

theorem At.lost (here : At env wf allowed a due s) (outer : rest <:+ due) : Lost env wf allowed a rest s :=
  ⟨due, outer, here⟩

theorem Lost.mono {rest' : List Due} (lost : Lost env wf allowed a rest s) (outer : rest' <:+ rest) :
    Lost env wf allowed a rest' s := by
  obtain ⟨due, suffix, here⟩ := lost
  exact ⟨due, outer.trans suffix, here⟩

theorem Lost.fails (lost : Lost env wf allowed a rest s) :
    At env wf allowed a rest { s with status := .failed, trace := s.trace ++ [.assigned .failed] } := by
  obtain ⟨due, outer, here⟩ := lost
  exact here.move (.fails outer)

variable (env wf allowed a) in
theorem At.saves (due : List Due) : Saves (At env wf allowed a due) where
  storeFree := fun _ _ here => here
  added := fun id _ here => here.move (.saves id)

/-- A condition kept until the end also holds where an exception leaves. -/
theorem keeps_lost {α : Type} {x : RunM α} (keeps : Keeps (At env wf allowed a due) x)
    (outer : rest <:+ due) :
    Triple (At env wf allowed a due) x (fun _ => At env wf allowed a due)
      (fun _ => Lost env wf allowed a rest) :=
  keeps.conseq (fun _ pre => pre) (fun _ _ post => post) fun _ _ post => post.lost outer

theorem failing_at {P : Run → Prop} {body : RunM Unit}
    (triple : Triple P body (fun _ => At env wf allowed a rest) (fun _ => Lost env wf allowed a rest)) :
    Triple P (failing body) (fun _ => At env wf allowed a rest) (fun _ => Lost env wf allowed a rest) :=
  triple.catching (fun _ _ => Triple.modifying fun _ lost => lost.fails) fun _ _ _ lost => lost

variable {name : String} {node : JobPlanNode}

/-! ### Entering -/

theorem enters_at (found : wf.getNode name = some node) :
    Triple (fun s => At env wf allowed a (.enter name :: rest) s ∧
        (node.type.isFinalType = false → s.status = .running))
      (record (.entered node.name))
      (fun _ s => At env wf allowed a (.inside name :: rest) s ∧
        (node.type.isFinalType = false → s.status = .running))
      (fun _ => Lost env wf allowed a rest) := by
  refine Triple.modifying fun s pre => ⟨?_, pre.2⟩
  rw [Workflow.getNode_name found]
  exact pre.1.move (.enters found pre.2)

theorem newDate_ok (s : Run) :
    onStore (Store.newDate env) s = .ok (env.now s.store.tick)
      { s with store := { s.store with tick := s.store.tick + 1 } } := rfl

/-- The start node is left at once unless its row could not be saved. -/
theorem startEnter_at (found : wf.getNode name = some node) (type : node.type = .start)
    (context : NodeContext) :
    Triple (At env wf allowed a (.inside name :: rest)) (StartNodeHandler.enter env wf node context)
      (fun result s => if result.1 then At env wf allowed a (.inside name :: rest) s
        else At env wf allowed a rest s)
      (fun _ => Lost env wf allowed a rest) := by
  have saves := At.saves env wf allowed a (.inside name :: rest)
  refine Triple.bind (keeps_lost (StoreFree.checkCurrentExecutorKey wf) (List.suffix_cons _ _)) fun _ => ?_
  refine Triple.catching (F := fun _ s => At env wf allowed a (.inside name :: rest) s ∧
    ∃ n, env.daoSucceeds n = false) ?_ ?_ ?_
  · refine Triple.bind (Q := fun _ => At env wf allowed a (.inside name :: rest)) ?_ fun date => ?_
    · intro s here
      rw [newDate_ok]
      exact here
    · refine Triple.bind (Q := fun _ => At env wf allowed a (.inside name :: rest)) ?_
        fun saved => Triple.pure fun _ here => here
      intro s here
      simp only [addJobState, bind_apply, onStore_apply, Store.addJobState, Store.daoCall_apply]
      cases succeeds : env.daoSucceeds s.store.tick with
      | true => exact here.move (.saves _)
      | false => exact ⟨here, _, succeeds⟩
  · exact fun _ _ => Triple.pure fun s thrown => thrown.1.move (.stalls found type thrown.2)
  · exact fun _ _ _ thrown => thrown.1.lost (List.suffix_cons _ _)

theorem actionEnter_at (found : wf.getNode name = some node) (type : node.type = .action) :
    Triple (At env wf allowed a (.inside name :: rest)) (ActionNodeHandler.enter env wf node)
      (fun _ => At env wf allowed a rest) (fun _ => Lost env wf allowed a rest) := by
  have saves := At.saves env wf allowed a (.inside name :: rest)
  have outer : rest <:+ Due.inside name :: rest := List.suffix_cons _ _
  refine Triple.bind (keeps_lost (saves.storeFree.onStore _) outer) fun date => ?_
  refine Triple.bind (keeps_lost (Keeps.attempt (saves.addJobState env _) _) outer) fun row => ?_
  refine Triple.bind (Q := fun _ => At env wf allowed a rest) ?_ fun _ => ?_
  · refine Triple.bind (keeps_lost (saves.storeFree.onStore _) outer) fun event => ?_
    refine Triple.modifying fun s here => ?_
    rw [Workflow.getNode_name found]
    exact here.move (.dispatches found type _ _)
  · have free := (At.saves env wf allowed a rest).storeFree
    exact Triple.bind (keeps_lost (Keeps.attempt (free.onStore _) _) (List.suffix_refl _))
      fun _ => Triple.pure fun _ here => here

theorem At.neutral (found : wf.getNode name = some node) (type : node.type = .end_ ∨ node.type = .fail) :
    Neutral (At env wf allowed a (.inside name :: rest)) node.name where
  toSaves := At.saves env wf allowed a _
  dispatched := fun id event s here => by
    rw [Workflow.getNode_name found]
    exact here.move (.dispatchesLast found type id event)

/-- A join is left at once exactly when its counter is 1. -/
theorem joinEnter_at (found : wf.getNode name = some node) (type : node.type = .join) :
    Triple (fun s => At env wf allowed a (.inside name :: rest) s ∧ s.status = .running)
      (JoinNodeHandler.enter node)
      (fun exiting s =>
        if exiting then At env wf allowed a (.inside name :: rest) s ∧ s.status = .running ∧
          ∃ text, s.vars.lookup (pairVar (orNull node.forkName) name) = some text ∧ parseInt text = some 1
        else At env wf allowed a rest s)
      (fun _ => Lost env wf allowed a rest) := by
  have outer : rest <:+ Due.inside name :: rest := List.suffix_cons _ _
  refine Triple.bind (Q := fun _ s => At env wf allowed a (.inside name :: rest) s ∧ s.status = .running) ?_
    fun _ => ?_
  -- peeking is recorded before the counter is read
  · refine Triple.modifying fun s pre => ⟨?_, pre.2⟩
    rw [Workflow.getNode_name found]
    exact pre.1.move (.peeks found type)
  · rw [Workflow.getNode_name found]
    refine Triple.bind (Q := fun s t => s = t ∧ At env wf allowed a (.inside name :: rest) t ∧ t.status = .running)
      (Triple.getting fun s pre => ⟨rfl, pre⟩) fun s => ?_
    -- no counter and a counter that is no number both throw inside `enter`
    cases value : s.vars.lookup (orNull node.forkName ++ name) with
    | none => exact Triple.throw fun t pre => pre.2.1.lost outer
    | some text =>
      dsimp only
      cases number : parseInt text with
      | none => exact Triple.throw fun t pre => pre.2.1.lost outer
      | some forks =>
        dsimp only
        split
        -- only above one is the counter lowered and written back
        next positive =>
          refine Triple.bind (Q := fun _ => At env wf allowed a rest) (Triple.modifying ?_)
            fun _ => Triple.pure fun _ here => here
          rintro _ ⟨rfl, here, _⟩
          obtain ⟨left, rfl⟩ : ∃ left : Nat, forks = ((left + 1 : Nat) : Int) :=
            ⟨(forks - 1).toNat, by omega⟩
          have text_eq : toString (((left + 1 : Nat) : Int) - 1) = toString left := by
            rw [show ((left + 1 : Nat) : Int) - 1 = (left : Int) by omega]
            rfl
          rw [text_eq, show (((left + 1 : Nat) : Int) - 1).toNat = left by omega]
          exact here.move (.arrives found type value number (by omega))
        next low =>
          refine Triple.pure ?_
          rintro _ ⟨rfl, here, running⟩
          -- at one the join releases; at zero and below it leaves the flow without a target
          by_cases last : forks - 1 = 0
          · obtain rfl : forks = 1 := by omega
            simpa using ⟨here, running, text, value, number⟩
          · simpa [last] using here.move (.underflows found type value number (by omega))

/-- What a node that is to be left at once has reached. -/
def Ready (env : Env) (wf : Workflow) (allowed : List Act → String → NodeContext → Prop) (a : Agenda)
    (node : JobPlanNode) (rest : List Due) (s : Run) : Prop :=
  At env wf allowed a (.inside node.name :: rest) s ∧
    (node.type = .join → s.status = .running ∧
      ∃ text, s.vars.lookup (pairVar (orNull node.forkName) node.name) = some text ∧ parseInt text = some 1)

/-- What a node that has named its successors has reached: `processNextNodes` takes
them up unless the status has become an end state. -/
def Leaving (env : Env) (wf : Workflow) (allowed : List Act → String → NodeContext → Prop) (a : Agenda)
    (name : String) (targets : List (Option String)) (rest : List Due) (s : Run) : Prop :=
  if s.status.isEndState then At env wf allowed a rest s
  else ∀ id, At env wf allowed a (targets.reduceOption.map .enter ++ rest)
    { s with trace := s.trace ++ [.passed name id targets] }

theorem At.leaving {targets : List (Option String)}
    (here : At env wf allowed a (.leave name targets :: rest) s) :
    Leaving env wf allowed a name targets rest s := by
  unfold Leaving
  split
  next ended => exact here.move (.stops ended)
  next live => exact fun id => here.move (.passes (by simpa using live) id)

theorem enter_at (found : wf.getNode name = some node) (passing : node.type.isFinalType = false)
    (context : NodeContext) :
    Triple (fun s => At env wf allowed a (.enter name :: rest) s ∧ s.status = .running)
      (NodeHandler.enter env wf { jobPlanNode := node } context)
      (fun result s => result.2.1 = { jobPlanNode := node } ∧
        if result.1 then Ready env wf allowed a node rest s else At env wf allowed a rest s)
      (fun _ => Lost env wf allowed a rest) := by
  have same := Workflow.getNode_name found
  refine Triple.bind (Q := fun _ s => At env wf allowed a (.inside name :: rest) s ∧ s.status = .running)
    ((enters_at found).conseq (fun s pre => ⟨pre.1, fun _ => pre.2⟩)
      (fun _ _ post => ⟨post.1, post.2 passing⟩) fun _ _ post => post) fun _ => ?_
  dsimp only
  cases type : node.type with
  | start =>
    refine Triple.bind ((startEnter_at found type context).conseq (fun _ pre => pre.1)
      (fun _ _ post => post) fun _ _ post => post) fun result => Triple.pure fun s post => ⟨rfl, ?_⟩
    obtain ⟨exiting, context⟩ := result
    -- a start node that does not exit has nothing due any more
    cases exiting
    · exact post
    · exact ⟨same ▸ post, fun join => by simp [type] at join⟩
  | fork => exact Triple.pure fun s here => ⟨rfl, same ▸ here.1, fun join => by simp [type] at join⟩
  | join =>
    refine Triple.bind (joinEnter_at found type) fun exiting => Triple.pure fun s post => ⟨rfl, ?_⟩
    -- what `exit` must still know is that the counter was one
    cases exiting
    · exact post
    · exact ⟨same ▸ post.1, fun _ => same ▸ post.2⟩
  -- actions and final types are not handled here but by `processNextNode`
  | action => simp [type, JobPlanNodeType.isFinalType] at passing
  | fail => simp [type, JobPlanNodeType.isFinalType] at passing
  | end_ => simp [type, JobPlanNodeType.isFinalType] at passing

/-! ### Leaving -/

theorem multiExit_at (found : wf.getNode name = some node) (passing : node.type.isFinalType = false)
    (context : NodeContext) :
    Triple (Ready env wf allowed a node rest) (NodeHandler.multiExit env wf { jobPlanNode := node } context)
      (fun exits s => ∃ targets, exits = some targets ∧ Leaving env wf allowed a name targets rest s)
      (fun _ => Lost env wf allowed a rest) := by
  obtain rfl := Workflow.getNode_name found
  have outer : rest <:+ Due.inside node.name :: rest := List.suffix_cons _ _
  dsimp only [NodeHandler.multiExit]
  cases type : node.type with
  | start =>
    have free := (At.saves env wf allowed a
      (.inside node.name :: rest)).storeFree
    have exits := (keeps_lost (free.startExit env wf node context) outer).and
      (startExit_value env wf node context)
    refine Triple.bind (exits.conseq (fun s ready => ⟨ready.1, trivial⟩) (fun _ _ post => post)
      fun _ _ post => post.1) fun target => Triple.pure ?_
    rintro s ⟨here, rfl⟩
    exact ⟨_, rfl, (here.move (t := s) (.begins found type)).leaving⟩
  | fork =>
    refine Triple.bind (Q := fun names s =>
      At env wf allowed a (.leave node.name (names.map some) :: rest) s) ?_
      fun names => Triple.pure fun s here => ⟨_, rfl, here.leaving⟩
    unfold ForkNodeHandler.multiExit
    -- a fork node without paths throws before it writes its counter
    cases paths : node.toNode with
    | none => exact Triple.throw fun s ready => ready.1.lost outer
    | some toNode =>
      refine Triple.bind (Triple.modifying (Q := fun _ =>
        At env wf allowed a (.leave node.name ((split toNode).map some) :: rest)) fun s ready => ?_)
        fun _ => Triple.pure fun s here => here
      exact ready.1.move (.forks found type paths)
  | join =>
    simp only [JoinNodeHandler.exit, bind_assoc, pure_bind]
    refine Triple.bind (Q := fun _ => Leaving env wf allowed a node.name [node.toNode] rest)
      (Triple.modifying fun s ready => ?_) fun _ => Triple.pure fun s leaving => ⟨_, rfl, leaving⟩
    -- the counter that `enter` read is the one that is released
    obtain ⟨running, text, value, number⟩ := ready.2 type
    have live : s.status.isEndState = false := by rw [running]; rfl
    simp only [Leaving, live, Bool.false_eq_true, if_false]
    exact fun id => ready.1.move (.releases found type value number live id)
  | action => simp [type, JobPlanNodeType.isFinalType] at passing
  | fail => simp [type, JobPlanNodeType.isFinalType] at passing
  | end_ => simp [type, JobPlanNodeType.isFinalType] at passing

/-! ### Successors -/

theorem enterFinal_at (found : wf.getNode name = some node) (final : node.type.isFinalType = true)
    (context : NodeContext) :
    Triple (At env wf allowed a (.enter name :: rest)) (NodeHandler.enter env wf { jobPlanNode := node } context)
      (fun _ => At env wf allowed a (if node.type = .action then rest else .inside name :: rest))
      (fun _ => Lost env wf allowed a rest) := by
  have outer : rest <:+ Due.inside name :: rest := List.suffix_cons _ _
  refine Triple.bind ((enters_at found).conseq (fun s here => ⟨here, fun passing => by simp [final] at passing⟩)
    (fun _ _ post => post.1) fun _ _ post => post) fun _ => ?_
  dsimp only
  cases type : node.type with
  | action =>
    exact Triple.bind (actionEnter_at found type) fun _ => Triple.pure fun _ here => by simpa using here
  | fail =>
    exact Triple.bind (keeps_lost ((At.neutral found (.inr type)).failEnter env wf) outer)
      fun _ => Triple.pure fun _ here => by simpa using here
  | end_ =>
    exact Triple.bind (keeps_lost ((At.neutral found (.inl type)).endEnter env wf) outer)
      fun _ => Triple.pure fun _ here => by simpa using here
  | start => simp [type, JobPlanNodeType.isFinalType] at final
  | fork => simp [type, JobPlanNodeType.isFinalType] at final
  | join => simp [type, JobPlanNodeType.isFinalType] at final

variable {signals : String → NodeContext → RunM Unit}

/-- What `signal` does for the nodes it is called for. -/
def Signals (env : Env) (wf : Workflow) (allowed : List Act → String → NodeContext → Prop) (a : Agenda)
    (signals : String → NodeContext → RunM Unit) : Prop :=
  ∀ name node context rest, wf.getNode name = some node → node.type.isFinalType = false →
    Triple (At env wf allowed a (.enter name :: rest)) (signals name context)
      (fun _ => At env wf allowed a rest) (fun _ => Lost env wf allowed a rest)

/-- A successor that is not final is signalled. -/
theorem processNextNode_passing (found : wf.getNode name = some node) (passing : node.type.isFinalType = false) :
    processNextNode env wf signals (some name) = signals name {} := by
  simp [processNextNode, found, passing, Workflow.getNode_name found]

theorem processNextNode_at (spec : Signals env wf allowed a signals) (next : String) :
    Triple (At env wf allowed a (.enter next :: rest)) (processNextNode env wf signals (some next))
      (fun _ => At env wf allowed a rest) (fun _ => Lost env wf allowed a rest) := by
  have outer : rest <:+ Due.inside next :: rest := List.suffix_cons _ _
  have free := (At.saves env wf allowed a
    (.inside next :: rest)).storeFree
  simp only [processNextNode, Option.bind_some]
  cases found : wf.getNode next with
  | none => exact Triple.pure fun s here => here.move (.absent found)
  | some node =>
    dsimp only
    split
    -- passing on is the signal's part, whose specification is the induction hypothesis
    next passing =>
      have passing : node.type.isFinalType = false := by simpa using passing
      rw [Workflow.getNode_name found]
      exact spec next node _ rest found passing
    next final =>
      have final : node.type.isFinalType = true := by simpa using final
      refine createNodeHandler_bind _ _ (fun missing => nomatch missing) fun n same => ?_
      obtain rfl := Option.some.inj same
      refine Triple.bind (enterFinal_at found final _) fun result => ?_
      -- the end states are assigned after the exit, so that an exit that throws assigns none
      cases type : node.type with
      | end_ =>
        simp only [reduceCtorEq, if_false, if_true]
        refine Triple.bind (keeps_lost (free.endExit env wf node _) outer) fun _ => ?_
        exact Triple.modifying fun s here => here.move (.succeeds found type)
      | fail =>
        simp only [reduceCtorEq, if_false, if_true]
        refine Triple.bind (keeps_lost (free.failExit env wf _) outer) fun _ => ?_
        exact Triple.modifying fun s here => here.move (.givesUp found type)
      | action => exact Triple.pure fun s here => by simpa using here
      | start => simp [type, JobPlanNodeType.isFinalType] at final
      | fork => simp [type, JobPlanNodeType.isFinalType] at final
      | join => simp [type, JobPlanNodeType.isFinalType] at final

theorem processNextNodes_at (spec : Signals env wf allowed a signals) (id : Nat)
    (targets : List (Option String)) :
    Triple (Leaving env wf allowed a name targets rest)
      (processNextNodes env wf signals name id (some targets))
      (fun _ => At env wf allowed a rest) (fun _ => Lost env wf allowed a rest) := by
  refine Triple.bind (Q := fun s t => s = t ∧ Leaving env wf allowed a name targets rest t)
    (Triple.getting fun s here => ⟨rfl, here⟩) fun s => ?_
  split
  -- nothing is entered once the workflow has ended
  next ended =>
    refine Triple.pure ?_
    rintro _ ⟨rfl, leaving⟩
    simpa only [Leaving, ended, if_true] using leaving
  next live =>
    refine Triple.bind (Q := fun _ => At env wf allowed a (targets.reduceOption.map .enter ++ rest))
      (Triple.modifying ?_) fun _ => ?_
    · rintro _ ⟨rfl, leaving⟩
      rw [Leaving, if_neg live] at leaving
      exact leaving id
    -- the names not yet entered are due before whatever was due before the loop
    · refine (Triple.forM (I := fun names => At env wf allowed a (names.reduceOption.map .enter ++ rest))
        (E := fun _ => Lost env wf allowed a rest) ?_ targets).conseq (fun _ here => here)
        (fun _ _ here => by simpa using here) fun _ _ lost => lost
      intro target names
      -- the branch of the source that skips a name that is null
      cases target with
      | none => exact Triple.pure fun s here => by simpa [List.reduceOption_cons_of_none] using here
      | some next =>
        rw [List.reduceOption_cons_of_some, List.map_cons, List.cons_append]
        exact (processNextNode_at spec next).conseq (fun _ here => here) (fun _ _ here => here)
          fun _ _ lost => lost.mono (List.suffix_append _ _)

/-- `signal` takes up one successor. -/
theorem signal_at (depth : Nat) : Signals env wf allowed a (signal env wf depth) := by
  -- the recursion is on the depth of nested calls, the successors go through the hypothesis
  induction depth with
  | zero =>
    intro name node context rest _ _
    exact Triple.throw fun s here => here.lost (List.suffix_cons _ _)
  | succ depth ih =>
    intro name node context rest found passing
    refine Triple.bind (Q := fun s t => s = t ∧ At env wf allowed a (.enter name :: rest) t)
      (Triple.getting fun s here => ⟨rfl, here⟩) fun s => ?_
    split
    next stopped =>
      refine Triple.pure ?_
      rintro _ ⟨rfl, here⟩
      exact here.move (.skips stopped)
    next running =>
      have running : s.status = .running := by simpa using running
      refine failing_at ?_
      rw [found]
      refine createNodeHandler_bind _ _ (fun missing => nomatch missing) fun n same => ?_
      obtain rfl := Option.some.inj same
      refine Triple.bind ((enter_at found passing context).conseq ?_ (fun _ _ post => post)
        fun _ _ post => post) fun result => ?_
      · rintro _ ⟨rfl, here⟩
        exact ⟨here, running⟩
      obtain ⟨exiting, handler, context⟩ := result
      refine Triple.of_imp ?_ fun s post => post.1
      rintro rfl
      cases exiting with
      | false => exact Triple.pure fun s post => post.2
      | true =>
        refine Triple.bind ((multiExit_at found passing context).conseq (fun s post => post.2)
          (fun _ _ post => post) fun _ _ post => post) fun exits => ?_
        refine Triple.of_imp (p := ∃ targets, exits = some targets) ?_
          fun s post => ⟨post.choose, post.choose_spec.1⟩
        rintro ⟨targets, rfl⟩
        refine (processNextNodes_at ih context.xjobStateID targets).conseq ?_ (fun _ _ post => post)
          fun _ _ post => post
        rintro s ⟨_, same, here⟩
        obtain rfl := Option.some.inj same
        exact here

/-! ### Calls -/

theorem start_at : Triple (At env wf allowed a []) (start env wf) (fun _ => At env wf allowed a [])
    (fun _ => Lost env wf allowed a []) := by
  refine Triple.bind (Q := fun s t => s = t ∧ At env wf allowed a [] t)
    (Triple.getting fun s here => ⟨rfl, here⟩) fun s => ?_
  split
  next => exact Triple.throw fun _ pre => pre.2.lost (List.suffix_refl _)
  next prep =>
    have prep : s.status = .prep := by simpa using prep
    cases found : wf.workflowManager.getStartNodeName with
    | none =>
      refine Triple.bind (Q := fun _ => At env wf allowed a []) (Triple.modifying ?_) fun _ =>
        Triple.throw fun _ here => here.lost (List.suffix_refl _)
      rintro _ ⟨rfl, here⟩
      exact here.move (by simpa [Run.agenda, prep] using Move.startsNowhere found)
    | some name =>
      obtain ⟨node, exists_, type⟩ := LiteWorkflowManager.getNode_start found
      refine Triple.bind (Q := fun _ => At env wf allowed a [.enter name]) (Triple.modifying ?_) fun _ =>
        signal_at env.stackDepth name node _ [] exists_ (by rw [type]; rfl)
      rintro _ ⟨rfl, here⟩
      exact here.move (by simpa [Run.agenda, prep] using Move.starts found)

/-- The handler of a reported node names its successors; that of an end node
returns a null list. -/
theorem multiExit_answering (found : wf.getNode name = some node) (context : NodeContext) :
    Triple (At env wf allowed a [.answering name context])
      (NodeHandler.multiExit env wf { jobPlanNode := node } context)
      (fun exits s => match exits with
        | some targets => At env wf allowed a [.leave name targets] s
        | none => node.type = .end_ ∧ At env wf allowed a [.answering name context] s)
      (fun _ => Lost env wf allowed a []) := by
  have free := (At.saves env wf allowed a
    [.answering name context]).storeFree
  -- each exit saves rows only, so what is due stays due until its answer is known
  have exits {x : RunM (Option String)} {V : Option String → Prop}
      (keeps : Keeps (At env wf allowed a [.answering name context]) x)
      (value : Triple (fun _ => True) x (fun target _ => V target) (fun _ _ => True)) :
      Triple (At env wf allowed a [.answering name context]) x
        (fun target s => At env wf allowed a [.answering name context] s ∧ V target)
        (fun _ => Lost env wf allowed a []) :=
    ((keeps_lost keeps (List.nil_suffix : [] <:+ _)).and value).conseq
      (fun s here => ⟨here, trivial⟩) (fun _ _ post => post) fun _ _ post => post.1
  obtain rfl := Workflow.getNode_name found
  dsimp only [NodeHandler.multiExit]
  cases type : node.type with
  | start =>
    refine Triple.bind (exits (free.startExit env wf node context) (startExit_value env wf node context))
      fun target => Triple.pure ?_
    rintro s ⟨here, rfl⟩
    exact here.move (.answersStart found type)
  | action =>
    refine Triple.bind (exits (free.actionExit env wf node context) (actionExit_value env wf node context))
      fun target => Triple.pure ?_
    rintro s ⟨here, state, report, result, rfl⟩
    exact here.move (.answers found type report result)
  | fail =>
    refine Triple.bind (exits (free.failExit env wf context) (failExit_value env wf context))
      fun target => Triple.pure ?_
    rintro s ⟨here, rfl⟩
    exact here.move (.answersFail found type)
  -- an end node has no exit to answer with
  | end_ => exact Triple.pure fun s here => ⟨rfl, here⟩
  -- a fork writes its counter also when it answers a report
  | fork =>
    cases paths : node.toNode with
    | none =>
      simp only [ForkNodeHandler.multiExit, paths]
      exact Triple.bind (Q := fun _ _ => False) (Triple.throw fun s here => here.lost List.nil_suffix)
        fun _ => Triple.of_false
    | some toNode =>
      simp only [ForkNodeHandler.multiExit, paths, bind_assoc, pure_bind]
      refine Triple.bind (Triple.modifying (Q := fun _ =>
        At env wf allowed a [.leave node.name ((split toNode).map some)]) fun s here => ?_)
        fun _ => Triple.pure fun s here => here
      exact (here.move (t := s) (.answersFork found type)).move (.forks found type paths)
  | join =>
    simp only [JoinNodeHandler.exit, bind_assoc, pure_bind]
    exact Triple.bind (Triple.modifying (Q := fun _ => At env wf allowed a [.leave node.name [node.toNode]])
      fun s here => here.move (.answersJoin found type)) fun _ => Triple.pure fun s here => here

theorem answering_at (found : wf.getNode name = some node) (context : NodeContext) (id : Nat) :
    Triple (At env wf allowed a [.answering name context])
      (do let exits ← NodeHandler.multiExit env wf { jobPlanNode := node } context
          processNextNodes env wf (signal env wf env.stackDepth) name id exits)
      (fun _ => At env wf allowed a []) (fun _ => Lost env wf allowed a []) := by
  refine (multiExit_answering found context).bind fun exits => ?_
  cases exits with
  | some targets =>
    exact (processNextNodes_at (signal_at env.stackDepth) id targets).conseq (fun _ here => here.leaving)
      (fun _ _ post => post) fun _ _ post => post
  | none =>
    intro s pre
    simp only [processNextNodes, bind_apply, get_apply]
    cases ended : s.status.isEndState with
    | true => exact pre.2.move (t := s) (.answersEnd found pre.1 ended)
    | false => exact pre.2.lost List.nil_suffix

theorem completeJobPlanNode_at (name : String) (context : NodeContext) :
    Triple (fun s => At env wf allowed a [] s ∧ allowed s.trace name context)
      (completeJobPlanNode env wf name context) (fun _ => At env wf allowed a [])
      (fun _ => Lost env wf allowed a []) := by
  refine Triple.bind (Q := fun _ => At env wf allowed a [.answering name context])
    (Triple.modifying fun s pre => pre.1.move (.completes pre.2)) fun _ => ?_
  refine Triple.bind (failing_at ?_) fun _ => ?_
  · refine createNodeHandler_bind _ _ (fun _ s here => here.lost List.nil_suffix) fun node found => ?_
    exact answering_at found context _
  · have free := (At.saves env wf allowed a []).storeFree
    refine Triple.bind (Q := fun _ => At env wf allowed a []) (Triple.getting fun _ here => here) fun s => ?_
    split
    · exact keeps_lost (free.onStore _) (List.suffix_refl _)
    · exact Triple.pure fun _ here => here

variable (allowed) in
/-- What every move keeps, and dropping the agenda too, holds between any calls. -/
theorem Reaches.invariant {world : Store → Store → Prop} {guard : Run → String → NodeContext → Prop}
    {J : Agenda → Prop} {s : Run} (reaches : Reaches env wf world guard s)
    (guarded : ∀ s name context, guard s name context → allowed s.trace name context) (initial : J {})
    (moves : ∀ x y, Move env wf allowed x y → J x → J y)
    (abandons : ∀ x, J x → J { x with due := [] }) : J (s.agenda []) := by
  have kept {x y : Agenda} (path : Moves env wf allowed x y) (holds : J x) : J y := by
    induction path with
    | refl => exact holds
    | tail _ move ih => exact moves _ _ move ih
  have ended {x : RunM Unit} {s : Run} (P : Run → Prop) (pre : P s)
      (triple : Triple P x (fun _ => At env wf allowed (s.agenda []) [])
        (fun _ => Lost env wf allowed (s.agenda []) []))
      (holds : J (s.agenda [])) : J ((after (x s)).agenda []) := by
    cases same : x s with
    | ok _ t => exact kept (triple.ok pre same) holds
    | error _ t =>
      obtain ⟨due, _, here⟩ := triple.error pre same
      exact abandons _ (kept here holds)
  induction reaches with
  | initial store => exact initial
  | starting before ih => exact ended _ (At.refl _ _) start_at ih
  | completing before allows ih =>
    exact ended _ ⟨At.refl _ _, guarded _ _ _ allows⟩ (completeJobPlanNode_at _ _) ih
  | elsewhere before changes ih => exact ih

end Refinement

end Hella

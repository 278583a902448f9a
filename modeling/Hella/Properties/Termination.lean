import Hella.Control.Oracle
import Hella.Properties.Redelivery

/-!
# Node processing that ends

`start` and `completeJobPlanNode` end from every state of a plan exactly if the plan
is grounded. If it is not, an endless chain of nodes says which rows the database
must save and which not. The oracle that answers so drives `signal` along the chain,
and it overflows every stack.
-/
namespace Hella

open Exec Text Answers

/-- The environment with another stack. -/
def Env.withStack (env : Env) (depth : Nat) : Env := { env with stackDepth := depth }

/-- With a stack that is deep enough every call ends, and the stack no longer matters. -/
def Terminates (wf : Workflow) : Prop :=
  ∀ (env : Env) (s : Run),
    Settles Throwable.isException (fun depth => start (env.withStack depth) wf) s ∧
      ∀ name context,
        Settles Throwable.isException (fun depth => completeJobPlanNode (env.withStack depth) wf name context) s

section Termination

variable {env : Env} {wf : Workflow} {name : String} {node : JobPlanNode} {vars vars' left : JMap String} {s t : Run}

theorem signal_withStack (env : Env) (wf : Workflow) (room depth : Nat) :
    signal (env.withStack room) wf depth = signal env wf depth := by
  induction depth with
  | zero => rfl
  | succ depth ih =>
    funext name context
    simp only [signal]
    rw [ih]
    rfl

/-! ### Grounded plans -/

theorem start_deeper {m n : Nat} (more : m ≤ n) :
    Approximates Throwable.isException (start (env.withStack m) wf) (start (env.withStack n) wf) := by
  apply Approximates.bind (.refl _)
  intro s
  split
  · exact .refl _
  · apply Approximates.bind (.refl _)
    intro _
    split
    · exact .refl _
    · simp only [signal_withStack]
      exact signal_deeper more _ _

/-- What `completeJobPlanNode` does inside its `try` block, with calls nested to the given depth. -/
def completing (env : Env) (wf : Workflow) (depth : Nat) (name : String) (context : NodeContext) : RunM Unit := do
  let handler ← createNodeHandler (wf.getNode name)
  let multiExit ← handler.multiExit env wf context
  processNextNodes env wf (signal env wf depth) name context.xjobStateID multiExit

theorem completeJobPlanNode_withStack (env : Env) (wf : Workflow) (depth : Nat) (name : String)
    (context : NodeContext) : completeJobPlanNode (env.withStack depth) wf name context = (do
      record (.completing name context.xjobStateID)
      failing (completing env wf depth name context)
      if (← get).status.isEndState then
        onStore (Store.removeWorkflow wf.getWorkflowKey)) := by
  rw [completing, ← signal_withStack env wf depth depth]
  rfl

theorem completeJobPlanNode_deeper {m n : Nat} (more : m ≤ n) (name : String) (context : NodeContext) :
    Approximates Throwable.isException (completeJobPlanNode (env.withStack m) wf name context)
      (completeJobPlanNode (env.withStack n) wf name context) := by
  simp only [completeJobPlanNode_withStack]
  apply Approximates.bind (.refl _)
  intro _
  apply Approximates.bind _ fun _ => .refl _
  apply Approximates.catching
  apply Approximates.bind (.refl _)
  intro handler
  apply Approximates.bind (.refl _)
  exact fun exits => processNextNodes_deeper (signal_deeper more) name context.xjobStateID exits

theorem start_proper (grounded : Grounded wf) (env : Env) (s : Run) :
    ∃ depth, ¬ Escapes Throwable.isException (start (env.withStack depth) wf) s := by
  by_cases prep : s.status = .prep
  · let t : Run := { s with status := .running, trace := s.trace ++ [.assigned .running] }
    cases named : wf.workflowManager.getStartNodeName with
    | none =>
      have missing : start (env.withStack 0) wf s = .error (.workflowException " Work start node has not find ") t := by
        simp [start, bind_apply, prep, setStatus, named, t]
      refine ⟨0, ?_⟩
      rintro ⟨e, u, thrown, outside⟩
      rw [missing] at thrown
      cases thrown
      cases outside
    | some first =>
      -- the stack of the environment is the one the signal gets
      have begins (depth : Nat) : start (env.withStack depth) wf s =
        signal (env.withStack depth) wf depth first {} t := by
        simp [start, bind_apply, prep, setStatus, named, t]
        rfl
      obtain ⟨node, found, type⟩ := LiteWorkflowManager.getNode_start named
      obtain ⟨depth, proper⟩ := @signal_proper env wf first node t grounded found (by rw [type]; rfl)
      refine ⟨depth, ?_⟩
      simpa only [Escapes, begins, signal_withStack] using proper
  · refine ⟨0, ?_⟩
    rintro ⟨e, u, thrown, outside⟩
    have refused : start (env.withStack 0) wf s = .error (.workflowException " Work flowInstance has not PREP ") s := by
      simp [start, bind_apply, prep]
    rw [refused] at thrown
    cases thrown
    cases outside

theorem completing_proper (grounded : Grounded wf) (env : Env) (name : String) (context : NodeContext) (s : Run) :
    ∃ depth, ¬ Escapes Throwable.isException (completing env wf depth name context) s := by
  have cut (depth : Nat) {e : Throwable} {t : Run} (ends : completing env wf depth name context s = .error e t)
      (exception : e.isException = true) : ¬ Escapes Throwable.isException
        (completing env wf depth name context) s := by
    rintro ⟨e', t', thrown, outside⟩
    cases ends.symm.trans thrown
    simp [exception] at outside
  cases found : wf.getNode name with
  | none => exact ⟨0, cut 0 (by rw [completing, found]; rfl) rfl⟩
  | some node =>
    have tidy : Tidy env s.store (NodeHandler.multiExit env wf { jobPlanNode := node } context) := wrote_multiExit _ _
    have opens (depth : Nat) : completing env wf depth name context =
        NodeHandler.multiExit env wf { jobPlanNode := node } context >>=
          processNextNodes env wf (signal env wf depth) name context.xjobStateID := by
      rw [completing, found]
      rfl
    cases left : NodeHandler.multiExit env wf { jobPlanNode := node } context s with
    | error e t => exact ⟨0, cut 0 ((congrFun (opens 0) s).trans (bind_error left)) (tidy.error .refl left).2⟩
    | ok exits t =>
      have goes (depth : Nat) : completing env wf depth name context s =
          processNextNodes env wf (signal env wf depth) name context.xjobStateID exits t :=
        (congrFun (opens depth) s).trans (bind_ok left)
      cases ended : t.status.isEndState with
      | true =>
        refine ⟨0, ?_⟩
        rintro ⟨e, u, thrown, -⟩
        rw [goes] at thrown
        simp [processNextNodes, bind_apply, ended] at thrown
      | false =>
        cases exits with
        | none =>
          refine ⟨0, @cut 0 .nullPointerException t ?_ rfl⟩
          rw [goes]
          simp [processNextNodes, bind_apply, ended]
        | some targets =>
          -- the loop starts with any status but an end state; what it comes to is settled by the plan alone
          let u : Run := { t with trace := t.trace ++ [.passed name context.xjobStateID targets] }
          obtain ⟨depth, proper⟩ := @loop_proper env wf u u.vars [] targets (by
            rintro _ _ _ _ _ _ _ ⟨_, reached, passing⟩
            exact signal_proper grounded reached passing) fun _ => .done
          refine ⟨depth, ?_⟩
          have loops : completing env wf depth name context s =
              targets.forM (processNextNode env wf (signal env wf depth)) u := by
            rw [goes]
            simp only [processNextNodes, bind_apply, get_apply, ended, Bool.false_eq_true, if_false,
              record, modify_apply, u]
          simpa only [Escapes, loops] using proper

theorem completeJobPlanNode_proper (grounded : Grounded wf) (env : Env) (name : String)
    (context : NodeContext) (s : Run) :
    ∃ depth, ¬ Escapes Throwable.isException (completeJobPlanNode (env.withStack depth) wf name context) s := by
  obtain ⟨depth, proper⟩ := completing_proper grounded env name context
    { s with trace := s.trace ++ [.completing name context.xjobStateID] }
  refine ⟨depth, fun escapes => ?_⟩
  rw [completeJobPlanNode_withStack] at escapes
  rcases escapes.of_bind with ⟨e, t, thrown, -⟩ | ⟨_, t, recorded, rest⟩
  · cases thrown
  · cases recorded
    rcases rest.of_bind with inside | ⟨_, u, -, last⟩
    · exact failing_proper proper inside
    · rcases last.of_bind with ⟨e, v, thrown, -⟩ | ⟨w, v, same, ⟨e, x, thrown, -⟩⟩
      · cases thrown
      · split at thrown <;> cases thrown

theorem terminates_of_grounded (grounded : Grounded wf) : Terminates wf := by
  intro env s
  constructor
  · obtain ⟨depth, proper⟩ := start_proper grounded env s
    exact settles_of_proper (fun m n => start_deeper) proper
  · intro name context
    obtain ⟨depth, proper⟩ := completeJobPlanNode_proper grounded env name context s
    exact settles_of_proper (fun m n more => completeJobPlanNode_deeper more name context) proper

/-! ### Plans without cycles -/

theorem Onward.passing {here next : String × JMap String} (onward : Onward wf here next) :
    ∃ node, wf.getNode here.1 = some node ∧ node.type.isFinalType = false := by
  obtain ⟨_, _, _, _, leaves, -, -⟩ := onward
  exact leaves.passing

theorem Onward.leads {here next : String × JMap String} (onward : Onward wf here next)
    (found : wf.getNode here.1 = some node) : Leads node next.1 := by
  obtain ⟨targets, left, before, after, leaves, all, -⟩ := onward
  have member : some next.1 ∈ targets := by simp [all]
  cases leaves with
  | start found' type | join found' type =>
    obtain rfl := Option.some.inj (found.symm.trans found')
    exact ⟨fun fork => by simp [type] at fork, fun _ => (List.mem_singleton.mp member).symm⟩
  | fork found' type paths =>
    obtain rfl := Option.some.inj (found.symm.trans found')
    exact ⟨fun _ => ⟨_, paths, by simpa using member⟩, fun other => absurd type other⟩

/-- The node a chain is at fits into the room that is left, so the chain gets shorter. -/
theorem acc_of_fits {room : Nat} {here : String × JMap String} (fits : Fits wf room here.1) :
    Acc (fun next here => Onward wf here next) here := by
  induction room generalizing here with
  | zero => exact fits.elim
  | succ room ih =>
    apply Acc.intro
    intro next onward
    obtain ⟨node, found, -⟩ := onward.passing
    apply Acc.intro
    intro beyond further
    obtain ⟨after, reached, passing⟩ := further.passing
    exact (ih (fits node found next.1 (onward.leads found) after reached passing)).inv further

/-- Where some stack is deep enough for every chain of edges, the plan is grounded. -/
theorem grounded_of_roomy (roomy : Roomy env wf) : Grounded wf := by
  apply WellFounded.intro
  intro here
  apply Acc.intro
  intro next onward
  obtain ⟨node, found, passing⟩ := onward.passing
  exact (acc_of_fits (roomy here.1 node found passing)).inv onward

/-! ### Plans that are not grounded -/

/-- An overflow further on is an overflow of the loop. -/
theorem loop_escapes {before after : List (Option String)} {next : String} {u : Run} {depth room : Nat}
    (found : wf.getNode next = some node) (passing : node.type.isFinalType = false)
    (through : before.forM (processNextNode env wf (signal env wf room)) s = .ok () u)
    (overflow : Escapes Throwable.isException (signal env wf depth next {}) u) :
    Escapes Throwable.isException ((before ++ some next :: after).forM (processNextNode env wf (signal env wf depth)))
      s := by
  have parts : (before ++ some next :: after).forM (processNextNode env wf (signal env wf depth)) = (do
      before.forM (processNextNode env wf (signal env wf depth))
      (some next :: after).forM (processNextNode env wf (signal env wf depth))) := List.forM_append
  rw [parts]
  have deeper {m n : Nat} (more : m ≤ n) : Approximates Throwable.isException
      (before.forM (processNextNode env wf (signal env wf m)))
        (before.forM (processNextNode env wf (signal env wf n))) :=
    .forM (processNextNode_deeper (signal_deeper more)) before
  have turn : Escapes Throwable.isException ((some next :: after).forM (processNextNode env wf (signal env wf depth)))
    u := by
    apply Escapes.bind
    simpa only [Escapes, processNextNode_passing found passing] using overflow
  rcases Nat.le_total depth room with shallow | deep
  · rcases deeper shallow s with cut | same
    · exact cut.bind
    · exact turn.bind_ok (same.trans through)
  · exact turn.bind_ok ((deeper deep).ok through)

/-- The database can answer so that control gets from a node to the next, and then the
overflow of the one is an overflow of the other. -/
theorem onward_answered {here next : String × JMap String} (onward : Onward wf here next)
    (reached : wf.getNode next.1 = some node) (passing : node.type.isFinalType = false) :
    ∃ answers : List Bool, ∀ (env : Env) (s : Run), Underway here.2 s → env.Answers s answers →
      ∃ t, Underway next.2 t ∧ t.store.tick = s.store.tick + answers.length ∧
        ∀ depth, Escapes Throwable.isException (signal env wf depth next.1 {}) t →
          Escapes Throwable.isException (signal env wf (depth + 1) here.1 {}) s := by
  obtain ⟨targets, left, before, after, leaves, rfl, through⟩ := onward
  obtain ⟨node', found, -⟩ := leaves.passing
  obtain ⟨leaving, visits⟩ := visit_answered leaves found
  obtain ⟨within, runs⟩ := through_answered through
  refine ⟨leaving ++ within, fun env s underway given => ?_⟩
  obtain ⟨first, second⟩ := gives_append.mp given
  obtain ⟨u, gone, ticks, goes⟩ := visits env s underway first
  rw [← ticks] at second
  obtain ⟨t, room, passed, inside, more⟩ := runs env u gone second
  refine ⟨t, inside, by rw [List.length_append]; omega, fun depth overflow => ?_⟩
  have loop : Escapes Throwable.isException
      ((before ++ some next.1 :: after).forM (processNextNode env wf (signal env wf depth))) _ :=
    loop_escapes reached passing passed overflow
  have visited : Escapes Throwable.isException (visit env wf (signal env wf depth) here.1 node') s := by
    simpa only [Escapes, goes] using loop
  have caught : Escapes Throwable.isException (failing (visit env wf (signal env wf depth) here.1 node')) s :=
    visited.catching
  simpa only [Escapes, signal_visits depth found underway.running] using caught

/-- The same for the call that reports the first node of a chain. -/
theorem completing_answered {here next : String × JMap String} (onward : Onward wf here next)
    (reached : wf.getNode next.1 = some node) (passing : node.type.isFinalType = false) :
    ∃ answers : List Bool, ∀ (env : Env) (s : Run) (context : NodeContext), Underway here.2 s →
      (∀ node, wf.getNode here.1 = some node → Filed node context s) → env.Answers s answers →
      ∃ t, Underway next.2 t ∧ t.store.tick = s.store.tick + answers.length ∧
        ∀ depth, Escapes Throwable.isException (signal env wf depth next.1 {}) t →
          Escapes Throwable.isException (completing env wf depth here.1 context) s := by
  obtain ⟨targets, left, before, after, leaves, rfl, through⟩ := onward
  obtain ⟨node', found, -⟩ := leaves.passing
  obtain ⟨exiting, exits⟩ := exits_answered leaves found
  obtain ⟨within, runs⟩ := through_answered through
  refine ⟨exiting ++ within, fun env s context underway filed given => ?_⟩
  -- the exit, then the targets before the one that overflows
  obtain ⟨first, second⟩ := gives_append.mp given
  obtain ⟨u, gone, inside, ticks⟩ := exits env s context underway (filed node' found) first
  rw [← ticks] at second
  let v : Run := { u with trace := u.trace ++ [.passed here.1 context.xjobStateID (before ++ some next.1 :: after)] }
  obtain ⟨t, room, passed, there, more⟩ := runs env v ⟨inside.running, inside.vars, inside.sound⟩ second
  have total : t.store.tick = s.store.tick + (exiting ++ within).length := by
    rw [List.length_append, more, ← Nat.add_assoc, ← ticks]
  -- the overflow of the target is the overflow of the whole call, since only exceptions are caught
  refine ⟨t, there, total, fun depth overflow => ?_⟩
  have loop : Escapes Throwable.isException
      ((before ++ some next.1 :: after).forM (processNextNode env wf (signal env wf depth))) _ :=
    loop_escapes reached passing passed overflow
  have goes : completing env wf depth here.1 context s =
      (before ++ some next.1 :: after).forM (processNextNode env wf (signal env wf depth)) v := by
    rw [completing, found]
    exact (bind_ok gone).trans (processNextNodes_going _ _ inside.running)
  simpa only [Escapes, goes] using loop

/-- The first node of a chain is reported to a running instance that has saved one row. -/
def chainRow : XjobState :=
  { id := 1, jobPlanNodeID := 1, currentExecutorKey := "10001", jobPlanNodeState := .init, runTime := none }

def chainStart (vars : JMap String) : Run :=
  { status := .running, vars := vars, store := { xjobStates := [chainRow], lastXjobStateID := 1 } }

theorem chainStart_underway (vars : JMap String) (trace : List Act) :
    Underway vars { chainStart vars with trace := trace } where
  running := rfl
  vars := rfl
  sound := ⟨List.nodup_singleton _, fun _ member => by rw [List.mem_singleton.mp member]; exact le_rfl⟩

theorem not_terminates_of_chain {chain : Nat → String × JMap String}
    (endless : ∀ n, Onward wf (chain n) (chain (n + 1))) : ¬ Terminates wf := by
  let context : NodeContext := contextOf chainRow
  have passing (n : Nat) := (endless n).passing
  choose nodes reached passes using passing
  have steps (n : Nat) := onward_answered (endless n) (reached (n + 1)) (passes (n + 1))
  choose answers runs using steps
  obtain ⟨first, begins⟩ := completing_answered (endless 0) (reached 1) (passes 1)
  -- the call answers the first block, every later node of the chain one more
  let blocks : Nat → List Bool := startingWith first answers
  obtain ⟨oracle, gives⟩ := exists_oracle blocks
  let env : Env := { Env.calm with daoSucceeds := oracle }
  have overflows (depth n : Nat) (s : Run) (underway : Underway (chain (n + 1)).2 s)
      (ticks : s.store.tick = (front blocks (n + 1)).length) :
      Escapes Throwable.isException (signal env wf depth (chain (n + 1)).1 {}) s := by
    induction depth generalizing n s with
    | zero => exact ⟨.stackOverflowError, s, rfl, rfl⟩
    | succ depth ih =>
      have given : env.Answers s (answers (n + 1)) := by
        rw [Env.Answers, ticks]
        exact gives (n + 1)
      obtain ⟨t, there, more, onward⟩ := runs (n + 1) env s underway given
      apply onward depth
      apply ih (n + 1) t there
      have longer : (front blocks (n + 2)).length = (front blocks (n + 1)).length + (answers (n + 1)).length :=
        List.length_append
      rw [more, ticks, longer]
  intro terminates
  apply ((terminates env (chainStart (chain 0).2)).2 (chain 0).1 context).not_escapes
  intro depth
  rw [completeJobPlanNode_withStack]
  apply Escapes.bind_ok rfl
  apply Escapes.bind
  apply Escapes.catching
  obtain ⟨t, there, ticks, overflow⟩ := begins env _ context (chainStart_underway (chain 0).2 _)
    (fun _ _ _ => ⟨_, chainRow, rfl, Nat.one_ne_zero, rfl⟩) (gives 0)
  apply overflow depth
  exact overflows depth 0 t there (by rw [ticks, front, front, List.nil_append]; exact Nat.zero_add _)

/-- Every call ends exactly if no chain of nodes goes on for ever. -/
theorem terminates_iff_grounded (wf : Workflow) : Terminates wf ↔ Grounded wf := by
  constructor
  · intro terminates
    rw [Grounded, wellFounded_iff_isEmpty_descending_chain]
    exact ⟨fun chain => not_terminates_of_chain chain.2 terminates⟩
  · exact terminates_of_grounded

end Termination

/-! ### An endless plan -/

namespace Loop

/-- What the fork does to the counters. -/
def counted (vars : JMap String) : JMap String := vars.insert (pairVar "f" "j") "2"

/-- The fork that is its own path goes on from any counters. -/
theorem onward (vars : JMap String) : Onward workflow ("f", vars) ("f", counted vars) := by
  have leaves : Leaves workflow "f" vars [some "b", some "f"] (counted vars) := by
    have fork := @Leaves.fork workflow "f" plan.jobPlanNodeList[2] vars "b,f" rfl rfl rfl
    have paths : split "b,f" = ["b", "f"] := by decide
    rw [paths] at fork
    exact fork
  exact ⟨_, _, [some "b"], [], leaves, rfl, .acts (by rfl) (by rfl) (by rfl) .done⟩

end Loop

/-- A fork may name itself among its paths: the constructor only compares the whole
list with the name. -/
theorem loop_not_terminates : ¬ Terminates Loop.workflow := by
  have endless (n : Nat) : Onward Loop.workflow ("f", Loop.counted^[n] ∅) ("f", Loop.counted^[n + 1] ∅) := by
    rw [Function.iterate_succ_apply']
    exact Loop.onward _
  exact @not_terminates_of_chain Loop.workflow (fun n => ("f", Loop.counted^[n] ∅)) endless

end Hella

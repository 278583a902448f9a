import Hella.Control.Writes

/-!
# An invariant rule for workflow instances

What is kept by single writes to the store, by notes in the history and by the entry of
an action node is kept by `start` and `completeJobPlanNode`.
-/
namespace Hella

open Exec

/-- The name is that of an action node. -/
def Workflow.IsAction (wf : Workflow) (name : String) : Prop :=
  ∃ node, wf.getNode name = some node ∧ node.type = .action

/-- Anything but the dispatch of an action. -/
def Act.Aloof (wf : Workflow) : Act → Prop
  | .dispatched name _ _ => ¬ wf.IsAction name
  | _ => True

/-- The invariant has nothing to do with status and variables. It is kept by every single
write, by every note that is not the dispatch of an action, and when an action is entered. -/
structure Stable (env : Env) (wf : Workflow) (I : Run → Prop) : Prop where
  writes : ∀ s t, Store.Write env s.store t → I s → I { s with store := t }
  notes : ∀ s act, act.Aloof wf → I s → I { s with trace := s.trace ++ [act] }
  moves : ∀ s status vars, I s → I { s with status := status, vars := vars }
  actions : ∀ node, wf.getNode node.name = some node → node.type = .action →
    Keeps I (NodeHandler.enter env wf { jobPlanNode := node } {})

namespace Stable

variable {env : Env} {wf : Workflow} {I : Run → Prop} {α : Type} (stable : Stable env wf I)
include stable

theorem wrote {s : Run} {t : Store} (writes : Store.Writes env s.store t) (holds : I s) : I { s with store := t } := by
  induction writes with
  | refl => exact holds
  | @tail middle last _ write ih => exact stable.writes { s with store := middle } last write ih

theorem onStore {body : StoreM α} (spends : ∀ s, Store.Spends env s body) : Keeps I (onStore body) := by
  intro s holds
  have result := spends s.store s.store .refl
  rw [onStore_apply]
  cases same : body s.store <;> simp only [same] at result ⊢
  · exact stable.wrote result holds
  · exact stable.wrote result.1 holds

theorem record {act : Act} (aloof : act.Aloof wf) : Keeps I (record act) :=
  Keeps.modifying fun s holds => stable.notes s act aloof holds

theorem setStatus (status : WorkflowStatus) : Keeps I (setStatus status) :=
  Keeps.modifying fun s holds => stable.moves _ status _ (stable.notes s _ (by trivial) holds)

omit stable in
theorem attempt {body : RunM α} (keeps : Keeps I body) (otherwise : α) : Keeps I (attempt body otherwise) :=
  keeps.catching fun _ _ => Keeps.pure _

theorem newDate : Keeps I (Hella.onStore (Store.newDate env)) := stable.onStore fun _ => Store.writes_newDate

theorem updJobState (x : XjobState) : Keeps I (Hella.onStore (Store.updJobState env x)) :=
  stable.onStore fun _ => Store.writes_updJobState x

theorem change (id : Nat) (state : CurrentXjobState) :
    Keeps I (Hella.onStore (Store.changeJobExecutionPlanCurrentXjobState env id state)) :=
  stable.onStore fun _ => Store.writes_changeJobExecutionPlanCurrentXjobState id state

theorem addJobState (x : XjobState) : Keeps I (addJobState env x) :=
  Keeps.bind (stable.onStore fun _ => Store.writes_addJobState x) fun _ =>
    Keeps.bind (stable.record trivial) fun _ => Keeps.pure _

theorem loadXjobState (id : Nat) : Keeps I (loadXjobState env id) := by
  refine Keeps.bind (stable.onStore fun _ => Store.writes_queryXjobState id) fun found => ?_
  cases found
  · exact Keeps.throw _
  · exact Keeps.pure _

omit stable in
theorem checkCurrentExecutorKey : Keeps I (checkCurrentExecutorKey wf) := by
  unfold Hella.checkCurrentExecutorKey
  split
  · exact Keeps.throw _
  · exact Keeps.pure _

omit stable in
theorem checkJobProgress (context : NodeContext) : Keeps I (checkJobProgress wf context) := by
  refine checkCurrentExecutorKey.bind fun _ => ?_
  split
  · exact Keeps.throw _
  · split
    · exact Keeps.throw _
    · exact Keeps.pure _

/-! ### Leaving a node -/

theorem startExit (node : JobPlanNode) (context : NodeContext) :
    Keeps I (StartNodeHandler.exit env wf node context) := by
  refine (checkJobProgress context).bind fun progress => (stable.loadXjobState _).bind fun row => ?_
  refine stable.newDate.bind fun date => Keeps.bind (attempt ?_ ()) fun _ => Keeps.pure _
  exact (stable.updJobState _).bind fun _ => stable.change _ _

/-- A handler that did not enter its node cannot retry. -/
theorem actionExit (node : JobPlanNode) (context : NodeContext) :
    Keeps I (ActionNodeHandler.exit env wf { jobPlanNode := node } context) := by
  refine (checkJobProgress context).bind fun progress => ?_
  split
  · exact Keeps.throw _
  · split
    · exact Keeps.throw _
    · refine (stable.loadXjobState _).bind fun row => (attempt (stable.updJobState _) _).bind fun _ => ?_
      split
      · exact Keeps.pure _
      · split
        · split
          -- the retry fails on the handler's missing context
          · exact Keeps.bind (Keeps.throw _) fun _ => Keeps.pure _
          · exact Keeps.pure _
        · exact Keeps.pure _

theorem failExit (context : NodeContext) : Keeps I (FailNodeHandler.exit env wf context) := by
  refine (checkJobProgress context).bind fun progress => (stable.loadXjobState _).bind fun row => ?_
  refine stable.newDate.bind fun date => Keeps.bind (attempt ?_ ()) fun _ => Keeps.pure _
  refine (stable.updJobState _).bind fun _ => (stable.change _ _).bind fun _ => ?_
  refine Keeps.bind (stable.onStore fun _ => Store.writes_queryXjobStateByCurrentExecutorKey _) fun rows => ?_
  refine Keeps.forM fun x _ => ?_
  unfold FailNodeHandler.failRunning
  split
  · exact stable.newDate.bind fun _ => stable.updJobState _
  · exact Keeps.pure _

theorem endExit (node : JobPlanNode) (context : NodeContext) : Keeps I (EndNodeHandler.exit env wf node context) := by
  refine (checkJobProgress context).bind fun progress => (stable.loadXjobState _).bind fun row => ?_
  refine stable.newDate.bind fun date => Keeps.bind (attempt ?_ ()) fun _ => ?_
  · exact (stable.updJobState _).bind fun _ => stable.change _ _
  · refine Keeps.bind (stable.onStore fun _ => Store.writes_queryJobPlan _) fun plan => ?_
    split
    · exact Keeps.pure _
    · split
      · exact Keeps.pure _
      · split
        · exact Keeps.pure _
        · exact Keeps.bind (stable.onStore fun _ => Store.writes_produceJobEvent _) fun _ => Keeps.pure _

theorem multiExit (node : JobPlanNode) (context : NodeContext) :
    Keeps I (NodeHandler.multiExit env wf { jobPlanNode := node } context) := by
  unfold NodeHandler.multiExit
  dsimp only
  split
  · exact (stable.startExit _ _).bind fun _ => Keeps.pure _
  · exact (stable.actionExit _ _).bind fun _ => Keeps.pure _
  · refine Keeps.bind ?_ fun _ => Keeps.pure _
    unfold ForkNodeHandler.multiExit
    split
    · exact Keeps.throw _
    · refine Keeps.bind (Keeps.modifying fun s holds => ?_) fun _ => Keeps.pure _
      exact stable.moves _ _ _ (stable.notes s _ (by trivial) holds)
  · refine Keeps.bind (Keeps.bind (Keeps.modifying fun s holds => ?_) fun _ => Keeps.pure _) fun _ => Keeps.pure _
    exact stable.moves _ _ _ (stable.notes s _ (by trivial) holds)
  · exact (stable.failExit _).bind fun _ => Keeps.pure _
  · exact Keeps.pure _

/-! ### Entering a node -/

omit stable in
theorem aloof_of_type {node : JobPlanNode} (found : wf.getNode node.name = some node) (type : node.type ≠ .action)
    (id : Nat) (event : JobEvent) : (Act.dispatched node.name id event).Aloof wf := by
  rintro ⟨other, same, action⟩
  cases found.symm.trans same
  exact type action

theorem executeXJob {node : JobPlanNode} (found : wf.getNode node.name = some node) (type : node.type ≠ .action)
    (id : Nat) (args : Option String) : Keeps I (executeXJob env wf node id args) :=
  Keeps.bind (stable.onStore fun _ => Store.writes_executeXJob _ node id _ args) fun event =>
    stable.record (aloof_of_type found type id event)

theorem startEnter (node : JobPlanNode) (context : NodeContext) :
    Keeps I (StartNodeHandler.enter env wf node context) := by
  refine checkCurrentExecutorKey.bind fun _ => attempt ?_ _
  exact stable.newDate.bind fun date => (stable.addJobState _).bind fun saved => Keeps.pure _

theorem joinEnter (node : JobPlanNode) : Keeps I (JoinNodeHandler.enter node) := by
  refine Keeps.bind (stable.record trivial) fun _ => Keeps.getting.bind fun s => ?_
  split
  · exact Keeps.throw _
  · split
    · exact Keeps.throw _
    · dsimp only
      split
      · refine Keeps.bind (Keeps.modifying fun s holds => ?_) fun _ => Keeps.pure _
        exact stable.moves _ _ _ (stable.notes s _ (by trivial) holds)
      · exact Keeps.pure _

theorem failEnter {node : JobPlanNode} (found : wf.getNode node.name = some node) (type : node.type ≠ .action) :
    Keeps I (FailNodeHandler.enter env wf node) := by
  refine stable.newDate.bind fun date => (stable.addJobState _).bind fun saved => ?_
  split
  · refine Keeps.bind (attempt ((stable.executeXJob found type _ _).bind fun _ => Keeps.pure true) false) fun _ => ?_
    exact (stable.updJobState _).bind fun _ => Keeps.pure _
  · exact Keeps.pure _

theorem endEnter {node : JobPlanNode} (found : wf.getNode node.name = some node) (type : node.type ≠ .action) :
    Keeps I (EndNodeHandler.enter env wf node) := by
  refine stable.newDate.bind fun date => Keeps.bind ?_ fun state => ?_
  · unfold EndNodeHandler.notify
    split
    · exact (stable.executeXJob found type _ _).bind fun _ => Keeps.pure _
    · exact Keeps.pure _
  · exact Keeps.bind (attempt (stable.addJobState _) _) fun _ => Keeps.pure _

theorem enter {node : JobPlanNode} (found : wf.getNode node.name = some node) :
    Keeps I (NodeHandler.enter env wf { jobPlanNode := node } {}) := by
  -- the entry of an action is the rule's own premise; the others only write and take notes
  by_cases type : node.type = .action
  · exact stable.actions node found type
  · refine Keeps.bind (stable.record trivial) fun _ => ?_
    dsimp only
    split
    · exact (stable.startEnter _ _).bind fun _ => Keeps.pure _
    next action => exact absurd action type
    · exact Keeps.pure _
    · exact (stable.joinEnter _).bind fun _ => Keeps.pure _
    · exact (stable.failEnter found type).bind fun _ => Keeps.pure _
    · exact (stable.endEnter found type).bind fun _ => Keeps.pure _

/-! ### The instance -/

omit stable in
theorem getNode_name {name : String} {node : JobPlanNode} (found : wf.getNode name = some node) : node.name = name := by
  simpa using List.find?_some found

omit stable in
theorem createNodeHandler {node : JobPlanNode} {rest : NodeHandler → RunM α} {Q : α → Run → Prop}
    {E : Throwable → Run → Prop} (goes : Triple I (rest { jobPlanNode := node }) Q E) :
    Triple I (createNodeHandler (some node) >>= rest) Q E := fun s holds => goes s holds

omit stable in
/-- Only action nodes change their handler on entry. -/
theorem enter_handler {node : JobPlanNode} (type : node.type ≠ .action) :
    Triple (fun _ => True) (NodeHandler.enter env wf { jobPlanNode := node } {})
      (fun result _ => result.2.1 = { jobPlanNode := node }) fun _ _ => True := by
  refine Triple.bind Triple.trivial fun _ => ?_
  dsimp only
  split
  · exact Triple.bind Triple.trivial fun _ => Triple.pure fun _ _ => rfl
  next action => exact absurd action type
  · exact Triple.pure fun _ _ => rfl
  · exact Triple.bind Triple.trivial fun _ => Triple.pure fun _ _ => rfl
  · exact Triple.bind Triple.trivial fun _ => Triple.pure fun _ _ => rfl
  · exact Triple.bind Triple.trivial fun _ => Triple.pure fun _ _ => rfl

theorem processNextNode {signals : String → NodeContext → RunM Unit}
    (inner : ∀ node, wf.getNode node.name = some node → node.type ≠ .action → Keeps I (signals node.name {}))
    (name : Option String) : Keeps I (processNextNode env wf signals name) := by
  unfold Hella.processNextNode
  split
  · exact Keeps.pure _
  next node given =>
    obtain ⟨y, -, found⟩ := Option.bind_eq_some_iff.mp given
    obtain rfl := getNode_name found
    dsimp only
    split
    next passing =>
      refine inner node found fun action => ?_
      rw [action] at passing
      cases passing
    · refine createNodeHandler (Keeps.bind (stable.enter found) fun entered => ?_)
      split
      · exact Keeps.bind (stable.endExit _ _) fun _ => stable.setStatus _
      · split
        · exact Keeps.bind (stable.failExit _) fun _ => stable.setStatus _
        · exact Keeps.pure _

theorem processNextNodes {signals : String → NodeContext → RunM Unit}
    (inner : ∀ node, wf.getNode node.name = some node → node.type ≠ .action → Keeps I (signals node.name {}))
    (node : String) (id : Nat) (exits : Option (List (Option String))) :
    Keeps I (processNextNodes env wf signals node id exits) := by
  refine Keeps.getting.bind fun s => ?_
  split
  · exact Keeps.pure _
  · split
    · exact Keeps.throw _
    · exact Keeps.bind (stable.record trivial) fun _ => Keeps.forM fun name _ => stable.processNextNode inner name

theorem signal (depth : Nat) {name : String} (type : ∀ node, wf.getNode name = some node → node.type ≠ .action) :
    Keeps I (signal env wf depth name {}) := by
  induction depth generalizing name with
  | zero => exact Keeps.throw _
  | succ depth ih =>
    refine Keeps.getting.bind fun s => ?_
    split
    · exact Keeps.pure _
    · refine Keeps.catching ?_ fun _ _ => stable.setStatus _
      cases found : wf.getNode name with
      | none => exact fun _ holds => holds
      | some node =>
        obtain rfl := getNode_name found
        have entered := (stable.enter found).and (enter_handler (type node found))
        refine createNodeHandler (Triple.bind (Q := fun result s => I s ∧ result.2.1 = { jobPlanNode := node }) ?_ ?_)
        · exact entered.conseq (fun _ holds => ⟨holds, trivial⟩) (fun _ _ holds => holds) fun _ _ holds => holds.1
        · rintro ⟨exiting, handler, context⟩
          refine Triple.of_imp (fun same => ?_) fun _ holds => holds.2
          -- no action is signalled, so the handler that leaves is the one that was created
          obtain rfl : handler = { jobPlanNode := node } := same
          refine Triple.conseq (?_ : Keeps I _) (fun _ holds => holds.1) (fun _ _ holds => holds) fun _ _ holds => holds
          dsimp only
          split
          · refine (stable.multiExit node context).bind fun exits => stable.processNextNodes ?_ _ _ _
            exact fun other there passing => ih fun _ again => Option.some.inj (there.symm.trans again) ▸ passing
          · exact Keeps.pure _

theorem start : Keeps I (start env wf) := by
  refine Keeps.getting.bind fun s => ?_
  split
  · exact Keeps.throw _
  · refine Keeps.bind (stable.setStatus _) fun _ => ?_
    split
    · exact Keeps.throw _
    next name given =>
      refine stable.signal _ fun node found action => ?_
      -- the first node is the start node
      obtain ⟨first, same, type⟩ := LiteWorkflowManager.getNode_start given
      cases same.symm.trans found
      cases type.symm.trans action

/-- The invariant may begin with the note of the call. -/
theorem completing {P : Run → Prop} (name : String) (context : NodeContext)
    (noted : ∀ s, P s → I { s with trace := s.trace ++ [.completing name context.xjobStateID] }) :
    Triple P (Hella.completeJobPlanNode env wf name context) (fun _ => I) fun _ => I := by
  refine Triple.bind (Triple.modifying noted) fun _ =>
    Keeps.bind (Keeps.catching ?_ fun _ _ => stable.setStatus _) fun _ => ?_
  · cases found : wf.getNode name with
    | none => exact fun _ holds => holds
    | some node =>
      refine createNodeHandler ((stable.multiExit node context).bind fun exits => stable.processNextNodes ?_ _ _ _)
      exact fun other there passing => stable.signal _ fun _ again => Option.some.inj (there.symm.trans again) ▸ passing
  · refine Keeps.getting.bind fun s => ?_
    split
    · exact stable.onStore fun _ => Store.writes_removeWorkflow _
    · exact Keeps.pure _

theorem completeJobPlanNode (name : String) (context : NodeContext) :
    Keeps I (completeJobPlanNode env wf name context) :=
  stable.completing name context fun s holds => stable.notes s _ trivial holds

end Stable

end Hella

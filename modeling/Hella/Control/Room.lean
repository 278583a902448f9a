import Hella.Control.Refinement
import Hella.Control.Writes

/-!
# Room on the stack

A plan can need more nested `signal` calls than the stack has room for, without end
if start, fork and join nodes form a cycle. `Roomy` excludes that; then nothing gets
out of `completeJobPlanNode`.
-/
namespace Hella

open Exec Text

/-- The node is a start, fork or join node that can name the other as successor. -/
def Leads (node : JobPlanNode) (next : String) : Prop :=
  (node.type = .fork → ∃ toNode, node.toNode = some toNode ∧ next ∈ split toNode) ∧
    (node.type ≠ .fork → node.toNode = some next)

/-- Nested calls of `signal` from the node need no more than the given room. -/
def Fits (wf : Workflow) : Nat → String → Prop
  | 0, _ => False
  | room + 1, name => ∀ node, wf.getNode name = some node → ∀ next, Leads node next →
      ∀ after, wf.getNode next = some after → after.type.isFinalType = false → Fits wf room next

/-- The stack has room for every chain of start, fork and join nodes. -/
def Roomy (env : Env) (wf : Workflow) : Prop :=
  ∀ name node, wf.getNode name = some node → node.type.isFinalType = false → Fits wf env.stackDepth name

variable {env : Env} {wf : Workflow} {s₀ : Store} {node : JobPlanNode}

/-- Entering does not change whose handler it is. -/
theorem enter_handler (env : Env) (wf : Workflow) (handler : NodeHandler) (context : NodeContext) :
    Triple (fun _ => True) (handler.enter env wf context) (fun result _ => result.2.1.jobPlanNode = handler.jobPlanNode)
      (fun _ _ => True) := by
  refine Triple.bind Triple.trivial fun _ => ?_
  split
  · exact Triple.bind Triple.trivial fun _ => Triple.pure fun _ _ => rfl
  · exact Triple.bind Triple.trivial fun _ => Triple.pure fun _ _ => rfl
  · exact Triple.pure fun _ _ => rfl
  · exact Triple.bind Triple.trivial fun _ => Triple.pure fun _ _ => rfl
  · exact Triple.bind Triple.trivial fun _ => Triple.pure fun _ _ => rfl
  · exact Triple.bind Triple.trivial fun _ => Triple.pure fun _ _ => rfl

theorem exits_lead (env : Env) (wf : Workflow) (handler : NodeHandler)
    (passing : handler.jobPlanNode.type.isFinalType = false) (context : NodeContext) :
    Triple (fun _ => True) (handler.multiExit env wf context)
      (fun exits _ => ∀ names, exits = some names → ∀ next, some next ∈ names → Leads handler.jobPlanNode next)
      (fun _ _ => True) := by
  obtain ⟨node, xjobContext⟩ := handler
  dsimp only [NodeHandler.multiExit] at passing ⊢
  -- every node but a fork has one target
  have single (next : String) (names : List (Option String)) (only : some [node.toNode] = some names)
      (other : node.type ≠ .fork) (member : some next ∈ names) : Leads node next := by
    obtain rfl := Option.some.inj only
    exact ⟨fun fork => absurd fork other, fun _ => (List.mem_singleton.mp member).symm⟩
  cases type : node.type with
  | start =>
    refine (startExit_value env wf node context).bind fun target => Triple.pure ?_
    rintro s rfl names only next member
    exact single next names only (by simp [type]) member
  | fork =>
    refine Triple.bind (Q := fun names _ => ∃ toNode, node.toNode = some toNode ∧ names = split toNode) ?_
      fun names => ?_
    · unfold ForkNodeHandler.multiExit
      split
      · exact Triple.throw fun _ _ => trivial
      next toNode given =>
        exact Triple.bind (Q := fun _ _ => True) (Triple.modifying fun _ _ => trivial)
          fun _ => Triple.pure fun _ _ => ⟨toNode, given, rfl⟩
    · refine Triple.pure ?_
      rintro s ⟨toNode, given, rfl⟩ names only next member
      obtain rfl := Option.some.inj only
      -- and a fork those that its paths name
      exact ⟨fun _ => ⟨toNode, given, by simpa using member⟩, fun other => absurd type other⟩
  | join =>
    refine Triple.bind (Q := fun target _ => target = node.toNode) ?_ fun target => Triple.pure ?_
    · exact Triple.bind (Q := fun _ _ => True) (Triple.modifying fun _ _ => trivial) fun _ => Triple.pure fun _ _ => rfl
    · rintro s rfl names only next member
      exact single next names only (by simp [type]) member
  | action => simp [type, JobPlanNodeType.isFinalType] at passing
  | fail => simp [type, JobPlanNodeType.isFinalType] at passing
  | end_ => simp [type, JobPlanNodeType.isFinalType] at passing

/-- With enough room `signal` returns, whatever happens inside it. -/
theorem signal_fits (depth : Nat) {name : String} (context : NodeContext) (fits : Fits wf depth name)
    (found : wf.getNode name = some node) (passing : node.type.isFinalType = false) :
    Guarded (Wrote env s₀) (fun _ => False) (signal env wf depth name context) := by
  induction depth generalizing name node context with
  -- without stack the plan does not fit, so there is nothing to show
  | zero => exact fits.elim
  | succ depth ih =>
    refine Guarded.getting.bind fun s => ?_
    split
    · exact Guarded.pure _
    · refine Guarded.mono (wrote_failing (A := (·.isException = true)) ?_) fun _ both => by simp [both.1] at both
      simp only [found, createNodeHandler, pure_bind]
      have enters := (@wrote_enter env wf s₀ { jobPlanNode := node } context).and
        (enter_handler env wf { jobPlanNode := node } context)
      refine Triple.bind (enters.conseq (fun _ holds => ⟨holds, trivial⟩) (fun _ _ post => post) fun _ _ post => post.1)
        fun entered => ?_
      obtain ⟨exiting, handler, left⟩ := entered
      refine Triple.of_imp (fun (same : handler.jobPlanNode = node) => ?_) fun _ post => post.2
      dsimp only
      split
      · have exits := (@wrote_multiExit env wf s₀ handler left).and
          (exits_lead env wf handler (same ▸ passing) left)
        refine Triple.bind (exits.conseq (fun _ holds => ⟨holds.1, trivial⟩) (fun _ _ post => post)
          fun _ _ post => post.1) fun targets => ?_
        refine Triple.of_imp (fun lead => ?_) fun _ post => post.2
        refine Triple.conseq (wrote_processNextNodes (A := (·.isException = true)) (fun _ exception => exception) ?_)
          (fun _ holds => holds.1) (fun _ _ holds => holds) fun _ _ holds => holds
        intro names given next member after reached onward
        -- a target that is a node of the plan is the one the room is needed for
        obtain ⟨y, rfl, reached⟩ := Option.bind_eq_some_iff.mp reached
        obtain rfl := Workflow.getNode_name reached
        have leads : Leads node after.name := same ▸ lead names given _ member
        -- the next signal has one level less, and that is enough for what follows this node
        exact Guarded.mono (ih {} (fits node found _ leads _ reached onward) reached onward) fun _ absurd => absurd.elim
      · exact Triple.pure fun _ holds => holds.1

/-- With enough room `completeJobPlanNode` returns. -/
theorem completeJobPlanNode_roomy (roomy : Roomy env wf) (name : String) (context : NodeContext) (s : Run) :
    ∃ t, completeJobPlanNode env wf name context s = .ok () t ∧ Store.Writes env s.store t.store := by
  have guarded : Guarded (Wrote env s.store) (fun _ => False) (completeJobPlanNode env wf name context) := by
    refine Guarded.mono (wrote_completeJobPlanNode (fun _ exception => exception) name context ?_) fun _ both => by
      simp [both.1] at both
    intro y node found passing
    have fits := roomy y node found passing
    obtain rfl := Workflow.getNode_name found
    exact Guarded.mono (signal_fits env.stackDepth {} fits found passing) fun _ absurd => absurd.elim
  obtain ⟨⟨⟩, t, returned, wrote⟩ := guarded.returns .refl
  exact ⟨t, returned, wrote⟩

end Hella

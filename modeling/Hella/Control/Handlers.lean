import Hella.Engine.Workflow

/-!
# What a handler leaves alone

Apart from the fork and join handlers, no handler touches the status or the
variables, and the history only gains saved rows and dispatched jobs of their node.
`Saves` and `Neutral` collect what a condition has to tolerate for that, `VarFree`
what it has to tolerate of the fork and join handlers.
-/
namespace Hella

open Exec

/-- A condition that no change of the shared store can break. -/
def StoreFree (I : Run → Prop) : Prop := ∀ s store, I s → I { s with store := store }

/-- A condition that one more entry in the history cannot break. -/
def Accepts (I : Run → Prop) (act : Act) : Prop := ∀ s, I s → I { s with trace := s.trace ++ [act] }

structure Saves (I : Run → Prop) : Prop where
  storeFree : StoreFree I
  added : ∀ id, Accepts I (.added id)

structure Neutral (I : Run → Prop) (name : String) : Prop extends Saves I where
  dispatched : ∀ id event, Accepts I (.dispatched name id event)

/-- A condition that does not depend on the variables and on the entries about them. -/
structure VarFree (I : Run → Prop) : Prop where
  forked : ∀ s vars fork join paths, I s →
    I { s with vars := vars, trace := s.trace ++ [.forked fork join paths] }
  released : ∀ s vars fork join, I s → I { s with vars := vars, trace := s.trace ++ [.released fork join] }

section Rules

variable {I : Run → Prop} {α : Type}

theorem StoreFree.onStore (free : StoreFree I) (body : StoreM α) : Keeps I (onStore body) :=
  Keeps.zoom (J := fun _ => True) (Keeps.of_after fun _ _ => trivial) (fun _ _ => trivial)
    fun s t holds _ => free s t holds

theorem Accepts.record {act : Act} (accepts : Accepts I act) : Keeps I (record act) :=
  Keeps.modifying accepts

theorem Keeps.attempt {body : RunM α} (keeps : Keeps I body) (otherwise : α) :
    Keeps I (attempt body otherwise) := keeps.catching fun _ _ => Keeps.pure otherwise

end Rules

section Handlers

variable {I : Run → Prop} (env : Env) (wf : Workflow)

theorem StoreFree.checkCurrentExecutorKey : Keeps I (checkCurrentExecutorKey wf) := by
  unfold Hella.checkCurrentExecutorKey
  split
  · exact Keeps.throw _
  · exact Keeps.pure _

theorem StoreFree.checkJobProgress (context : NodeContext) : Keeps I (checkJobProgress wf context) := by
  refine (StoreFree.checkCurrentExecutorKey wf).bind fun _ => ?_
  split
  · exact Keeps.throw _
  · split
    · exact Keeps.throw _
    · exact Keeps.pure _

theorem StoreFree.loadXjobState (free : StoreFree I) (id : Nat) : Keeps I (loadXjobState env id) := by
  refine (free.onStore _).bind fun found => ?_
  cases found
  · exact Keeps.throw _
  · exact Keeps.pure _

theorem Saves.addJobState (saves : Saves I) (x : XjobState) : Keeps I (addJobState env x) :=
  (saves.storeFree.onStore _).bind fun saved =>
    (saves.added saved.id).record.bind fun _ => Keeps.pure saved

theorem Neutral.executeXJob {node : JobPlanNode} (neutral : Neutral I node.name) (id : Nat)
    (args : Option String) : Keeps I (executeXJob env wf node id args) :=
  (neutral.storeFree.onStore _).bind fun event => (neutral.dispatched id event).record

theorem Saves.startEnter (saves : Saves I) (node : JobPlanNode) (context : NodeContext) :
    Keeps I (StartNodeHandler.enter env wf node context) := by
  refine (StoreFree.checkCurrentExecutorKey wf).bind fun _ => Keeps.attempt ?_ _
  refine (saves.storeFree.onStore _).bind fun date => ?_
  exact (saves.addJobState env _).bind fun saved => Keeps.pure _

theorem StoreFree.startExit (free : StoreFree I) (node : JobPlanNode) (context : NodeContext) :
    Keeps I (StartNodeHandler.exit env wf node context) := by
  refine (StoreFree.checkJobProgress wf context).bind fun progress => ?_
  refine (free.loadXjobState env _).bind fun row => (free.onStore _).bind fun date => ?_
  have written := Keeps.attempt ((free.onStore (Store.updJobState env
    { row with runTime := some date, jobPlanNodeState :=
        if Text.isBlank node.toNode then .resultError else .resultSuccess })).bind fun _ =>
    free.onStore (Store.changeJobExecutionPlanCurrentXjobState env wf.jobExecutionPlan.id .doing)) ()
  exact written.bind fun _ => Keeps.pure _

theorem Neutral.actionEnter {node : JobPlanNode} (neutral : Neutral I node.name) :
    Keeps I (ActionNodeHandler.enter env wf node) := by
  refine (neutral.storeFree.onStore _).bind fun date => ?_
  refine (Keeps.attempt (neutral.addJobState env _) _).bind fun row => ?_
  refine (neutral.executeXJob env wf _ _).bind fun _ => ?_
  exact (Keeps.attempt (neutral.storeFree.onStore _) _).bind fun _ => Keeps.pure _

/-- On the handler `completeJobPlanNode` creates, `exit` never dispatches: the
retry fails on the null `xjobContext`. -/
theorem StoreFree.actionExit (free : StoreFree I) (node : JobPlanNode) (context : NodeContext) :
    Keeps I (ActionNodeHandler.exit env wf { jobPlanNode := node } context) := by
  refine (StoreFree.checkJobProgress wf context).bind fun progress => ?_
  split
  · exact Keeps.throw _
  · split
    · exact Keeps.throw _
    · refine (free.loadXjobState env _).bind fun row => ?_
      refine (Keeps.attempt (free.onStore _) _).bind fun _ => ?_
      split
      · exact Keeps.pure _
      · split
        · split
          · exact (Keeps.throw _).bind fun _ => Keeps.pure _
          · exact Keeps.pure _
        · exact Keeps.pure _

theorem Neutral.failEnter {node : JobPlanNode} (neutral : Neutral I node.name) :
    Keeps I (FailNodeHandler.enter env wf node) := by
  refine (neutral.storeFree.onStore _).bind fun date => ?_
  refine (neutral.addJobState env _).bind fun saved => ?_
  split
  · have notified := Keeps.attempt ((neutral.executeXJob env wf saved.id wf.args).bind
      fun _ => Keeps.pure true) false
    exact notified.bind fun _ => (neutral.storeFree.onStore _).bind fun _ => Keeps.pure _
  · exact Keeps.pure _

theorem StoreFree.failRunning (free : StoreFree I) (x : XjobState) :
    Keeps I (FailNodeHandler.failRunning env x) := by
  unfold FailNodeHandler.failRunning
  split
  · exact (free.onStore _).bind fun _ => free.onStore _
  · exact Keeps.pure _

theorem StoreFree.failExit (free : StoreFree I) (context : NodeContext) :
    Keeps I (FailNodeHandler.exit env wf context) := by
  refine (StoreFree.checkJobProgress wf context).bind fun progress => ?_
  refine (free.loadXjobState env _).bind fun row => (free.onStore _).bind fun date => ?_
  refine Keeps.bind (Keeps.attempt ?_ _) fun _ => Keeps.pure _
  refine (free.onStore _).bind fun _ => (free.onStore _).bind fun _ => (free.onStore _).bind fun rows => ?_
  exact Keeps.forM fun x _ => free.failRunning env x

theorem Neutral.endEnter {node : JobPlanNode} (neutral : Neutral I node.name) :
    Keeps I (EndNodeHandler.enter env wf node) := by
  have notified (id : Nat) : Keeps I (EndNodeHandler.notify env wf node id) := by
    unfold EndNodeHandler.notify
    split
    · exact (neutral.executeXJob env wf _ _).bind fun _ => Keeps.pure _
    · exact Keeps.pure _
  refine (neutral.storeFree.onStore _).bind fun date => (notified _).bind fun state => ?_
  exact (Keeps.attempt (neutral.addJobState env _) _).bind fun _ => Keeps.pure _

theorem StoreFree.endExit (free : StoreFree I) (node : JobPlanNode) (context : NodeContext) :
    Keeps I (EndNodeHandler.exit env wf node context) := by
  refine (StoreFree.checkJobProgress wf context).bind fun progress => ?_
  refine (free.loadXjobState env _).bind fun row => (free.onStore _).bind fun date => ?_
  refine Keeps.bind (Keeps.attempt ((free.onStore _).bind fun _ => free.onStore _) _) fun _ => ?_
  refine (free.onStore _).bind fun plan => ?_
  split
  · exact Keeps.pure _
  · split
    · exact Keeps.pure _
    · split
      · exact Keeps.pure _
      · exact (free.onStore _).bind fun _ => Keeps.pure _

theorem createNodeHandler_bind {α : Type} {P : Run → Prop} {Q : α → Run → Prop}
    {E : Throwable → Run → Prop} (node : Option JobPlanNode) (rest : NodeHandler → RunM α)
    (missing : node = none → ∀ s, P s → E .nullPointerException s)
    (found : ∀ n, node = some n → Triple P (rest { jobPlanNode := n }) Q E) :
    Triple P (createNodeHandler node >>= rest) Q E := by
  cases node with
  | none => exact fun s holds => missing rfl s holds
  | some n => exact found n rfl

theorem keeps_multiExit (free : StoreFree I) (varFree : VarFree I) (node : JobPlanNode)
    (context : NodeContext) : Keeps I (NodeHandler.multiExit env wf { jobPlanNode := node } context) := by
  dsimp only [NodeHandler.multiExit]
  cases node.type with
  | start => exact (free.startExit env wf node context).bind fun _ => Keeps.pure _
  | action => exact (free.actionExit env wf node context).bind fun _ => Keeps.pure _
  | fork =>
    refine Keeps.bind ?_ fun _ => Keeps.pure _
    unfold ForkNodeHandler.multiExit
    cases node.toNode with
    | none => exact Keeps.throw _
    | some toNode =>
      exact (Keeps.modifying fun s holds => varFree.forked s _ _ _ _ holds).bind fun _ => Keeps.pure _
  | join =>
    refine Keeps.bind ?_ fun _ => Keeps.pure _
    exact (Keeps.modifying fun s holds => varFree.released s _ _ _ holds).bind fun _ => Keeps.pure _
  | fail => exact (free.failExit env wf context).bind fun _ => Keeps.pure _
  | end_ => exact Keeps.pure _

theorem keeps_failing {body : RunM Unit} (keeps : Keeps I body) (fails : Keeps I (setStatus .failed)) :
    Keeps I (failing body) := keeps.catching fun _ _ => fails

/-- Once the status is an end state, `completeJobPlanNode` only exits the node. -/
theorem keeps_completeJobPlanNode_ended (name : String) (context : NodeContext)
    (ended : ∀ s, I s → s.status.isEndState = true) (free : StoreFree I) (varFree : VarFree I)
    (completing : Accepts I (.completing name context.xjobStateID))
    (fails : Keeps I (setStatus .failed)) : Keeps I (completeJobPlanNode env wf name context) := by
  have stops (exits : Option (List (Option String))) (node : String) (id : Nat) :
      Keeps I (processNextNodes env wf (signal env wf env.stackDepth) node id exits) := by
    intro s holds
    simp only [processNextNodes, bind_apply, get_apply, ended s holds, if_true]
    exact holds
  refine completing.record.bind fun _ => (keeps_failing ?_ fails).bind fun _ => ?_
  · refine createNodeHandler_bind _ _ (fun _ _ holds => holds) fun node _ => ?_
    exact (keeps_multiExit env wf free varFree node context).bind fun exits => stops exits _ _
  · refine Keeps.getting.bind fun s => ?_
    split
    · exact free.onStore _
    · exact Keeps.pure _

end Handlers

end Hella

import Hella.Control.History
import Hella.Control.Room

/-!
# What a join does at once

A join is entered, reads its counter and either lowers it or is left for its successor,
and nothing else gets into the history meanwhile. `Walk` reads the history of an instance
act by act and says where it is with a join; between two calls it is with none.
-/
namespace Hella

open Exec Text

/-- Where an instance is with a join. -/
inductive Phase where
  | outside
  | entered (join : String)
  | counting (join : String)
  | released (join : String)
  /-- the successor is entered next -/
  | bound (next : String)
  deriving DecidableEq

/-- An act that is not about a join, entries apart. -/
def Act.Routine : Act → Prop
  | .entered _ | .peeked _ _ | .arrived _ _ _ | .released _ _ => False
  | _ => True

section Walks

variable (wf : Workflow)

/-- A successor that is a node of the plan is entered next. -/
def onward (toNode : Option String) : Phase :=
  match toNode.bind wf.getNode with
  | some next => .bound next.name
  | none => .outside

/-- A node may be entered here. -/
def Phase.Admits (name : String) (phase : Phase) : Prop := phase = .outside ∨ phase = .bound name

/-- Where an instance is after a history. -/
inductive Walk : Phase → List Act → Prop where
  | nil : Walk .outside []
  | notes {trace act} (before : Walk .outside trace) (routine : act.Routine) : Walk .outside (trace ++ [act])
  | enters {phase trace name node} (before : Walk phase trace) (admits : phase.Admits name)
      (found : wf.getNode name = some node) (other : node.type ≠ .join) : Walk .outside (trace ++ [.entered name])
  | reaches {phase trace name node} (before : Walk phase trace) (admits : phase.Admits name)
      (found : wf.getNode name = some node) (type : node.type = .join) : Walk (.entered name) (trace ++ [.entered name])
  | peeks {trace name node} (before : Walk (.entered name) trace) (found : wf.getNode name = some node) :
    Walk (.counting name) (trace ++ [.peeked (orNull node.forkName) name])
  | arrives {trace name node left} (before : Walk (.counting name) trace) (found : wf.getNode name = some node)
      (counted : counter trace (orNull node.forkName) name = some ((left + 1 : Nat) : Int)) (positive : 0 < left) :
    Walk .outside (trace ++ [.arrived (orNull node.forkName) name left])
  | releases {trace name node} (before : Walk (.counting name) trace) (found : wf.getNode name = some node)
      (counted : counter trace (orNull node.forkName) name = some 1) :
    Walk (.released name) (trace ++ [.released (orNull node.forkName) name])
  | passes {trace name node} (before : Walk (.released name) trace) (found : wf.getNode name = some node) (id : Nat) :
    Walk (onward wf node.toNode) (trace ++ [.passed name id [node.toNode]])
  /-- without a positive counter the join goes no further -/
  | stalls {trace name node} (before : Walk (.counting name) trace) (found : wf.getNode name = some node)
      (spent : ∀ count, counter trace (orNull node.forkName) name = some count → count ≤ 0) : Walk .outside trace

/-- An instance whose variables are those of its history, at a phase. -/
def Stands (phase : Phase) (s : Run) : Prop := s.vars = varsOf s.trace ∧ Walk wf phase s.trace

end Walks

section Handlers

variable {env : Env} {wf : Workflow} {phase : Phase} {name : String} {node : JobPlanNode} {s : Run}

theorem Stands.note {act : Act} (stands : Stands wf .outside s) (routine : act.Routine)
    (plain : act.write s.vars = s.vars) : Stands wf .outside { s with trace := s.trace ++ [act] } := by
  refine ⟨?_, .notes stands.2 routine⟩
  rw [varsOf_append, ← stands.1, plain]

theorem Stands.neutral (wf : Workflow) (name : String) : Neutral (Stands wf .outside) name where
  storeFree := fun _ _ stands => stands
  added := fun _ _ stands => stands.note trivial rfl
  dispatched := fun _ _ _ stands => stands.note trivial rfl

theorem setStatus_stands (status : WorkflowStatus) : Keeps (Stands wf .outside) (setStatus status) :=
  Keeps.modifying fun s stands => Stands.note (s := { s with status := status }) stands trivial rfl

/-- A node that is no join is entered from outside or on the way from a join. -/
theorem enters_stands (found : wf.getNode name = some node) (other : node.type ≠ .join) (admits : phase.Admits name) :
    Triple (fun s => Stands wf phase s ∧ s.status = status) (record (.entered node.name))
      (fun _ s => Stands wf .outside s ∧ s.status = status) (fun _ => Stands wf .outside) := by
  refine Triple.modifying fun s pre => ⟨⟨?_, ?_⟩, pre.2⟩
  · rw [varsOf_append]
    exact pre.1.1
  · rw [Workflow.getNode_name found]
    exact .enters pre.1.2 admits found other

/-- What the handler of a join reads is the counter of the history. -/
theorem Stands.counter_eq {t : Run} (stands : Stands wf phase t) (fork join : String) :
    counter t.trace fork join = (t.vars.lookup (fork ++ join)).bind parseInt := by
  rw [counter, ← stands.1]
  rfl

/-- The join reads its counter and lowers it, is left, or stops. -/
theorem joinEnter_stands (found : wf.getNode name = some node) :
    Triple (fun s => Stands wf (.entered name) s ∧ s.status = .running) (JoinNodeHandler.enter node)
      (fun exiting s => if exiting then Stands wf (.counting name) s ∧ s.status = .running ∧
          counter s.trace (orNull node.forkName) name = some 1
        else Stands wf .outside s)
      (fun _ => Stands wf .outside) := by
  refine Triple.bind (Q := fun _ s => Stands wf (.counting name) s ∧ s.status = .running) ?_ fun _ => ?_
  · refine Triple.modifying fun s pre => ⟨⟨?_, ?_⟩, pre.2⟩
    · rw [varsOf_append]
      exact pre.1.1
    · rw [Workflow.getNode_name found]
      exact .peeks pre.1.2 found
  rw [Workflow.getNode_name found]
  refine Triple.bind (Q := fun s t => s = t ∧ Stands wf (.counting name) t ∧ t.status = .running)
    (Triple.getting fun s pre => ⟨rfl, pre⟩) fun s => ?_
  cases value : s.vars.lookup (orNull node.forkName ++ name) with
  | none =>
    refine Triple.throw ?_
    rintro _ ⟨rfl, stands, -⟩
    exact ⟨stands.1, .stalls stands.2 found fun count counted => by simp [stands.counter_eq, value] at counted⟩
  | some text =>
    dsimp only
    cases number : parseInt text with
    | none =>
      refine Triple.throw ?_
      rintro _ ⟨rfl, stands, -⟩
      exact ⟨stands.1, .stalls stands.2 found fun count counted => by
        simp [stands.counter_eq, value, number] at counted⟩
    | some forks =>
      have counted (t : Run) (same : s = t) (stands : Stands wf (.counting name) t) :
          counter t.trace (orNull node.forkName) name = some forks := by
        rw [stands.counter_eq, ← same, value, Option.bind_some, number]
      dsimp only
      split
      next positive =>
        refine Triple.bind (Q := fun _ => Stands wf .outside) (Triple.modifying ?_)
          fun _ => Triple.pure fun _ stands => stands
        rintro t ⟨same, stands, -⟩
        obtain ⟨left, rfl⟩ : ∃ left : Nat, forks = ((left + 1 : Nat) : Int) := ⟨(forks - 1).toNat, by omega⟩
        have lowered : (((left + 1 : Nat) : Int) - 1).toNat = left := by omega
        have text_eq : toString (((left + 1 : Nat) : Int) - 1) = toString left := by
          rw [show ((left + 1 : Nat) : Int) - 1 = (left : Int) by omega]
          rfl
        rw [text_eq, lowered]
        refine ⟨?_, .arrives stands.2 found (counted t same stands) (by omega)⟩
        rw [varsOf_append, ← stands.1]
        rfl
      next low =>
        refine Triple.pure ?_
        rintro t ⟨same, stands, running⟩
        by_cases last : forks - 1 = 0
        · obtain rfl : forks = 1 := by omega
          simpa using ⟨stands, running, counted t same stands⟩
        · have spent : ∀ count, counter t.trace (orNull node.forkName) name = some count → count ≤ 0 := by
            intro count same'
            cases same'.symm.trans (counted t same stands)
            omega
          simpa [last] using ⟨stands.1, Walk.stalls stands.2 found spent⟩

/-- What a node that is to be left at once has reached. -/
def Leavable (wf : Workflow) (node : JobPlanNode) (s : Run) : Prop :=
  if node.type = .join then Stands wf (.counting node.name) s ∧ s.status = .running ∧
    counter s.trace (orNull node.forkName) node.name = some 1
  else Stands wf .outside s

theorem enter_stands (found : wf.getNode name = some node) (passing : node.type.isFinalType = false)
    (admits : phase.Admits name) (context : NodeContext) :
    Triple (fun s => Stands wf phase s ∧ s.status = .running)
      (NodeHandler.enter env wf { jobPlanNode := node } context)
      (fun result s => result.2.1 = { jobPlanNode := node } ∧
        if result.1 then Leavable wf node s else Stands wf .outside s)
      (fun _ => Stands wf .outside) := by
  have same := Workflow.getNode_name found
  by_cases type : node.type = .join
  · unfold NodeHandler.enter
    simp only [type]
    refine Triple.bind (Q := fun _ s => Stands wf (.entered name) s ∧ s.status = .running) ?_ fun _ => ?_
    · refine Triple.modifying fun s pre => ⟨⟨?_, ?_⟩, pre.2⟩
      · rw [varsOf_append]
        exact pre.1.1
      · rw [same]
        exact .reaches pre.1.2 admits found type
    · refine Triple.bind (joinEnter_stands found) fun exiting => Triple.pure fun s post => ⟨rfl, ?_⟩
      cases exiting
      · exact post
      · simpa [Leavable, type, same] using post
  · have enters : Triple (fun s => Stands wf phase s ∧ s.status = .running) (record (.entered node.name))
        (fun _ s => Stands wf .outside s ∧ s.status = .running) (fun _ => Stands wf .outside) :=
      enters_stands found type admits
    refine Triple.bind (enters.conseq (fun _ pre => pre) (fun _ _ post => post.1) fun _ _ post => post) fun _ => ?_
    have neutral := Stands.neutral wf node.name
    dsimp only
    cases kind : node.type with
    | start =>
      refine Triple.bind (neutral.startEnter env wf node context) fun result => Triple.pure fun s post => ⟨rfl, ?_⟩
      simpa [Leavable, kind] using post
    | fork => exact Triple.pure fun s post => ⟨rfl, by simpa [Leavable, kind] using post⟩
    | join => exact absurd kind type
    | action | fail | end_ => simp [kind, JobPlanNodeType.isFinalType] at passing

/-- What has been named, and where that leaves the instance. -/
def Exited (wf : Workflow) (node : JobPlanNode) (targets : List (Option String)) (s : Run) : Prop :=
  if node.type = .join then Stands wf (.released node.name) s ∧ s.status = .running ∧ targets = [node.toNode]
  else Stands wf .outside s

theorem multiExit_stands (found : wf.getNode node.name = some node) (passing : node.type.isFinalType = false)
    (context : NodeContext) :
    Triple (Leavable wf node) (NodeHandler.multiExit env wf { jobPlanNode := node } context)
      (fun exits s => ∃ targets, exits = some targets ∧ Exited wf node targets s) (fun _ => Stands wf .outside) := by
  have free := (Stands.neutral wf node.name).storeFree
  unfold NodeHandler.multiExit
  dsimp only
  cases type : node.type with
  | start =>
    refine Triple.bind ((free.startExit env wf node context).under fun s ready => by simpa [Leavable, type] using ready)
      fun target => Triple.pure fun s stands => ⟨_, rfl, by simpa [Exited, type] using stands⟩
  | fork =>
    refine Triple.bind (Q := fun _ => Stands wf .outside) ?_
      fun names => Triple.pure fun s stands => ⟨_, rfl, by simpa [Exited, type] using stands⟩
    have leavable (s : Run) (ready : Leavable wf node s) : Stands wf .outside s := by simpa [Leavable, type] using ready
    unfold ForkNodeHandler.multiExit
    split
    · exact Triple.throw leavable
    · refine Triple.bind (Triple.modifying fun s ready => ?_) fun _ => Triple.pure fun _ stands => stands
      have stands := leavable s ready
      refine ⟨?_, .notes stands.2 trivial⟩
      rw [varsOf_append, ← stands.1]
      rfl
  | join =>
    simp only [JoinNodeHandler.exit, bind_assoc, pure_bind]
    refine Triple.bind (Q := fun _ s => Stands wf (.released node.name) s ∧ s.status = .running)
      (Triple.modifying fun s ready => ?_) fun _ => Triple.pure fun s post =>
        ⟨_, rfl, by simpa [Exited, type] using post⟩
    simp only [Leavable, type, if_true] at ready
    obtain ⟨stands, running, counted⟩ := ready
    refine ⟨⟨?_, .releases stands.2 found counted⟩, running⟩
    rw [varsOf_append, ← stands.1]
    rfl
  | action | fail | end_ => simp [type, JobPlanNodeType.isFinalType] at passing

/-! ### Successors -/

variable {signals : String → NodeContext → RunM Unit}

/-- What `signal` does for the nodes that fit on the stack: it is back outside, and on the
way from a join it enters the node first. -/
def Enters (wf : Workflow) (fits : String → Prop) (signals : String → NodeContext → RunM Unit) : Prop :=
  ∀ phase name node context, wf.getNode name = some node → node.type.isFinalType = false → fits name →
    phase.Admits name → Triple (fun s => Stands wf phase s ∧ (phase ≠ .outside → s.status = .running))
      (signals name context) (fun _ => Stands wf .outside) (fun _ => Stands wf .outside)

/-- One successor, on the way from a join or not. -/
theorem processNextNode_stands {fits : String → Prop} (spec : Enters wf fits signals) (target : Option String)
    (phase : Phase) (reaches : phase = .outside ∨ phase = onward wf target)
    (room : ∀ node, target.bind wf.getNode = some node → node.type.isFinalType = false → fits node.name) :
    Triple (fun s => Stands wf phase s ∧ (phase ≠ .outside → s.status = .running))
      (processNextNode env wf signals target)
      (fun _ => Stands wf .outside) (fun _ => Stands wf .outside) := by
  unfold processNextNode
  cases found : target.bind wf.getNode with
  | none =>
    refine Triple.pure fun s pre => ?_
    obtain rfl : phase = .outside := by simpa [onward, found] using reaches
    exact pre.1
  | some node =>
    have named : wf.getNode node.name = some node := by
      obtain ⟨y, -, reached⟩ := Option.bind_eq_some_iff.mp found
      rwa [Workflow.getNode_name reached]
    have admits : phase.Admits node.name := by simpa [Phase.Admits, onward, found] using reaches
    dsimp only
    split
    next passing =>
      have passing : node.type.isFinalType = false := by simpa using passing
      exact spec phase node.name node {} named passing (room node found passing) admits
    next final =>
      have final : node.type.isFinalType = true := by simpa using final
      have other : node.type ≠ .join := fun join => by simp [join, JobPlanNodeType.isFinalType] at final
      have neutral := Stands.neutral wf node.name
      have free := neutral.storeFree
      refine createNodeHandler_bind _ _ (fun missing => by cases missing) fun n same => ?_
      obtain rfl := Option.some.inj same
      refine Triple.bind (Q := fun _ => Stands wf .outside) ?_ fun result => ?_
      · refine Triple.bind (Q := fun _ => Stands wf .outside) (Triple.modifying fun s pre => ?_) fun _ => ?_
        · refine ⟨?_, .enters pre.1.2 admits named other⟩
          rw [varsOf_append]
          exact pre.1.1
        · cases kind : node.type with
          | action => exact (neutral.actionEnter env wf).bind fun _ => Keeps.pure _
          | fail => exact (neutral.failEnter env wf).bind fun _ => Keeps.pure _
          | end_ => exact (neutral.endEnter env wf).bind fun _ => Keeps.pure _
          | start | fork | join => simp [kind, JobPlanNodeType.isFinalType] at final
      · split
        · exact Keeps.bind (free.endExit env wf node _) fun _ => setStatus_stands _
        · split
          · exact Keeps.bind (free.failExit env wf _) fun _ => setStatus_stands _
          · exact Keeps.pure _

theorem processNextNodes_stands {fits : String → Prop} (spec : Enters wf fits signals)
    (found : wf.getNode node.name = some node) (id : Nat) (targets : List (Option String))
    (room : ∀ target ∈ targets, ∀ next, target.bind wf.getNode = some next → next.type.isFinalType = false →
      fits next.name) :
    Triple (Exited wf node targets) (processNextNodes env wf signals node.name id (some targets))
      (fun _ => Stands wf .outside) (fun _ => Stands wf .outside) := by
  by_cases type : node.type = .join
  · refine Triple.of_imp (p := targets = [node.toNode]) ?_ fun s named => by
      simp only [Exited, type, if_true] at named
      exact named.2.2
    rintro rfl
    refine Triple.bind (Q := fun s t => s = t ∧ Stands wf (.released node.name) t ∧ t.status = .running)
      (Triple.getting fun s named => ?_) fun s => ?_
    · simp only [Exited, type, if_true] at named
      exact ⟨rfl, named.1, named.2.1⟩
    refine Triple.of_imp (p := s.status = .running) (fun running => ?_) ?_
    · have live : s.status.isEndState = false := by rw [running]; rfl
      simp only [live, Bool.false_eq_true, if_false]
      refine Triple.bind (Q := fun _ s => Stands wf (onward wf node.toNode) s ∧
        (onward wf node.toNode ≠ .outside → s.status = .running)) (Triple.modifying ?_) fun _ => ?_
      · rintro _ ⟨rfl, stands, running⟩
        refine ⟨⟨?_, .passes stands.2 found id⟩, fun _ => running⟩
        rw [varsOf_append]
        exact stands.1
      · exact Triple.bind (processNextNode_stands spec node.toNode _ (.inr rfl) (room _ List.mem_cons_self))
          fun _ => Keeps.pure _
    · rintro _ ⟨rfl, -, running⟩
      exact running
  · have keeps : Keeps (Stands wf .outside) (processNextNodes env wf signals node.name id (some targets)) := by
      refine Keeps.getting.bind fun s => ?_
      split
      · exact Keeps.pure _
      · refine Keeps.bind (Keeps.modifying fun s stands => stands.note trivial rfl) fun _ =>
          Keeps.forM fun target member => ?_
        exact (processNextNode_stands spec target .outside (.inl rfl) (room target member)).conseq
          (fun s stands => ⟨stands, fun absurd_ => (absurd_ rfl).elim⟩) (fun _ _ post => post) fun _ _ post => post
    exact keeps.conseq (fun s named => by simpa [Exited, type] using named) (fun _ _ post => post) fun _ _ post => post

/-- `signal` for a node that fits. -/
theorem signal_stands (depth : Nat) : Enters wf (Fits wf depth) (signal env wf depth) := by
  -- the recursion is on the depth of nested calls, the successors go through the hypothesis
  induction depth with
  | zero => exact fun _ _ _ _ _ _ fits => fits.elim
  | succ depth ih =>
    intro phase name node context found passing fits admits
    refine Triple.bind (Q := fun s t => s = t ∧ Stands wf phase t ∧ (phase ≠ .outside → t.status = .running))
      (Triple.getting fun s pre => ⟨rfl, pre⟩) fun s => ?_
    split
    -- a node that is bound to be entered is entered while the workflow runs
    next stopped =>
      refine Triple.pure ?_
      rintro _ ⟨rfl, stands, running⟩
      by_cases outside : phase = .outside
      · exact outside ▸ stands
      · exact absurd (running outside) stopped
    next running =>
      have running : s.status = .running := by simpa using running
      refine Triple.catching (F := fun _ => Stands wf .outside) ?_ (fun _ _ => setStatus_stands _)
        fun _ _ _ stands => stands
      rw [found]
      refine createNodeHandler_bind _ _ (fun missing => by cases missing) fun n same => ?_
      obtain rfl := Option.some.inj same
      refine Triple.bind ((enter_stands found passing admits context).conseq ?_ (fun _ _ post => post)
        fun _ _ post => post) fun result => ?_
      · rintro _ ⟨rfl, stands, -⟩
        exact ⟨stands, running⟩
      obtain ⟨exiting, handler, context⟩ := result
      refine Triple.of_imp ?_ fun s post => post.1
      rintro rfl
      obtain rfl := Workflow.getNode_name found
      cases exiting with
      | false => exact Triple.pure fun s post => post.2
      | true =>
        have leads := exits_lead env wf { jobPlanNode := node } passing context
        refine Triple.bind (((multiExit_stands found passing context).and leads).conseq
          (fun s post => ⟨post.2, trivial⟩)
          (fun _ _ post => post) fun _ _ post => post.1) fun exits => ?_
        refine Triple.of_imp (p := ∃ targets, exits = some targets) ?_ fun s post => ⟨_, post.1.choose_spec.1⟩
        rintro ⟨targets, rfl⟩
        refine Triple.of_imp (fun lead => ?_) fun s post => post.2
        refine (processNextNodes_stands ih found context.xjobStateID targets ?_).conseq ?_ (fun _ _ post => post)
          fun _ _ post => post
        · intro target member next reached onward_
          obtain ⟨y, rfl, reached⟩ := Option.bind_eq_some_iff.mp reached
          obtain rfl := Workflow.getNode_name reached
          exact fits node found _ (lead targets rfl _ member) next reached onward_
        · rintro s ⟨⟨_, same, named⟩, -⟩
          exact Option.some.inj same ▸ named

/-! ### Calls -/

theorem start_stands (roomy : Roomy env wf) : Keeps (Stands wf .outside) (start env wf) := by
  refine Triple.bind (Q := fun s t => s = t ∧ Stands wf .outside t) (Triple.getting fun s stands => ⟨rfl, stands⟩)
    fun s => ?_
  split
  · exact Triple.throw fun _ pre => pre.2
  · refine Triple.bind ((setStatus_stands .running).under fun _ pre => pre.2) fun _ => ?_
    cases found : wf.workflowManager.getStartNodeName with
    | none => exact Keeps.throw _
    | some name =>
      obtain ⟨node, exists_, type⟩ := LiteWorkflowManager.getNode_start found
      have passing : node.type.isFinalType = false := by rw [type]; rfl
      exact (signal_stands env.stackDepth .outside name node {} exists_ passing (roomy name node exists_ passing)
        (.inl rfl)).conseq (fun s stands => ⟨stands, fun absurd_ => (absurd_ rfl).elim⟩) (fun _ _ post => post)
        fun _ _ post => post

/-- A report for a node that runs jobs is handled outside of the joins. -/
theorem completeJobPlanNode_stands (roomy : Roomy env wf) {name : String} (found : wf.getNode name = some node)
    (final : node.type.isFinalType = true) (context : NodeContext) :
    Keeps (Stands wf .outside) (completeJobPlanNode env wf name context) := by
  obtain rfl := Workflow.getNode_name found
  have free := (Stands.neutral wf node.name).storeFree
  have other : node.type ≠ .join := fun join => by simp [join, JobPlanNodeType.isFinalType] at final
  refine Keeps.bind (Keeps.modifying fun s stands => stands.note trivial rfl) fun _ => ?_
  refine Keeps.bind (keeps_failing ?_ (setStatus_stands _)) fun _ => Keeps.getting.bind fun s => ?_
  · rw [found]
    refine createNodeHandler_bind _ _ (fun missing => by cases missing) fun n same => ?_
    obtain rfl := Option.some.inj same
    refine Keeps.bind ?_ fun exits => ?_
    · dsimp only [NodeHandler.multiExit]
      cases kind : node.type with
      | action => exact (free.actionExit env wf node context).bind fun _ => Keeps.pure _
      | fail => exact (free.failExit env wf context).bind fun _ => Keeps.pure _
      | end_ => exact Keeps.pure _
      | start | fork | join => simp [kind, JobPlanNodeType.isFinalType] at final
    · cases exits with
      | none =>
        refine Keeps.getting.bind fun s => ?_
        split
        · exact Keeps.pure _
        · exact Keeps.throw _
      | some targets =>
        refine Triple.conseq (processNextNodes_stands
          (signal_stands env.stackDepth) found context.xjobStateID targets ?_)
          (fun s stands => by simpa [Exited, other] using stands) (fun _ _ post => post) fun _ _ post => post
        intro target _ next reached passing
        obtain ⟨y, rfl, reached⟩ := Option.bind_eq_some_iff.mp reached
        obtain rfl := Workflow.getNode_name reached
        exact roomy next.name next reached passing
  · split
    · exact free.onStore _
    · exact Keeps.pure _

/-- Between two calls an instance is with no join. -/
theorem Reaches.outside {world : Store → Store → Prop} {guard : Run → String → NodeContext → Prop}
    (roomy : Roomy env wf) (reaches : Reaches env wf world guard s)
    (final : ∀ s name context, guard s name context → ∃ node, wf.getNode name = some node ∧
      node.type.isFinalType = true) :
    Stands wf .outside s := by
  induction reaches with
  | initial store => exact ⟨rfl, .nil⟩
  | starting before ih => exact (start_stands roomy).after ih
  | completing before allows ih =>
    obtain ⟨node, found, type⟩ := final _ _ _ allows
    exact (completeJobPlanNode_stands roomy found type _).after ih
  | elsewhere before changes ih => exact ih

end Handlers

/-! ### Reading a walk -/

section Reading

variable {wf : Workflow} {phase : Phase} {trace before after : List Act} {name : String} {node : JobPlanNode}

/-- What follows the entry of a join, by the counter it found. -/
inductive Handled (wf : Workflow) (before : List Act) (name : String) (node : JobPlanNode) : List Act → Prop where
  | lowered (left : Nat) (counted : counter before (orNull node.forkName) name = some ((left + 1 : Nat) : Int))
      (positive : 0 < left) (more : List Act) : Handled wf before name node
        (.peeked (orNull node.forkName) name :: .arrived (orNull node.forkName) name left :: more)
  | gone (counted : counter before (orNull node.forkName) name = some 1) (id : Nat) (more : List Act)
      (next : ∀ next, node.toNode.bind wf.getNode = some next → ∃ rest, more = .entered next.name :: rest) :
    Handled wf before name node (.peeked (orNull node.forkName) name :: .released (orNull node.forkName) name ::
      .passed name id [node.toNode] :: more)
  | stalled (spent : ∀ count, counter before (orNull node.forkName) name = some count → count ≤ 0)
      (more : List Act) : Handled wf before name node (.peeked (orNull node.forkName) name :: more)

theorem Handled.more (handled : Handled wf before name node after) (act : Act) :
    Handled wf before name node (after ++ [act]) := by
  cases handled with
  | lowered left counted positive more => exact .lowered left counted positive (more ++ [act])
  | gone counted id more next =>
    refine .gone counted id (more ++ [act]) fun target reached => ?_
    obtain ⟨rest, rfl⟩ := next target reached
    exact ⟨rest ++ [act], rfl⟩
  | stalled spent more => exact .stalled spent (more ++ [act])

/-- What has followed so far while the instance is still with the join. -/
inductive Handling (wf : Workflow) (before : List Act) (name : String) (node : JobPlanNode) :
  Phase → List Act → Prop where
  | entered : Handling wf before name node (.entered name) []
  | peeked : Handling wf before name node (.counting name) [.peeked (orNull node.forkName) name]
  | released (counted : counter before (orNull node.forkName) name = some 1) :
    Handling wf before name node (.released name)
      [.peeked (orNull node.forkName) name, .released (orNull node.forkName) name]
  | passed {next : JobPlanNode} (counted : counter before (orNull node.forkName) name = some 1) (id : Nat)
      (reached : node.toNode.bind wf.getNode = some next) : Handling wf before name node (.bound next.name)
      [.peeked (orNull node.forkName) name, .released (orNull node.forkName) name, .passed name id [node.toNode]]

/-- An entry ends the way from a join to its successor. -/
theorem Handling.enters {next : String} (handling : Handling wf before name node phase after)
    (admits : phase.Admits next) : Handled wf before name node (after ++ [.entered next]) := by
  cases handling with
  | entered | peeked | released => simp [Phase.Admits] at admits
  | @passed target counted id reached =>
    obtain rfl : target.name = next := by simpa [Phase.Admits] using admits
    refine .gone counted id [.entered target.name] fun other same => ?_
    cases same.symm.trans reached
    exact ⟨[], rfl⟩

/-- Between the entry of a join and its look at the counter no counter changes. -/
theorem counter_inside (before : List Act) (name other fork join f : String) :
    counter (before ++ .entered name :: [.peeked f other]) fork join = counter before fork join := by
  rw [show before ++ .entered name :: [.peeked f other] = before ++ [.entered name] ++ [.peeked f other] by simp]
  simp only [counter, varsOf_append]
  rfl

/-- The last act of a history is the entry itself or comes after it. -/
theorem last_cut {act : Act} (whole : trace ++ [act] = before ++ .entered name :: after) :
    (trace = before ∧ act = .entered name ∧ after = []) ∨
      ∃ front, after = front ++ [act] ∧ trace = before ++ .entered name :: front := by
  rcases List.eq_nil_or_concat after with rfl | ⟨front, last, rfl⟩
  · exact .inl ⟨List.append_inj_left' whole rfl, by simpa using List.append_inj_right' whole rfl, rfl⟩
  · rw [List.concat_eq_append, ← List.cons_append, ← List.append_assoc] at whole
    obtain rfl : act = last := by simpa using List.append_inj_right' whole rfl
    exact .inr ⟨front, by simp, List.append_inj_left' whole rfl⟩

/-- An act that is no such entry comes after it. -/
theorem cut_after {act : Act} (whole : trace ++ [act] = before ++ .entered name :: after)
    (other : act ≠ .entered name) : ∃ front, after = front ++ [act] ∧ trace = before ++ .entered name :: front :=
  (last_cut whole).resolve_left fun last => other last.2.1

theorem Walk.handling (walk : Walk wf phase trace) (whole : trace = before ++ .entered name :: after)
    (found : wf.getNode name = some node) (type : node.type = .join) :
    Handling wf before name node phase after ∨ Handled wf before name node after := by
  induction walk generalizing after with
  | nil => simp at whole
  | notes _ routine ih =>
    obtain ⟨front, rfl, rest⟩ := cut_after whole (by rintro rfl; exact routine.elim)
    obtain handling | handled := ih rest
    · cases handling
    · exact .inr (handled.more _)
  | enters _ admits entered other ih =>
    obtain ⟨-, same, -⟩ | ⟨front, rfl, rest⟩ := last_cut whole
    · cases same
      cases found.symm.trans entered
      exact absurd type other
    · exact .inr ((ih rest).elim (·.enters admits) (·.more _))
  | reaches _ admits _ _ ih =>
    obtain ⟨-, same, rfl⟩ | ⟨front, rfl, rest⟩ := last_cut whole
    · cases same
      exact .inl .entered
    · exact .inr ((ih rest).elim (·.enters admits) (·.more _))
  | peeks _ entered ih =>
    obtain ⟨front, rfl, rest⟩ := cut_after whole (by simp)
    obtain handling | handled := ih rest
    · cases handling
      cases found.symm.trans entered
      exact .inl .peeked
    · exact .inr (handled.more _)
  | arrives _ entered counted positive ih =>
    obtain ⟨front, rfl, rest⟩ := cut_after whole (by simp)
    obtain handling | handled := ih rest
    · cases handling
      cases found.symm.trans entered
      rw [rest, counter_inside] at counted
      exact .inr (.lowered _ counted positive [])
    · exact .inr (handled.more _)
  | releases _ entered counted ih =>
    obtain ⟨front, rfl, rest⟩ := cut_after whole (by simp)
    obtain handling | handled := ih rest
    · cases handling
      cases found.symm.trans entered
      rw [rest, counter_inside] at counted
      exact .inl (.released counted)
    · exact .inr (handled.more _)
  | passes _ entered id ih =>
    obtain ⟨front, rfl, rest⟩ := cut_after whole (by simp)
    obtain handling | handled := ih rest
    · cases handling with
      | released counted =>
        cases found.symm.trans entered
        cases reached : node.toNode.bind wf.getNode with
        | none => exact .inr (.gone counted id [] fun next same => by simp [reached] at same)
        | some next =>
          have heading : onward wf node.toNode = .bound next.name := by simp [onward, reached]
          exact .inl (heading ▸ .passed counted id reached)
    · exact .inr (handled.more _)
  | stalls _ entered spent ih =>
    obtain handling | handled := ih whole
    · cases handling
      cases found.symm.trans entered
      refine .inr (.stalled (fun count counted => spent count ?_) [])
      rw [whole, counter_inside]
      exact counted
    · exact .inr handled

/-- Where an instance is with no join, every entry of a join has been dealt with. -/
theorem Walk.handled (walk : Walk wf .outside trace) (whole : trace = before ++ .entered name :: after)
    (found : wf.getNode name = some node) (type : node.type = .join) : Handled wf before name node after := by
  obtain handling | handled := walk.handling whole found type
  · cases handling
  · exact handled

/-- An instance was somewhere after every part of its history. -/
theorem Walk.of_append (walk : Walk wf phase (before ++ after)) : ∃ phase, Walk wf phase before := by
  induction after using List.reverseRecOn generalizing phase with
  | nil => exact ⟨phase, by simpa using walk⟩
  | append_singleton after act ih =>
    rw [← List.append_assoc] at walk
    generalize whole : before ++ after ++ [act] = trace at walk
    have shorter : ∃ phase, Walk wf phase (before ++ after) := by
      induction walk with
      | nil => simp at whole
      | stalls _ _ _ ih => exact ih whole
      | notes earlier | enters earlier | reaches earlier | peeks earlier | arrives earlier | releases earlier
      | passes earlier => exact ⟨_, List.append_inj_left' whole rfl ▸ earlier⟩
    exact shorter.elim fun _ earlier => ih earlier

/-- With a join an instance has just entered it or looked at its counter. -/
theorem Walk.getLast? (walk : Walk wf phase trace) :
    (phase = .entered name → trace.getLast? = some (.entered name)) ∧
      (phase = .counting name → ∃ fork, trace.getLast? = some (.peeked fork name)) := by
  cases walk with
  | reaches => simp
  | peeks => simp
  | passes => unfold onward; split <;> simp
  | _ => simp

end Reading

end Hella

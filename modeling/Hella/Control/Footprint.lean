import Hella.Control.Calm
import Hella.Control.Room

/-!
# A rule for the writes of one run

A run adds rows under its own key, and writes the rows its contexts are about and running
rows of its key. Control comes from the start node through start, fork and join nodes only
to the nodes these lead to. What these writes keep, and the others the handlers make, is
kept by everything the run goes through.
-/
namespace Hella

open Exec Text

/-- The row as `FailNodeHandler.exit` writes it. -/
def XjobState.autoFailed (x : XjobState) (runTime : Option String) : XjobState :=
  { x with
    runInfo := some ("由[" ++ x.jobPlanNodeState.getStateName ++ "]自动转为[失败]" ++ orNull x.runInfo)
    runTime := runTime
    jobPlanNodeState := .resultError }

/-- What is said about the store is kept by each single write of a run before it ends: `Allowed`
says which rows its contexts may be about, `Known` what is remembered of a running row it has
read, and `Comes` which nodes control may come to. -/
structure Tread (env : Env) (wf : Workflow) (P : Store → Prop) (Allowed : Nat → Prop) (Known : XjobState → Prop)
    (Comes : String → Prop) : Prop where
  unsaved : Allowed 0
  leads : ∀ name node, Comes name → wf.getNode name = some node → node.type.isFinalType = false →
    ∀ next, Leads node next → Comes next
  asks : ∀ s, P s → P { s with tick := s.tick + 1 }
  inserts : ∀ s x, P s → x.currentExecutorKey = wf.getWorkflowKey →
    P (s.insertXjobState x) ∧ Allowed (s.lastXjobStateID + 1)
  updates : ∀ s x, P s → Allowed x.id → P (s.updateXjobState x)
  reads : ∀ s x, P s → x ∈ s.xjobStatesOf wf.getWorkflowKey → x.jobPlanNodeState.isRunningState = true → Known x
  fails : ∀ s x runTime, P s → Known x → x.jobPlanNodeState.isRunningState = true →
    P (s.updateXjobState (x.autoFailed runTime))
  marks : ∀ s id state date, P s →
    P (s.modifyJobPlan id fun plan => { plan with currentXjobState := some state, currentXjobDate := some date })
  dispatches : ∀ s event node id, P s → P (s.dispatch event ⟨node, id, wf.getWorkflowKey⟩)
  produces : ∀ s node event, P s → Comes node.name → wf.getNode node.name = some node → node.type = .end_ →
    event ∈ s.eventOf node.jobExecutionPlanID → P { s with producedEvents := s.producedEvents ++ [event] }

/-- It is kept as well when the run, having ended, leaves the map. -/
structure Footprint (env : Env) (wf : Workflow) (P : Store → Prop) (Allowed : Nat → Prop) (Known : XjobState → Prop)
    (Comes : String → Prop) : Prop extends Tread env wf P Allowed Known Comes where
  ends : ∀ s, P s → P { s with workflowsMap := s.workflowsMap.erase wf.getWorkflowKey }

/-- The context is about no row or about an allowed one. -/
def Within (Allowed : Nat → Prop) (context : NodeContext) : Prop :=
  ∀ progress, context.jobProgress = some progress → Allowed progress.xjobStateID

theorem within_contextOf {Allowed : Nat → Prop} {row : XjobState} (allowed : Allowed row.id) :
    Within Allowed (contextOf row) := by
  rintro progress ⟨rfl⟩
  exact allowed

theorem within_empty {Allowed : Nat → Prop} : Within Allowed {} := fun _ given => by cases given

/-- The run's store is as is said. -/
def On (P : Store → Prop) (s : Run) : Prop := P s.store

variable {env : Env} {wf : Workflow} {P : Store → Prop} {Allowed : Nat → Prop} {Known : XjobState → Prop}
  {Comes : String → Prop} {α : Type}

namespace Tread

theorem onStore {body : StoreM α} (keeps : Keeps P body) : Keeps (On P) (onStore body) :=
  keeps.zoom (fun _ holds => holds) fun _ _ _ holds => holds

/-- A call that also says something about its result. -/
theorem onResult {body : StoreM α} {R : α → Prop} (triple : Triple P body (fun a s => P s ∧ R a) fun _ => P) :
    Triple (On P) (Hella.onStore body) (fun a s => On P s ∧ R a) fun _ => On P := by
  intro s holds
  have result := triple s.store holds
  rw [onStore_apply]
  cases same : body s.store <;> simp only [same] at result ⊢ <;> exact result

theorem record (act : Act) : Keeps (On P) (record act) := Keeps.modifying fun _ holds => holds

theorem setStatus (status : WorkflowStatus) : Keeps (On P) (setStatus status) := Keeps.modifying fun _ holds => holds

theorem attempt {body : RunM α} (keeps : Keeps (On P) body) (otherwise : α) :
    Keeps (On P) (attempt body otherwise) := keeps.catching fun _ _ => Keeps.pure _

theorem checkCurrentExecutorKey : Keeps (On P) (checkCurrentExecutorKey wf) := by
  unfold Hella.checkCurrentExecutorKey
  split
  · exact Keeps.throw _
  · exact Keeps.pure _

/-- The postcondition says the same of the store and more of the result. -/
theorem assuming {R : α → Prop} {β : Type} {first : RunM α} {rest : α → RunM β} {Q : β → Run → Prop}
    (result : Triple (On P) first (fun a s => On P s ∧ R a) fun _ => On P)
    (goes : ∀ a, R a → Triple (On P) (rest a) Q fun _ => On P) : Triple (On P) (first >>= rest) Q fun _ => On P := by
  apply Triple.bind result
  intro a
  apply Triple.of_imp (p := R a)
  · intro holds
    exact (goes a holds).conseq (fun _ both => both.1) (fun _ _ post => post) fun _ _ post => post
  · exact fun _ both => both.2

variable (rule : Tread env wf P Allowed Known Comes)
include rule

theorem request : Keeps P Store.request := fun s holds => rule.asks s holds

theorem daoCall : Keeps P (Store.daoCall env) := by
  apply rule.request.bind
  intro n
  split
  · exact Keeps.pure _
  · exact Keeps.throw _

theorem newDate : Keeps (On P) (Hella.onStore (Store.newDate env)) :=
  onStore (rule.request.bind fun _ => Keeps.pure _)

theorem executeXJob (node : JobPlanNode) (id : Nat) (args : Option String) :
    Keeps (On P) (executeXJob env wf node id args) := by
  refine Keeps.bind (onStore (Keeps.of_after fun s holds => ?_)) fun _ => record _
  cases given : node.xjobMeta with
  | none =>
    rw [Store.executeXJob_none env given]
    exact rule.asks s holds
  | some xjobMeta =>
    rw [Store.executeXJob_some env given]
    exact rule.asks _ (rule.dispatches s _ _ _ holds)

theorem queryJobPlan (id : Nat) : Keeps P (Store.queryJobPlan env id) := by
  unfold Store.queryJobPlan
  split
  · exact Keeps.pure _
  · exact rule.daoCall.bind fun _ => Keeps.getting.bind fun _ => Keeps.pure _

theorem changeJobExecutionPlanCurrentXjobState (id : Nat) (state : CurrentXjobState) :
    Keeps (On P) (Hella.onStore (Store.changeJobExecutionPlanCurrentXjobState env id state)) := by
  refine onStore (Keeps.bind (rule.request.bind fun _ => Keeps.pure _) fun date => ?_)
  unfold Store.updateJobPlanCurrentXjobState
  split
  · exact Keeps.pure _
  · refine rule.daoCall.bind fun _ => Keeps.bind (Keeps.modifying fun s holds => rule.marks s _ _ _ holds) fun _ => ?_
    exact (rule.queryJobPlan id).bind fun _ => Keeps.pure _

theorem updJobState {x : XjobState} (allowed : Allowed x.id) : Keeps (On P) (Hella.onStore (Store.updJobState env x)) :=
  onStore (rule.daoCall.bind fun _ => Keeps.modifying fun s holds => rule.updates s x holds allowed)

theorem addJobState {x : XjobState} (own : x.currentExecutorKey = wf.getWorkflowKey) :
    Triple (On P) (addJobState env x) (fun saved s => On P s ∧ Allowed saved.id) fun _ => On P := by
  apply assuming (R := fun saved : XjobState => Allowed saved.id)
  · apply onResult
    apply Triple.bind rule.daoCall
    intro _ s holds
    exact rule.inserts s x holds own
  · intro saved allowed
    apply Triple.bind (record _)
    exact fun _ => Triple.pure fun _ holds => ⟨holds, allowed⟩

/-- A row that could not be saved keeps the id 0. -/
theorem attempt_addJobState {x : XjobState} (own : x.currentExecutorKey = wf.getWorkflowKey) (fresh : x.id = 0) :
    Triple (On P) (Hella.attempt (Hella.addJobState env x) x) (fun saved s => On P s ∧ Allowed saved.id)
      fun _ => On P := by
  refine Triple.catching (F := fun _ => On P) (rule.addJobState own) (fun _ _ => Triple.pure ?_)
    fun _ _ _ holds => holds
  intro s holds
  exact ⟨holds, fresh ▸ rule.unsaved⟩

omit rule in
theorem checkJobProgress {context : NodeContext} (within : Within Allowed context) :
    Triple (On P) (checkJobProgress wf context) (fun progress s => On P s ∧ Allowed progress.xjobStateID)
      fun _ => On P := by
  apply Triple.bind (Q := fun _ => On P) checkCurrentExecutorKey
  intro _
  split
  · exact Triple.throw fun _ holds => holds
  next progress given =>
    split
    · exact Triple.throw fun _ holds => holds
    · exact Triple.pure fun _ holds => ⟨holds, within progress given⟩

theorem loadXjobState (id : Nat) :
    Triple (On P) (loadXjobState env id) (fun row s => On P s ∧ row.id = id) fun _ => On P := by
  apply assuming (R := fun found => ∀ row : XjobState, found = some row → row.id = id)
  · apply onResult
    apply Triple.bind rule.daoCall
    intro _ s holds
    refine ⟨holds, ?_⟩
    intro row found
    simpa using List.find?_some found
  · intro found same
    cases found with
    | none => exact Triple.throw fun _ holds => holds
    | some row => exact Triple.pure fun _ holds => ⟨holds, same row rfl⟩

/-! ### Entering a node -/

theorem startEnter (node : JobPlanNode) {context : NodeContext} (within : Within Allowed context) :
    Triple (On P) (StartNodeHandler.enter env wf node context) (fun result s => On P s ∧ Within Allowed result.2)
      fun _ => On P := by
  refine Triple.bind (Q := fun _ => On P) checkCurrentExecutorKey fun _ => ?_
  refine Triple.catching (F := fun _ => On P) ?_ (fun _ _ => Triple.pure fun _ holds => ⟨holds, within⟩)
    fun _ _ _ holds => holds
  refine Triple.bind rule.newDate fun date => assuming (rule.addJobState rfl) fun saved allowed => ?_
  exact Triple.pure fun _ holds => ⟨holds, within_contextOf allowed⟩

theorem actionEnter (node : JobPlanNode) :
    Triple (On P) (ActionNodeHandler.enter env wf node) (fun result s => On P s ∧ Within Allowed result.2)
      fun _ => On P := by
  refine Triple.bind rule.newDate fun date => assuming (rule.attempt_addJobState rfl rfl) fun saved allowed => ?_
  refine Triple.bind (Q := fun _ => On P) (rule.executeXJob node _ _) fun _ => ?_
  refine Triple.bind (Q := fun _ => On P) (attempt (rule.updJobState (by exact allowed)) ()) fun _ => ?_
  exact Triple.pure fun _ holds => ⟨holds, within_contextOf allowed⟩

theorem failEnter (node : JobPlanNode) :
    Triple (On P) (FailNodeHandler.enter env wf node) (fun result s => On P s ∧ Within Allowed result.2)
      fun _ => On P := by
  refine Triple.bind rule.newDate fun date => assuming (rule.addJobState rfl) fun saved allowed => ?_
  split
  · refine Triple.bind (Q := fun _ => On P) ?_ fun notified => Triple.bind (Q := fun _ => On P) ?_ fun _ => ?_
    · exact attempt (Keeps.bind (rule.executeXJob node _ _) fun _ => Keeps.pure true) false
    · exact rule.updJobState allowed
    · exact Triple.pure fun _ holds => ⟨holds, within_contextOf allowed⟩
  · exact Triple.pure fun _ holds => ⟨holds, within_contextOf allowed⟩

theorem endEnter (node : JobPlanNode) :
    Triple (On P) (EndNodeHandler.enter env wf node) (fun result s => On P s ∧ Within Allowed result.2)
      fun _ => On P := by
  refine Triple.bind rule.newDate fun date => Triple.bind (Q := fun _ => On P) ?_ fun state => ?_
  · unfold EndNodeHandler.notify
    split
    · exact Keeps.bind (rule.executeXJob node _ _) fun _ => Keeps.pure _
    · exact Keeps.pure _
  · refine assuming (rule.attempt_addJobState rfl rfl) fun saved allowed => ?_
    exact Triple.pure fun _ holds => ⟨holds, within_contextOf allowed⟩

omit rule in
theorem joinEnter (node : JobPlanNode) : Keeps (On P) (JoinNodeHandler.enter node) := by
  refine Keeps.bind (record _) fun _ => Keeps.getting.bind fun s => ?_
  split
  · exact Keeps.throw _
  · split
    · exact Keeps.throw _
    · dsimp only
      split
      · exact Keeps.bind (Keeps.modifying fun _ holds => holds) fun _ => Keeps.pure _
      · exact Keeps.pure _

theorem enter (handler : NodeHandler) {context : NodeContext} (within : Within Allowed context) :
    Triple (On P) (handler.enter env wf context) (fun result s => On P s ∧ Within Allowed result.2.2)
      fun _ => On P := by
  refine Triple.bind (record _) fun _ => ?_
  split
  · exact Triple.bind (rule.startEnter _ within) fun _ => Triple.pure fun _ holds => holds
  · exact Triple.bind (rule.actionEnter _) fun _ => Triple.pure fun _ holds => holds
  · exact Triple.pure fun _ holds => ⟨holds, within⟩
  · exact Triple.bind (joinEnter _) fun _ => Triple.pure fun _ holds => ⟨holds, within⟩
  · exact Triple.bind (rule.failEnter _) fun _ => Triple.pure fun _ holds => holds
  · exact Triple.bind (rule.endEnter _) fun _ => Triple.pure fun _ holds => holds

/-! ### Leaving a node -/

/-- The guards and the row every `exit` starts with. -/
theorem loading {context : NodeContext} (within : Within Allowed context) {rest : JobProgress → XjobState → RunM α}
    (goes : ∀ progress row, Allowed row.id → Keeps (On P) (rest progress row)) :
    Keeps (On P) (do
      let progress ← Hella.checkJobProgress wf context
      let row ← Hella.loadXjobState env progress.xjobStateID
      rest progress row) := by
  refine assuming (checkJobProgress within) fun progress allowed => ?_
  refine assuming (rule.loadXjobState _) fun row same => ?_
  exact goes progress row (same ▸ allowed)

theorem startExit (node : JobPlanNode) {context : NodeContext} (within : Within Allowed context) :
    Keeps (On P) (StartNodeHandler.exit env wf node context) := by
  refine rule.loading within fun progress row allowed => ?_
  refine rule.newDate.bind fun date => Keeps.bind (attempt ?_ ()) fun _ => Keeps.pure _
  exact Keeps.bind (rule.updJobState (by exact allowed)) fun _ => rule.changeJobExecutionPlanCurrentXjobState _ _

theorem redoXjob (handler : NodeHandler) {row : XjobState} (allowed : Allowed row.id) :
    Keeps (On P) (ActionNodeHandler.redoXjob env wf handler row) := by
  unfold ActionNodeHandler.redoXjob
  split
  · exact Keeps.throw _
  · refine Keeps.bind (rule.executeXJob _ _ _) fun _ => ?_
    exact attempt (rule.updJobState (by exact allowed)) ()

theorem actionExit (handler : NodeHandler) {context : NodeContext} (within : Within Allowed context) :
    Keeps (On P) (ActionNodeHandler.exit env wf handler context) := by
  refine assuming (checkJobProgress within) fun progress allowed => ?_
  split
  · exact Keeps.throw _
  · split
    · exact Keeps.throw _
    · refine assuming (rule.loadXjobState _) fun row same => ?_
      have allowedRow : Allowed row.id := same ▸ allowed
      refine Keeps.bind (attempt (rule.updJobState (by exact allowedRow)) ()) fun _ => ?_
      split
      · exact Keeps.pure _
      · split
        · split
          · exact Keeps.bind (rule.redoXjob handler (by exact allowedRow)) fun _ => Keeps.pure _
          · exact Keeps.pure _
        · exact Keeps.pure _

omit rule in
theorem forkExit (node : JobPlanNode) : Keeps (On P) (ForkNodeHandler.multiExit node) := by
  unfold ForkNodeHandler.multiExit
  split
  · exact Keeps.throw _
  · exact Keeps.bind (Keeps.modifying fun _ holds => holds) fun _ => Keeps.pure _

omit rule in
theorem joinExit (node : JobPlanNode) : Keeps (On P) (JoinNodeHandler.exit node) :=
  Keeps.bind (Keeps.modifying fun _ holds => holds) fun _ => Keeps.pure _

theorem failRunning {x : XjobState} (known : x.jobPlanNodeState.isRunningState = true → Known x) :
    Keeps (On P) (FailNodeHandler.failRunning env x) := by
  unfold FailNodeHandler.failRunning
  split
  next running =>
    refine rule.newDate.bind fun date => onStore (rule.daoCall.bind fun _ => ?_)
    exact Keeps.modifying fun s holds => rule.fails s x (some date) holds (known running) running
  · exact Keeps.pure _

theorem failExit {context : NodeContext} (within : Within Allowed context) :
    Keeps (On P) (FailNodeHandler.exit env wf context) := by
  refine rule.loading within fun progress row allowed => ?_
  refine rule.newDate.bind fun date => Keeps.bind (attempt ?_ ()) fun _ => Keeps.pure _
  refine Keeps.bind (rule.updJobState (by exact allowed)) fun _ => ?_
  refine Keeps.bind (rule.changeJobExecutionPlanCurrentXjobState _ _) fun _ => ?_
  -- the rows are read before the first of them is written
  refine assuming (R := fun rows => ∀ x ∈ rows, x.jobPlanNodeState.isRunningState = true → Known x) ?_
    fun rows known => ?_
  · apply onResult
    apply Triple.bind rule.daoCall
    intro _ s holds
    exact ⟨holds, fun x member => rule.reads s x holds member⟩
  · exact Keeps.forM fun x member => rule.failRunning (known x member)

/-- The plan that is read is the stored one, with its event. -/
theorem queryEvent (id : Nat) :
    Triple (On P) (Hella.onStore (Store.queryJobPlan env id))
      (fun plan s => On P s ∧ ∀ p event, plan = some p → p.event = some event → isBlank (some event) = false →
        event ∈ s.store.eventOf id) fun _ => On P := by
  have result : Triple P (Store.queryJobPlan env id)
      (fun plan s => P s ∧ ∀ p event, plan = some p → p.event = some event → isBlank (some event) = false →
        event ∈ s.eventOf id) fun _ => P := by
    unfold Store.queryJobPlan
    split
    · exact Triple.pure fun s holds => ⟨holds, fun p event absent => by cases absent⟩
    next positive =>
      apply Triple.bind rule.daoCall
      intro _ s holds
      refine ⟨holds, fun p event read given real => ?_⟩
      obtain ⟨plan, found, rfl⟩ := Option.map_eq_some_iff.mp read
      dsimp only at given
      simp [Store.eventOf, positive, found, given, real]
  intro s holds
  have read := result s.store holds
  rw [onStore_apply]
  cases same : Store.queryJobPlan env id s.store <;> simp only [same] at read ⊢ <;> exact read

theorem endExit {node : JobPlanNode} (comes : Comes node.name) (found : wf.getNode node.name = some node)
    (type : node.type = .end_) {context : NodeContext} (within : Within Allowed context) :
    Keeps (On P) (EndNodeHandler.exit env wf node context) := by
  refine rule.loading within fun progress row allowed => ?_
  refine rule.newDate.bind fun date => Keeps.bind (attempt ?_ ()) fun _ => ?_
  · exact Keeps.bind (rule.updJobState (by exact allowed)) fun _ => rule.changeJobExecutionPlanCurrentXjobState _ _
  · apply Triple.bind (rule.queryEvent _)
    intro plan
    split
    · exact Triple.pure fun _ holds => holds.1
    next p =>
      split
      · exact Triple.pure fun _ holds => holds.1
      next event given =>
        split
        · exact Triple.pure fun _ holds => holds.1
        next real =>
          refine Triple.bind (Q := fun _ => On P) ?_ fun _ => Keeps.pure _
          intro s holds
          exact rule.produces s.store node event holds.1 comes found type
            (holds.2 p event rfl given (by simpa using real))

theorem multiExit (handler : NodeHandler) {context : NodeContext} (within : Within Allowed context) :
    Keeps (On P) (handler.multiExit env wf context) := by
  unfold NodeHandler.multiExit
  dsimp only
  split
  · exact Keeps.bind (rule.startExit _ within) fun _ => Keeps.pure _
  · exact Keeps.bind (rule.actionExit _ within) fun _ => Keeps.pure _
  · exact Keeps.bind (forkExit _) fun _ => Keeps.pure _
  · exact Keeps.bind (joinExit _) fun _ => Keeps.pure _
  · exact Keeps.bind (rule.failExit within) fun _ => Keeps.pure _
  · exact Keeps.pure _

/-! ### The instance -/

omit rule in
theorem createNodeHandler (node : Option JobPlanNode) : Keeps (On P) (createNodeHandler node) := by
  cases node
  · exact Keeps.throw _
  · exact Keeps.pure _

theorem processNextNode {signals : String → NodeContext → RunM Unit}
    (inner : ∀ name node, Comes name → wf.getNode name = some node → node.type.isFinalType = false →
      Keeps (On P) (signals name {}))
    {name : Option String} (comes : ∀ next, name = some next → Comes next) :
    Keeps (On P) (processNextNode env wf signals name) := by
  unfold Hella.processNextNode
  split
  · exact Keeps.pure _
  next node given =>
    obtain ⟨next, rfl, found⟩ := Option.bind_eq_some_iff.mp given
    obtain rfl := Workflow.getNode_name found
    have here := comes node.name rfl
    dsimp only
    split
    next passing => exact inner _ node here found (by simpa using passing)
    · refine (createNodeHandler _).bind fun handler => assuming (rule.enter _ within_empty) fun entered within => ?_
      split
      next type => exact Keeps.bind (rule.endExit here found type within) fun _ => setStatus _
      · split
        · exact Keeps.bind (rule.failExit within) fun _ => setStatus _
        · exact Keeps.pure _

theorem processNextNodes {signals : String → NodeContext → RunM Unit}
    (inner : ∀ name node, Comes name → wf.getNode name = some node → node.type.isFinalType = false →
      Keeps (On P) (signals name {}))
    (node : String) (id : Nat) {exits : Option (List (Option String))}
    (comes : ∀ names, exits = some names → ∀ next, some next ∈ names → Comes next) :
    Keeps (On P) (processNextNodes env wf signals node id exits) := by
  refine Keeps.getting.bind fun s => ?_
  split
  · exact Keeps.pure _
  · split
    · exact Keeps.throw _
    next names =>
      refine Keeps.bind (record _) fun _ => Keeps.forM fun name member => rule.processNextNode inner ?_
      rintro next rfl
      exact comes names rfl next member

/-- Signals go to start, fork and join nodes, which name the nodes they lead to. -/
theorem signal (depth : Nat) {name : String} {node : JobPlanNode} (comes : Comes name)
    (found : wf.getNode name = some node)
    (passing : node.type.isFinalType = false) : Keeps (On P) (signal env wf depth name {}) := by
  induction depth generalizing name node with
  | zero => exact Keeps.throw _
  | succ depth ih =>
    refine Keeps.getting.bind fun s => ?_
    split
    -- once the workflow has ended the signal does nothing
    · exact Keeps.pure _
    · refine Keeps.catching ?_ fun _ _ => setStatus _
      rw [found]
      simp only [Hella.createNodeHandler, pure_bind]
      -- the context `enter` leaves is an allowed one, and the handler is still that of the node
      have enters :=
        (rule.enter { jobPlanNode := node } within_empty).and (enter_handler env wf { jobPlanNode := node } {})
      refine Triple.bind (enters.conseq (fun _ holds => ⟨holds, trivial⟩) (fun _ _ post => post) fun _ _ post => post.1)
        fun entered => ?_
      obtain ⟨exiting, handler, context⟩ := entered
      apply Triple.of_imp (p := Within Allowed context ∧ handler.jobPlanNode = node)
      · rintro ⟨within, same⟩
        dsimp only
        split
        -- the exit leads only to nodes the plan names after this one
        · have exits := (rule.multiExit handler within).and (exits_lead env wf handler (same ▸ passing) context)
          refine Triple.bind (exits.conseq (fun _ holds => ⟨holds.1.1, trivial⟩) (fun _ _ post => post)
            fun _ _ post => post.1) fun targets => ?_
          apply Triple.of_imp (p := ∀ names, targets = some names → ∀ next, some next ∈ names → Leads node next)
          · intro lead
            -- each of them comes again, so the induction hypothesis applies
            have turns := rule.processNextNodes (fun _ _ comes found passing => ih comes found passing) name
              context.xjobStateID fun names given next member => rule.leads name node comes found passing next
                (lead names given next member)
            exact turns.conseq (fun _ holds => holds.1) (fun _ _ post => post) fun _ _ post => post
          · exact fun _ holds => same ▸ holds.2
        · exact Triple.pure fun _ holds => holds.1.1
      · exact fun _ holds => ⟨holds.1.2, holds.2⟩

theorem start (comes : ∀ name, wf.workflowManager.getStartNodeName = some name → Comes name) :
    Keeps (On P) (start env wf) := by
  refine Keeps.getting.bind fun s => ?_
  split
  · exact Keeps.throw _
  · refine (setStatus _).bind fun _ => ?_
    split
    · exact Keeps.throw _
    next name given =>
      obtain ⟨node, found, type⟩ := LiteWorkflowManager.getNode_start given
      exact rule.signal _ (comes name given) found (by rw [type]; rfl)

/-- A report may lead to any node its own names. -/
theorem completing (everywhere : ∀ name, Comes name) (name : String) {context : NodeContext}
    (within : Within Allowed context) : Keeps (On P) (failing do
      let handler ← Hella.createNodeHandler (wf.getNode name)
      let exits ← handler.multiExit env wf context
      Hella.processNextNodes env wf (Hella.signal env wf env.stackDepth) name context.xjobStateID exits) := by
  refine Keeps.catching ?_ fun _ _ => setStatus _
  refine (createNodeHandler _).bind fun handler => (rule.multiExit _ within).bind fun exits => ?_
  exact rule.processNextNodes (fun _ _ comes found passing => rule.signal _ comes found passing) _ _
    fun _ _ next _ => everywhere next

end Tread

theorem Footprint.completeJobPlanNode (rule : Footprint env wf P Allowed Known Comes) (everywhere : ∀ name, Comes name)
    (name : String) {context : NodeContext} (within : Within Allowed context) :
    Keeps (On P) (completeJobPlanNode env wf name context) := by
  refine (Tread.record _).bind fun _ => (rule.completing everywhere name within).bind fun _ => ?_
  refine Keeps.getting.bind fun s => ?_
  split
  · exact Tread.onStore (Keeps.modifying fun s holds => rule.ends s holds)
  · exact Keeps.pure _

end Hella

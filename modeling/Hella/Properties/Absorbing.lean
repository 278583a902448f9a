import Hella.Control.Refinement

/-!
# End states

Whether an instance that reached SUCCEEDED or FAILED stays there and does nothing
more. The code tests the status in `signal` and once before the loop of
`processNextNodes`, but not between two turns of that loop, and a catch block
assigns FAILED whatever the status is. So end states are absorbing when no fork
names an action, fail or end node after a path that may end the workflow
(`Ordered`), and no call on a SUCCEEDED instance makes a handler throw (`ExitOk`).
-/
namespace Hella

open Exec Text

def Act.statusAfter : Act → WorkflowStatus → WorkflowStatus
  | .assigned status, _ => status
  | _, status => status

/-- The status a history leaves behind. -/
def statusOf (trace : List Act) : WorkflowStatus := trace.foldl (fun status act => act.statusAfter status) .prep

/-- What must not happen at an end state. -/
def Act.Stirs (status : WorkflowStatus) : Act → Prop
  | .assigned other => other ≠ status
  | .entered _ | .added _ | .dispatched .. => True
  | _ => False

/-- After any point at which the status is an end state, it keeps its value, and no
node is entered, no row saved and no job dispatched. -/
def Absorbing (trace : List Act) : Prop :=
  ∀ before act after, trace = before ++ act :: after → (statusOf before).isEndState = true →
    ¬ act.Stirs (statusOf before)

/-! ### Paths that cannot end the workflow -/

section Paths

variable (wf : Workflow)

/-- The name denotes a join that counts in the given variable. -/
def joinsOn (var name : String) : Bool :=
  match wf.getNode name with
  | some node => node.type = .join && pairVar (orNull node.forkName) name = var
  | none => false

/-- Taking up the successor leaves a running workflow running and does not touch
the given variables. -/
inductive Quiet : List String → String → Prop where
  | absent {vars name} (missing : wf.getNode name = none) : Quiet vars name
  | action {vars name node} (found : wf.getNode name = some node) (type : node.type = .action)
      (job : node.xjobMeta.isSome = true) : Quiet vars name
  | fork {vars name node toNode} (found : wf.getNode name = some node) (type : node.type = .fork)
      (paths : node.toNode = some toNode) (fresh : pairVar name (orNull node.joinName) ∉ vars)
      (branches : ∀ path ∈ split toNode, joinsOn wf (pairVar name (orNull node.joinName)) path = false →
        Quiet (pairVar name (orNull node.joinName) :: vars) path)
      (waits : ∃ path ∈ split toNode, joinsOn wf (pairVar name (orNull node.joinName)) path = false) :
      Quiet vars name

/-- A path after which the loop over a fork's paths may enter a final-type node: an
action, the fork's own join, or a path that cannot end the workflow. -/
def CalmPath (var name : String) : Prop :=
  (∃ node, wf.getNode name = some node ∧ node.type = .action) ∨ joinsOn wf var name = true ∨
    Quiet wf [var] name

def namesFinal (name : String) : Bool := (wf.getNode name).any (·.type.isFinalType)

/-- In every fork, only calm paths stand before one that names a final-type node. -/
def Ordered : Prop :=
  ∀ name node toNode, wf.getNode name = some node → node.type = .fork → node.toNode = some toNode →
    ∀ before path after, split toNode = before ++ path :: after → namesFinal wf path = true →
      ∀ earlier ∈ before, CalmPath wf (pairVar name (orNull node.joinName)) earlier

/-- The handler of the node can be left: the node exists, its row can be read, and
the report is a result that is not to be retried. -/
def ExitOk (env : Env) (name : String) (context : NodeContext) (s : Run) : Prop :=
  ∃ node, wf.getNode name = some node ∧
    match node.type with
    | .end_ | .join => True
    | .fork => node.toNode.isSome = true
    | _ => ∃ progress row, context.jobProgress = some progress ∧ progress.xjobStateID ≠ 0 ∧
        env.daoSucceeds s.store.tick = true ∧ s.store.xjobState? progress.xjobStateID = some row ∧
        (node.type = .action → ∃ state, context.reported = some state ∧ state.isResultState = true ∧
          (state = .resultError → 0 < node.errorMaxRedoTimes → node.errorMaxRedoTimes ≤ row.executeTimes))

end Paths

/-! ### Histories -/

@[simp] theorem statusOf_append (trace : List Act) (act : Act) :
    statusOf (trace ++ [act]) = act.statusAfter (statusOf trace) := by simp [statusOf]

theorem Absorbing.append {trace : List Act} (absorbing : Absorbing trace) {act : Act}
    (calm : (statusOf trace).isEndState = true → ¬ act.Stirs (statusOf trace)) :
    Absorbing (trace ++ [act]) := by
  intro before other after split ended
  rcases List.eq_nil_or_concat after with rfl | ⟨after, last, rfl⟩
  · obtain ⟨rfl, same⟩ := List.append_inj_left' split rfl, List.append_inj_right' split rfl
    obtain rfl := (List.cons.inj same).1
    exact calm ended
  · have shorter : trace = before ++ other :: after := by
      rw [List.concat_eq_append, ← List.cons_append, ← List.append_assoc] at split
      exact (List.append_inj_left' split rfl)
    exact absorbing before other after shorter ended

/-- The history is absorbing so far and agrees with the status. -/
structure Settled (s : Run) : Prop where
  absorbing : Absorbing s.trace
  status : statusOf s.trace = s.status

theorem Settled.append {s : Run} (settled : Settled s) (act : Act)
    (calm : s.status.isEndState = true → ¬ act.Stirs s.status) (vars : JMap String) (store : Store) :
    Settled ⟨act.statusAfter s.status, vars, s.trace ++ [act], store⟩ := by
  constructor
  · apply settled.absorbing.append
    rwa [settled.status]
  · rw [statusOf_append, settled.status]

def Live (s : Run) : Prop := Settled s ∧ s.status.isEndState = false

theorem Live.append {s : Run} (live : Live s) (act : Act) (vars : JMap String) (store : Store) :
    Settled ⟨act.statusAfter s.status, vars, s.trace ++ [act], store⟩ :=
  live.1.append act (fun ended => by simp [live.2] at ended) vars store

/-! ### One turn of the loop -/

section Turns

variable {env : Env} {wf : Workflow} {I : Run → Prop} {name : String} {node : JobPlanNode}

/-- A throwable that no catch block of the engine stops, at a settled state. -/
def Overflowed (e : Throwable) (s : Run) : Prop := e.isException = false ∧ Settled s

/-- What leaves a handler: a catch block may still assign FAILED. -/
def Thrown (e : Throwable) (s : Run) : Prop :=
  Settled s ∧ (e.isException = true → s.status.isEndState = false)

theorem Overflowed.thrown {e : Throwable} {s : Run} (overflowed : Overflowed e s) : Thrown e s :=
  ⟨overflowed.2, fun exception => by simp [overflowed.1] at exception⟩

/-- A settled state with the given live status, whose variables are as `vars` says. -/
structure LiveWith (st : WorkflowStatus) (vars : JMap String → Prop) (s : Run) : Prop where
  settled : Settled s
  status : s.status = st
  live : st.isEndState = false
  vars : vars s.vars

variable {st : WorkflowStatus} {vars : JMap String → Prop}

theorem LiveWith.isLive {s : Run} (with_ : LiveWith st vars s) : Live s :=
  ⟨with_.settled, with_.status ▸ with_.live⟩

theorem LiveWith.thrown {s : Run} (with_ : LiveWith st vars s) (e : Throwable) : Thrown e s :=
  ⟨with_.settled, fun _ => with_.isLive.2⟩

theorem LiveWith.accepts (act : Act) (keeps : ∀ status, act.statusAfter status = status) :
    Accepts (LiveWith st vars) act := by
  intro s with_
  have settled := with_.isLive.append act s.vars s.store
  rw [keeps] at settled
  exact ⟨settled, with_.status, with_.live, with_.vars⟩

variable (st vars) in
theorem LiveWith.neutral (name : String) : Neutral (LiveWith st vars) name where
  storeFree := fun _ _ with_ =>
    ⟨⟨with_.settled.absorbing, with_.settled.status⟩, with_.status, with_.live, with_.vars⟩
  added := fun id => LiveWith.accepts (.added id) fun _ => rfl
  dispatched := fun id event => LiveWith.accepts (.dispatched name id event) fun _ => rfl

theorem attempt_unexceptional {α : Type} {P : Run → Prop} (body : RunM α) (otherwise : α) :
    Triple P (attempt body otherwise) (fun _ _ => True) (fun e _ => e.isException = false) :=
  Triple.trivial.catching (fun _ _ => Triple.pure fun _ _ => trivial) fun _ _ passes _ => passes

theorem actionEnter_unexceptional (job : node.xjobMeta.isSome = true) :
    Triple (fun _ => True) (ActionNodeHandler.enter env wf node) (fun _ _ => True)
      (fun e _ => e.isException = false) := by
  obtain ⟨xjobMeta, same⟩ := Option.isSome_iff_exists.mp job
  refine Triple.bind (Q := fun _ _ => True) (fun s _ => trivial) fun date => ?_
  refine Triple.bind (attempt_unexceptional _ _) fun row => ?_
  refine Triple.bind (Q := fun _ _ => True) ?_ fun _ =>
    Triple.bind (attempt_unexceptional _ _) fun _ => Triple.pure fun _ _ => trivial
  refine Triple.bind (Q := fun _ _ => True) ?_ fun event => Triple.modifying fun _ _ => trivial
  intro s _
  simp only [onStore_apply, Store.executeXJob, same]
  exact trivial

/-- A final-type node is entered while the workflow is live. -/
theorem enterFinal_live (final : node.type.isFinalType = true) (context : NodeContext) :
    Keeps (LiveWith st vars) (NodeHandler.enter env wf { jobPlanNode := node } context) := by
  refine (LiveWith.accepts (.entered node.name) fun _ => rfl).record.bind fun _ => ?_
  have neutral : Neutral (LiveWith st vars) node.name := LiveWith.neutral st vars node.name
  dsimp only
  cases type : node.type with
  | action => exact (neutral.actionEnter env wf).bind fun _ => Keeps.pure _
  | fail => exact (neutral.failEnter env wf).bind fun _ => Keeps.pure _
  | end_ => exact (neutral.endEnter env wf).bind fun _ => Keeps.pure _
  | start => simp [type, JobPlanNodeType.isFinalType] at final
  | fork => simp [type, JobPlanNodeType.isFinalType] at final
  | join => simp [type, JobPlanNodeType.isFinalType] at final

theorem setStatus_settled (target : WorkflowStatus) :
    Triple Live (setStatus target) (fun _ => Settled) Thrown :=
  Triple.modifying fun s live => live.append (.assigned target) s.vars s.store

variable {signals : String → NodeContext → RunM Unit}

theorem processNextNode_final (found : wf.getNode name = some node)
    (final : node.type.isFinalType = true) :
    Triple Live (processNextNode env wf signals (some name)) (fun _ => Settled) Thrown := by
  have enters (st : WorkflowStatus) : Triple (LiveWith st fun _ => True)
      (processNextNode env wf signals (some name)) (fun _ => Settled) Thrown := by
    have thrown {α : Type} {x : RunM α} (keeps : Keeps (LiveWith st fun _ => True) x) :
        Triple (LiveWith st fun _ => True) x (fun _ => LiveWith st fun _ => True) Thrown :=
      keeps.conseq (fun _ pre => pre) (fun _ _ post => post) fun e _ post => post.thrown e
    have free := (LiveWith.neutral st (fun _ => True) name).storeFree
    have assigns (target : WorkflowStatus) := (setStatus_settled target).conseq
      (fun _ (pre : LiveWith st (fun _ => True) _) => pre.isLive) (fun _ _ post => post) fun _ _ post => post
    simp only [processNextNode, Option.bind_some, found, final, Bool.not_true, Bool.false_eq_true, if_false]
    refine createNodeHandler_bind _ _ (fun missing => by cases missing) fun n same => ?_
    obtain rfl := Option.some.inj same
    refine Triple.bind (thrown (enterFinal_live final _)) fun result => ?_
    split
    · exact Triple.bind (thrown (free.endExit env wf node _)) fun _ => assigns _
    · split
      · exact Triple.bind (thrown (free.failExit env wf _)) fun _ => assigns _
      · exact Triple.pure fun _ with_ => with_.settled
  exact fun s live => enters s.status s ⟨live.1, rfl, live.2, trivial⟩

/-- An action is entered without a change of status or variables. -/
theorem processNextNode_action (found : wf.getNode name = some node) (type : node.type = .action) :
    Keeps (LiveWith st vars) (processNextNode env wf signals (some name)) := by
  have final : node.type.isFinalType = true := by rw [type]; rfl
  simp only [processNextNode, Option.bind_some, found, final, Bool.not_true, Bool.false_eq_true, if_false]
  refine createNodeHandler_bind _ _ (fun missing => by cases missing) fun n same => ?_
  obtain rfl := Option.some.inj same
  refine (enterFinal_live final _).bind fun result => ?_
  simp only [type, reduceCtorEq, if_false]
  exact Keeps.pure _

theorem processNextNode_job (found : wf.getNode name = some node) (type : node.type = .action)
    (job : node.xjobMeta.isSome = true) :
    Triple (fun _ => True) (processNextNode env wf signals (some name)) (fun _ _ => True)
      (fun e _ => e.isException = false) := by
  have final : node.type.isFinalType = true := by rw [type]; rfl
  simp only [processNextNode, Option.bind_some, found, final, Bool.not_true, Bool.false_eq_true, if_false]
  refine createNodeHandler_bind _ _ (fun missing => by cases missing) fun n same => ?_
  obtain rfl := Option.some.inj same
  refine Triple.bind (Q := fun _ _ => True) ?_ fun result => ?_
  · refine Triple.bind (Q := fun _ _ => True) (Triple.modifying fun _ _ => trivial) fun _ => ?_
    simp only [type]
    exact Triple.bind (actionEnter_unexceptional job) fun _ => Triple.pure fun _ _ => trivial
  · simp only [type, reduceCtorEq, if_false]
    exact Triple.pure fun _ _ => trivial

/-! ### Loops -/

/-- What `signal` does at a given depth, for the loop that calls it. -/
structure Behaves (env : Env) (wf : Workflow) (signals : String → NodeContext → RunM Unit) : Prop where
  settled : ∀ name node context, wf.getNode name = some node → node.type.isFinalType = false →
    Triple Settled (signals name context) (fun _ => Settled) Overflowed
  idle : ∀ name context st vars, st ≠ .running →
    Triple (LiveWith st vars) (signals name context) (fun _ => LiveWith st vars) Overflowed
  joins : ∀ name context var u left, joinsOn wf var name = true → 0 < left →
    u.lookup var = some (toString (left + 1)) →
    Triple (LiveWith .running (· = u)) (signals name context)
      (fun _ => LiveWith .running (· = u.insert var (toString left))) Overflowed
  forks : ∀ name node context vars u, wf.getNode name = some node → node.type = .fork → Quiet wf vars name →
    Triple (LiveWith .running (· = u)) (signals name context)
      (fun _ => LiveWith .running fun v => ∀ var ∈ vars, v.lookup var = u.lookup var) Overflowed

theorem joinsOn_iff {var : String} : joinsOn wf var name = true ↔
    ∃ node, wf.getNode name = some node ∧ node.type = .join ∧ pairVar (orNull node.forkName) name = var := by
  unfold joinsOn
  cases wf.getNode name with
  | none => simp
  | some node => simp

theorem processNextNode_quiet (behaves : Behaves env wf signals) {vars : List String} (u : JMap String)
    (quiet : Quiet wf vars name) :
    Triple (LiveWith .running (· = u)) (processNextNode env wf signals (some name))
      (fun _ => LiveWith .running fun v => ∀ var ∈ vars, v.lookup var = u.lookup var) Overflowed := by
  cases quiet with
  | absent missing =>
    simp only [processNextNode, Option.bind_some, missing]
    refine Triple.pure fun s with_ => ⟨with_.settled, with_.status, with_.live, ?_⟩
    intro var _
    rw [with_.vars]
  | action found type job =>
    refine ((processNextNode_action found type).and (processNextNode_job found type job)).conseq
      (fun s with_ => ⟨with_, trivial⟩) ?_ fun e s thrown => ⟨thrown.2, thrown.1.settled⟩
    rintro _ s ⟨with_, _⟩
    refine ⟨with_.settled, with_.status, with_.live, ?_⟩
    intro var _
    rw [with_.vars]
  | fork found type paths fresh branches waits =>
    rw [processNextNode_passing found (by rw [type]; rfl)]
    exact behaves.forks _ _ _ _ u found type (.fork found type paths fresh branches waits)

theorem processNextNode_join (behaves : Behaves env wf signals) {var : String} {u : JMap String} {left : Nat}
    (joins : joinsOn wf var name = true) (positive : 0 < left)
    (value : u.lookup var = some (toString (left + 1))) :
    Triple (LiveWith .running (· = u)) (processNextNode env wf signals (some name))
      (fun _ => LiveWith .running (· = u.insert var (toString left))) Overflowed := by
  obtain ⟨node, found, type, _⟩ := joinsOn_iff.mp joins
  rw [processNextNode_passing found (by rw [type]; rfl)]
  exact behaves.joins _ _ var u left joins positive value

theorem processNextNode_idle (behaves : Behaves env wf signals) (idle : st ≠ .running)
    (calm : namesFinal wf name = true → ∃ node, wf.getNode name = some node ∧ node.type = .action) :
    Triple (LiveWith st vars) (processNextNode env wf signals (some name)) (fun _ => LiveWith st vars)
      Thrown := by
  cases found : wf.getNode name with
  | none =>
    simp only [processNextNode, Option.bind_some, found]
    exact Triple.pure fun _ with_ => with_
  | some node =>
    cases final : node.type.isFinalType with
    | true =>
      obtain ⟨other, same, type⟩ := calm (by simp [namesFinal, found, final])
      exact (processNextNode_action same type).conseq (fun _ pre => pre) (fun _ _ post => post)
        fun e _ post => post.thrown e
    | false =>
      rw [processNextNode_passing found final]
      exact (behaves.idle _ _ st vars idle).conseq (fun _ pre => pre) (fun _ _ post => post)
        fun _ _ post => post.thrown

theorem processNextNode_settled (behaves : Behaves env wf signals) :
    Triple (fun s => Settled s ∧ (namesFinal wf name = true → s.status.isEndState = false))
      (processNextNode env wf signals (some name)) (fun _ => Settled) Thrown := by
  cases found : wf.getNode name with
  | none =>
    simp only [processNextNode, Option.bind_some, found]
    exact Triple.pure fun _ pre => pre.1
  | some node =>
    cases final : node.type.isFinalType with
    | true =>
      refine (processNextNode_final found final).conseq (fun s pre => ⟨pre.1, pre.2 ?_⟩)
        (fun _ _ post => post) fun _ _ post => post
      simp [namesFinal, found, final]
    | false =>
      rw [processNextNode_passing found final]
      exact (behaves.settled _ _ _ found final).conseq (fun _ pre => pre.1) (fun _ _ post => post)
        fun _ _ post => post.thrown

theorem Quiet.not_joinsOn {vars : List String} (quiet : Quiet wf vars name) (var : String) :
    joinsOn wf var name = false := by
  cases quiet with
  | absent missing => simp [joinsOn, missing]
  | action found type => simp [joinsOn, found, type]
  | fork found type => simp [joinsOn, found, type]

theorem CalmPath.action_of_final {var : String} (calm : CalmPath wf var name)
    (final : namesFinal wf name = true) : ∃ node, wf.getNode name = some node ∧ node.type = .action := by
  rcases calm with action | joins | quiet
  · exact action
  · obtain ⟨node, found, type, _⟩ := joinsOn_iff.mp joins
    simp [namesFinal, found, type, JobPlanNodeType.isFinalType] at final
  · cases quiet with
    | absent missing => simp [namesFinal, missing] at final
    | action found type => exact ⟨_, found, type⟩
    | fork found type => simp [namesFinal, found, type, JobPlanNodeType.isFinalType] at final

/-- The loop over the paths of a fork that cannot end the workflow. The counter
stays above the number of own joins still to come. -/
theorem quiet_loop (behaves : Behaves env wf signals) {vars paths : List String} {var : String}
    (fresh : var ∉ vars) (u : JMap String) {spare : Nat} (positive : 0 < spare)
    (branches : ∀ path ∈ paths, joinsOn wf var path = false → Quiet wf (var :: vars) path) :
    Triple (LiveWith .running fun v => (∀ other ∈ vars, v.lookup other = u.lookup other) ∧
        v.lookup var = some (toString (spare + paths.countP (joinsOn wf var))))
      (paths.forM fun path => processNextNode env wf signals (some path))
      (fun _ => LiveWith .running fun v => ∀ other ∈ vars, v.lookup other = u.lookup other) Overflowed := by
  induction paths with
  | nil => exact Triple.pure fun s with_ => ⟨with_.settled, with_.status, with_.live, with_.vars.1⟩
  | cons path rest ih =>
    refine Triple.bind ?_ fun _ => ih fun other member => branches other (List.mem_cons_of_mem _ member)
    refine Triple.pointwise fun s with_ => ?_
    have here : LiveWith .running (· = s.vars) s := ⟨with_.settled, with_.status, with_.live, rfl⟩
    -- a path into the own join lowers the counter by one, any other leaves it alone
    cases joins : joinsOn wf var path with
    | true =>
      have value := with_.vars.2
      rw [List.countP_cons_of_pos joins, ← Nat.add_assoc] at value
      refine (processNextNode_join behaves joins (by omega) value).conseq ?_ ?_ fun _ _ post => post
      · rintro _ rfl
        exact here
      · intro _ t after_
        refine ⟨after_.settled, after_.status, after_.live, ?_, ?_⟩
        · intro other member
          -- the counters of the outer forks are other variables
          have different : other ≠ var := fun same => fresh (same ▸ member)
          rw [after_.vars, AList.lookup_insert_ne different]
          exact with_.vars.1 other member
        · rw [after_.vars, AList.lookup_insert]
    | false =>
      refine (processNextNode_quiet behaves s.vars (branches path List.mem_cons_self joins)).conseq ?_ ?_
        fun _ _ post => post
      · rintro _ rfl
        exact here
      · intro _ t after_
        refine ⟨after_.settled, after_.status, after_.live, ?_, ?_⟩
        · intro other member
          rw [after_.vars other (List.mem_cons_of_mem _ member)]
          exact with_.vars.1 other member
        · rw [after_.vars var List.mem_cons_self, with_.vars.2,
            List.countP_cons_of_neg (by simp [joins])]

/-- What the loop over a fork's paths can rely on as long as a final-type node is
still to be entered. -/
def Waiting (wf : Workflow) (var : String) (spare : Nat) (rest : List String) (s : Run) : Prop :=
  s.status.isEndState = false ∧ 0 < spare ∧
    (s.status = .running → s.vars.lookup var = some (toString (spare + rest.countP (joinsOn wf var))))

theorem calm_turn (behaves : Behaves env wf signals) {var : String} {spare : Nat} {rest : List String}
    (calm : CalmPath wf var name) :
    Triple (fun s => Settled s ∧ Waiting wf var spare (name :: rest) s)
      (processNextNode env wf signals (some name))
      (fun _ s => Settled s ∧ Waiting wf var spare rest s) Thrown := by
  refine Triple.pointwise ?_
  rintro s ⟨settled, live, positive, value⟩
  by_cases running : s.status = .running
  · have here : LiveWith .running (· = s.vars) s := ⟨settled, running, rfl, rfl⟩
    have value := value running
    -- each kind of calm path leaves the counter at what the rest of the loop needs
    have done {v : JMap String → Prop} (next : ∀ u, v u →
        u.lookup var = some (toString (spare + rest.countP (joinsOn wf var)))) (t : Run)
        (after_ : LiveWith .running v t) : Settled t ∧ Waiting wf var spare rest t :=
      ⟨after_.settled, after_.isLive.2, positive, fun _ => next _ after_.vars⟩
    rcases calm with ⟨node, found, type⟩ | joins | quiet
    · have other : joinsOn wf var name = false := by simp [joinsOn, found, type]
      rw [List.countP_cons_of_neg (by simp [other])] at value
      refine (processNextNode_action found type).conseq ?_ (fun _ => done (v := (· = s.vars)) ?_)
        fun e _ post => post.thrown e
      · rintro _ rfl
        exact here
      · rintro u rfl
        exact value
    · rw [List.countP_cons_of_pos joins, ← Nat.add_assoc] at value
      refine (processNextNode_join behaves joins (by omega) value).conseq ?_ (fun _ => done ?_)
        fun _ _ post => post.thrown
      · rintro _ rfl
        exact here
      · rintro u rfl
        exact AList.lookup_insert _
    · rw [List.countP_cons_of_neg (by simp [quiet.not_joinsOn var])] at value
      refine (processNextNode_quiet behaves s.vars quiet).conseq ?_ (fun _ => done fun u same => ?_)
        fun _ _ post => post.thrown
      · rintro _ rfl
        exact here
      · rw [same var List.mem_cons_self, value]
  · have idle : Triple (LiveWith s.status fun _ => True) (processNextNode env wf signals (some name))
        (fun _ => LiveWith s.status fun _ => True) Thrown :=
      processNextNode_idle behaves running calm.action_of_final
    refine idle.conseq ?_ ?_ fun _ _ post => post
    · rintro _ rfl
      exact ⟨settled, rfl, live, trivial⟩
    · intro _ t after_
      refine ⟨after_.settled, after_.isLive.2, positive, fun same => ?_⟩
      exact absurd (after_.status.symm.trans same) running

/-- The loop over names of which only calm ones stand before a final-type node. -/
theorem ordered_loop (behaves : Behaves env wf signals) {var : String} {spare : Nat} {rest : List String}
    (ordered : ∀ before path after, rest = before ++ path :: after → namesFinal wf path = true →
      ∀ earlier ∈ before, CalmPath wf var earlier) :
    Triple (fun s => Settled s ∧ (rest.any (namesFinal wf) = true → Waiting wf var spare rest s))
      (rest.forM fun path => processNextNode env wf signals (some path)) (fun _ => Settled) Thrown := by
  induction rest with
  | nil => exact Triple.pure fun s pre => pre.1
  | cons path rest ih =>
    have ih := ih fun before other after split final earlier member =>
      ordered (path :: before) other after (by simp [split]) final earlier (List.mem_cons_of_mem _ member)
    refine Triple.bind ?_ fun _ => ih
    by_cases pending : rest.any (namesFinal wf) = true
    · obtain ⟨other, member, final⟩ := List.any_eq_true.mp pending
      obtain ⟨before, after, rfl⟩ := List.append_of_mem member
      have calm := ordered (path :: before) other after rfl final path List.mem_cons_self
      refine (calm_turn behaves calm).conseq (fun s pre => ⟨pre.1, pre.2 ?_⟩)
        (fun _ s post => ⟨post.1, fun _ => post.2⟩) fun _ _ post => post
      simp [final]
    · refine (processNextNode_settled behaves).conseq (fun s pre => ⟨pre.1, fun final => ?_⟩)
        (fun _ s post => ⟨post, fun absurd_ => absurd absurd_ pending⟩) fun _ _ post => post
      exact (pre.2 (by simp [final])).1

/-! ### Calls -/

/-- The successors a handler names: one, or the paths of a fork whose counter is set. -/
def Exits (node : JobPlanNode) (exits : Option (List (Option String))) (s : Run) : Prop :=
  ∀ targets, exits = some targets → (∃ target, targets = [target]) ∨
    ∃ toNode, node.type = .fork ∧ node.toNode = some toNode ∧ targets = (split toNode).map some ∧
      s.vars.lookup (pairVar node.name (orNull node.joinName)) = some (toString (split toNode).length)

theorem LiveWith.write (act : Act) (keeps : ∀ status, act.statusAfter status = status) {s : Run}
    (with_ : LiveWith st vars s) {written : JMap String → Prop} (u : JMap String) (known : written u) :
    LiveWith st written { s with vars := u, trace := s.trace ++ [act] } := by
  have settled := with_.isLive.append act u s.store
  rw [keeps] at settled
  exact ⟨settled, with_.status, with_.live, known⟩

theorem keeps_thrown {α : Type} {x : RunM α} (keeps : Keeps (LiveWith st vars) x) :
    Triple (LiveWith st vars) x (fun _ => LiveWith st vars) Thrown :=
  keeps.conseq (fun _ pre => pre) (fun _ _ post => post) fun e _ post => post.thrown e

theorem multiExit_live (context : NodeContext) :
    Triple (LiveWith st fun _ => True) (NodeHandler.multiExit env wf { jobPlanNode := node } context)
      (fun exits s => LiveWith st (fun _ => True) s ∧ Exits node exits s) Thrown := by
  have free := (LiveWith.neutral st (fun _ => True) node.name).storeFree
  -- all nodes but a fork lead to one target
  have single (target : Option String) (s : Run) : Exits node (some [target]) s :=
    fun targets same => .inl ⟨target, (Option.some.inj same).symm⟩
  dsimp only [NodeHandler.multiExit]
  cases type : node.type with
  | start =>
    exact Triple.bind (keeps_thrown (free.startExit env wf node context)) fun target =>
      Triple.pure fun s with_ => ⟨with_, single target s⟩
  | action =>
    exact Triple.bind (keeps_thrown (free.actionExit env wf node context)) fun target =>
      Triple.pure fun s with_ => ⟨with_, single target s⟩
  | fail =>
    exact Triple.bind (keeps_thrown (free.failExit env wf context)) fun target =>
      Triple.pure fun s with_ => ⟨with_, single target s⟩
  -- an end node hands on nothing, which is no list at all
  | end_ => exact Triple.pure fun s with_ => ⟨with_, fun targets same => nomatch same⟩
  | join =>
    simp only [JoinNodeHandler.exit, bind_assoc, pure_bind]
    refine Triple.bind (Triple.modifying (Q := fun _ => LiveWith st fun _ => True) fun s with_ => ?_)
      fun _ => Triple.pure fun s with_ => ⟨with_, single _ s⟩
    exact with_.write (.released _ _) (fun _ => rfl) _ trivial
  | fork =>
    cases paths : node.toNode with
    | none =>
      simp only [ForkNodeHandler.multiExit, paths]
      exact Triple.bind (Q := fun _ _ => False) (Triple.throw fun s with_ => with_.thrown _)
        fun _ => Triple.of_false
    | some toNode =>
      simp only [ForkNodeHandler.multiExit, paths, bind_assoc, pure_bind]
      refine Triple.bind (Triple.modifying (Q := fun _ => LiveWith st fun v =>
        v.lookup (pairVar node.name (orNull node.joinName)) = some (toString (split toNode).length))
        fun s with_ => ?_) fun _ => Triple.pure fun s with_ => ?_
      · exact with_.write (.forked _ _ _) (fun _ => rfl) _ (AList.lookup_insert _)
      · refine ⟨⟨with_.settled, with_.status, with_.live, trivial⟩, fun targets same => .inr ?_⟩
        exact ⟨toNode, type, paths, (Option.some.inj same).symm, with_.vars⟩

theorem processNextNodes_exits (behaves : Behaves env wf signals) (ordered : Ordered wf)
    (found : wf.getNode node.name = some node) (id : Nat) (exits : Option (List (Option String))) :
    Triple (fun s => LiveWith st (fun _ => True) s ∧ Exits node exits s)
      (processNextNodes env wf signals name id exits) (fun _ => Settled) Thrown := by
  refine Triple.pointwise fun s pre => ?_
  refine Triple.bind (Q := fun t u => t = s ∧ u = s) (Triple.getting fun t same => ⟨same, same⟩) fun t => ?_
  refine Triple.of_imp ?_ fun u same => same.1
  rintro rfl
  simp only [pre.1.isLive.2, Bool.false_eq_true, if_false]
  -- a handler that returns null is a null pointer here
  cases exits with
  | none => exact Triple.throw fun u same => by rw [same.2]; exact pre.1.thrown _
  | some targets =>
    -- one target, or the paths of a fork
    rcases pre.2 targets rfl with ⟨target, rfl⟩ | ⟨toNode, type, paths, rfl, value⟩
    · refine Triple.bind (Q := fun _ => LiveWith st fun _ => True) (Triple.modifying ?_) fun _ => ?_
      · rintro u ⟨_, rfl⟩
        exact LiveWith.accepts (.passed name id _) (fun _ => rfl) u pre.1
      · refine Triple.bind (Q := fun _ => Settled) ?_ fun _ => Triple.pure fun _ settled => settled
        cases target with
        | none => exact Triple.pure fun _ with_ => with_.settled
        | some next =>
          exact (processNextNode_settled behaves).conseq (fun u with_ => ⟨with_.settled, fun _ => with_.isLive.2⟩)
            (fun _ _ post => post) fun _ _ post => post
    · refine Triple.bind (Q := fun _ u => LiveWith st (· = t.vars) u) (Triple.modifying ?_) fun _ => ?_
      · rintro u ⟨_, rfl⟩
        exact LiveWith.write (.passed name id _) (fun _ => rfl) pre.1 u.vars rfl
      · change Triple _ (forM ((split toNode).map some) (processNextNode env wf signals)) _ _
        rw [List.forM_map]
        -- the paths that lead straight to the fork's own join count it down; the others are spare
        let var := pairVar node.name (orNull node.joinName)
        let spare := (split toNode).length - (split toNode).countP (joinsOn wf var)
        have most := List.countP_le_length (p := joinsOn wf var) (l := split toNode)
        have loop : Triple (fun u => Settled u ∧
            ((split toNode).any (namesFinal wf) = true → Waiting wf var spare (split toNode) u))
            (forM (split toNode) fun path => processNextNode env wf signals (some path))
            (fun _ => Settled) Thrown :=
          ordered_loop behaves (ordered node.name node toNode found type paths)
        refine loop.conseq ?_ (fun _ _ post => post) fun _ _ post => post
        intro u with_
        refine ⟨with_.settled, fun pending => ⟨with_.isLive.2, ?_, fun _ => ?_⟩⟩
        · -- a final-type path is not a join, so not all paths are own joins
          obtain ⟨path, member, final⟩ := List.any_eq_true.mp pending
          have different : (split toNode).countP (joinsOn wf var) ≠ (split toNode).length := by
            intro same
            obtain ⟨other, otherFound, otherType, _⟩ := joinsOn_iff.mp (List.countP_eq_length.mp same path member)
            simp [namesFinal, otherFound, otherType, JobPlanNodeType.isFinalType] at final
          omega
        · rw [with_.vars, value]
          congr 2
          omega

theorem joinEnter_live : Triple (LiveWith st fun _ => True) (JoinNodeHandler.enter node)
    (fun _ => LiveWith st fun _ => True) Thrown := by
  refine Triple.bind (keeps_thrown (LiveWith.accepts (.peeked _ _) fun _ => rfl).record) fun _ => ?_
  refine Triple.bind (Q := fun _ => LiveWith st fun _ => True) (Triple.getting fun _ with_ => with_) fun s => ?_
  split
  · exact Triple.throw fun _ with_ => with_.thrown _
  · split
    · exact Triple.throw fun _ with_ => with_.thrown _
    · dsimp only
      split
      · refine Triple.bind (Triple.modifying (Q := fun _ => LiveWith st fun _ => True) fun s with_ => ?_)
          fun _ => Triple.pure fun _ with_ => with_
        exact with_.write (.arrived _ _ _) (fun _ => rfl) _ trivial
      · exact Triple.pure fun _ with_ => with_

theorem enter_live (passing : node.type.isFinalType = false) (context : NodeContext) :
    Triple (LiveWith st fun _ => True) (NodeHandler.enter env wf { jobPlanNode := node } context)
      (fun result s => result.2.1 = { jobPlanNode := node } ∧ LiveWith st (fun _ => True) s) Thrown := by
  refine Triple.bind (keeps_thrown (LiveWith.accepts (.entered _) fun _ => rfl).record) fun _ => ?_
  have neutral := LiveWith.neutral st (fun _ => True) node.name
  dsimp only
  cases type : node.type with
  | start =>
    exact Triple.bind (keeps_thrown (neutral.startEnter env wf node context)) fun _ =>
      Triple.pure fun s with_ => ⟨rfl, with_⟩
  | fork => exact Triple.pure fun s with_ => ⟨rfl, with_⟩
  | join => exact Triple.bind joinEnter_live fun _ => Triple.pure fun s with_ => ⟨rfl, with_⟩
  | action => simp [type, JobPlanNodeType.isFinalType] at passing
  | fail => simp [type, JobPlanNodeType.isFinalType] at passing
  | end_ => simp [type, JobPlanNodeType.isFinalType] at passing

theorem failing_thrown {P : Run → Prop} {body : RunM Unit} (triple : Triple P body (fun _ => Settled) Thrown) :
    Triple P (failing body) (fun _ => Settled) Overflowed := by
  refine triple.catching (fun e exception => Triple.modifying fun s thrown => ?_) fun e s passes thrown =>
    ⟨passes, thrown.1⟩
  exact Live.append ⟨thrown.1, thrown.2 exception⟩ (.assigned .failed) s.vars s.store

theorem failing_overflowed {P : Run → Prop} {Q : Unit → Run → Prop} {body : RunM Unit}
    (triple : Triple P body Q Overflowed) : Triple P (failing body) Q Overflowed := by
  refine triple.catching (fun e exception => ?_) fun _ _ _ overflowed => overflowed
  exact Triple.of_imp (fun absurd_ => absurd exception (by simp [absurd_])) fun s overflowed => overflowed.1

/-- The body of `signal` once the workflow is known to be running. -/
theorem signal_running (depth : Nat) (found : wf.getNode name = some node) (context : NodeContext)
    {P : Run → Prop} (running : ∀ s, P s → s.status = .running) {Q : Unit → Run → Prop}
    {E : Throwable → Run → Prop}
    (body : Triple P (failing do
      let (exiting, handler, context) ← NodeHandler.enter env wf { jobPlanNode := node } context
      if exiting then
        let multiExit ← handler.multiExit env wf context
        processNextNodes env wf (signal env wf depth) name context.xjobStateID multiExit) Q E) :
    Triple P (signal env wf (depth + 1) name context) Q E := by
  intro s pre
  have result := body s pre
  simp only [signal, bind_apply, get_apply, running s pre, ne_eq, not_true_eq_false, if_false, found]
  exact result

theorem signal_joins (depth : Nat) (context : NodeContext) {var : String} {u : JMap String} {left : Nat}
    (joins : joinsOn wf var name = true) (positive : 0 < left)
    (value : u.lookup var = some (toString (left + 1))) :
    Triple (LiveWith .running (· = u)) (signal env wf (depth + 1) name context)
      (fun _ => LiveWith .running (· = u.insert var (toString left))) Overflowed := by
  obtain ⟨node, found, type, rfl⟩ := joinsOn_iff.mp joins
  refine signal_running depth found context (fun s with_ => with_.status) (failing_overflowed ?_)
  obtain rfl := Workflow.getNode_name found
  have number : parseInt (toString (left + 1)) = some ((left + 1 : Nat) : Int) := parseInt_toString _
  intro s with_
  have same : s.vars.lookup (orNull node.forkName ++ node.name) = some (toString (left + 1)) := by
    rw [with_.vars]
    exact value
  have text_eq : toString (((left + 1 : Nat) : Int) - 1) = toString left := by
    rw [show ((left + 1 : Nat) : Int) - 1 = (left : Int) by omega]
    rfl
  have above : ((left + 1 : Nat) : Int) - 1 > 0 := by omega
  simp only [NodeHandler.enter, JoinNodeHandler.enter, type, bind_apply, record, modify_apply, get_apply, same,
    number, if_pos above, text_eq, pure_apply, Bool.false_eq_true, if_false]
  have entered := LiveWith.accepts (.entered node.name) (fun _ => rfl) s with_
  have peeked := LiveWith.accepts (.peeked (orNull node.forkName) node.name) (fun _ => rfl) _ entered
  refine LiveWith.write (.arrived _ _ _) (fun _ => rfl) peeked _ ?_
  rw [show s.vars = u from with_.vars]
  rfl

theorem signal_forks (depth : Nat) (behaves : Behaves env wf (signal env wf depth)) (context : NodeContext)
    {vars : List String} (u : JMap String) (found : wf.getNode name = some node) (type : node.type = .fork)
    (quiet : Quiet wf vars name) :
    Triple (LiveWith .running (· = u)) (signal env wf (depth + 1) name context)
      (fun _ => LiveWith .running fun v => ∀ var ∈ vars, v.lookup var = u.lookup var) Overflowed := by
  cases quiet with
  | absent missing => simp [missing] at found
  | action other otherType =>
    obtain rfl := Option.some.inj (found.symm.trans other)
    simp [type] at otherType
  -- the paths that are not its own joins keep the counter above zero
  | @fork _ _ other toNode otherFound _ paths fresh branches waits =>
    obtain rfl := Option.some.inj (found.symm.trans otherFound)
    obtain rfl := Workflow.getNode_name found
    let var := pairVar node.name (orNull node.joinName)
    let spare := (split toNode).length - (split toNode).countP (joinsOn wf var)
    have most := List.countP_le_length (p := joinsOn wf var) (l := split toNode)
    have fresh : var ∉ vars := fresh
    -- at least one path waits, so the counter cannot reach zero in this loop
    have positive : 0 < spare := by
      obtain ⟨path, member, notJoin⟩ := waits
      have different : (split toNode).countP (joinsOn wf var) ≠ (split toNode).length := by
        intro same
        simp [var, List.countP_eq_length.mp same path member] at notJoin
      omega
    -- what the loop keeps: the counters of the outer forks, and its own at the spare paths
    let kept (v : JMap String) : Prop := (∀ other ∈ vars, v.lookup other = u.lookup other) ∧
      v.lookup var = some (toString (spare + (split toNode).countP (joinsOn wf var)))
    refine signal_running depth found context (fun s with_ => with_.status) (failing_overflowed ?_)
    refine Triple.bind (Q := fun result s => result = (true, { jobPlanNode := node }, context) ∧
      LiveWith .running (· = u) s) ?_ fun result => Triple.of_imp ?_ fun s post => post.1
    · simp only [NodeHandler.enter, type]
      refine Triple.bind (Triple.modifying (Q := fun _ => LiveWith .running (· = u)) fun s with_ => ?_)
        fun _ => Triple.pure fun s with_ => ⟨rfl, with_⟩
      exact LiveWith.accepts (.entered node.name) (fun _ => rfl) s with_
    rintro rfl
    refine Triple.bind (Q := fun exits s => exits = some ((split toNode).map some) ∧
      LiveWith .running kept s) ?_ fun exits => Triple.of_imp ?_ fun s post => post.1
    · simp only [NodeHandler.multiExit, ForkNodeHandler.multiExit, type, paths, bind_assoc, pure_bind]
      refine Triple.bind (Triple.modifying (Q := fun _ => LiveWith .running kept) fun s pre => ?_)
        fun _ => Triple.pure fun s with_ => ⟨rfl, with_⟩
      refine pre.2.write (.forked _ _ _) (fun _ => rfl) _ ⟨fun other member => ?_, ?_⟩
      · have different : other ≠ var := fun same => fresh (same ▸ member)
        rw [pre.2.vars]
        exact AList.lookup_insert_ne different
      · rw [show spare + (split toNode).countP (joinsOn wf var) = (split toNode).length by omega]
        exact AList.lookup_insert _
    rintro rfl
    refine Triple.pointwise fun s pre => ?_
    refine Triple.bind (Q := fun t u => t = s ∧ u = s) (Triple.getting fun t same => ⟨same, same⟩) fun t =>
      Triple.of_imp ?_ fun u same => same.1
    rintro rfl
    simp only [pre.2.isLive.2, Bool.false_eq_true, if_false]
    refine Triple.bind (Q := fun _ => LiveWith .running kept) (Triple.modifying ?_) fun _ => ?_
    · rintro s ⟨_, rfl⟩
      exact LiveWith.accepts (.passed _ _ _) (fun _ => rfl) s pre.2
    · change Triple _ (forM ((split toNode).map some) (processNextNode env wf (signal env wf depth))) _ _
      rw [List.forM_map]
      exact quiet_loop behaves fresh u positive branches

theorem signal_settled (depth : Nat) (behaves : Behaves env wf (signal env wf depth)) (ordered : Ordered wf)
    (found : wf.getNode name = some node) (passing : node.type.isFinalType = false)
    (context : NodeContext) :
    Triple Settled (signal env wf (depth + 1) name context) (fun _ => Settled) Overflowed := by
  refine Triple.pointwise fun s settled => ?_
  by_cases running : s.status = .running
  · obtain rfl := Workflow.getNode_name found
    have whole : Triple (LiveWith .running fun _ => True) (signal env wf (depth + 1) node.name context)
        (fun _ => Settled) Overflowed := by
      refine signal_running depth found context (fun s with_ => with_.status) (failing_thrown ?_)
      refine Triple.bind (enter_live passing context) fun result => Triple.of_imp ?_ fun s post => post.1
      obtain ⟨exiting, handler, context⟩ := result
      rintro rfl
      cases exiting with
      | false => exact Triple.pure fun s post => post.2.settled
      | true =>
        refine Triple.bind ((multiExit_live context).conseq (fun s post => post.2) (fun _ _ post => post)
          fun _ _ post => post) fun exits => ?_
        exact processNextNodes_exits behaves ordered found _ exits
    rintro _ rfl
    exact whole _ ⟨settled, running, rfl, trivial⟩
  · rintro _ rfl
    simp only [signal, bind_apply, get_apply, running, ne_eq, not_false_eq_true, if_true, pure_apply]
    exact settled

theorem signal_behaves (ordered : Ordered wf) (depth : Nat) : Behaves env wf (signal env wf depth) := by
  induction depth with
  | zero =>
    exact {
      settled := fun _ _ _ _ _ => Triple.throw fun s settled => ⟨rfl, settled⟩
      idle := fun _ _ _ _ _ => Triple.throw fun s with_ => ⟨rfl, with_.settled⟩
      joins := fun _ _ _ _ _ _ _ _ => Triple.throw fun s with_ => ⟨rfl, with_.settled⟩
      forks := fun _ _ _ _ _ _ _ _ => Triple.throw fun s with_ => ⟨rfl, with_.settled⟩ }
  | succ depth ih =>
    refine ⟨?_, ?_, ?_, ?_⟩
    · exact fun name node context found passing => signal_settled depth ih ordered found passing context
    · intro name context st vars idle s with_
      have stopped : s.status ≠ .running := with_.status ▸ idle
      simp only [signal, bind_apply, get_apply, stopped, ne_eq, not_false_eq_true, if_true, pure_apply]
      exact with_
    · exact fun name context var u left joins positive value =>
        signal_joins depth context joins positive value
    · exact fun name node context vars u found type quiet =>
        signal_forks depth ih context u found type quiet

/-! ### Runs -/

theorem start_settled (ordered : Ordered wf) : Triple Settled (start env wf) (fun _ => Settled)
    (fun _ => Settled) := by
  refine Triple.pointwise fun s settled => ?_
  refine Triple.bind (Q := fun t u => t = s ∧ u = s) (Triple.getting fun t same => ⟨same, same⟩) fun t =>
    Triple.of_imp ?_ fun u same => same.1
  rintro rfl
  by_cases prep : t.status = .prep
  · simp only [prep, ne_eq, not_true_eq_false, if_false]
    refine Triple.bind (Q := fun _ => Settled) (Triple.modifying ?_) fun _ => ?_
    · rintro u ⟨_, rfl⟩
      exact Live.append ⟨settled, by rw [prep]; rfl⟩ (.assigned .running) u.vars u.store
    · cases found : wf.workflowManager.getStartNodeName with
      | none => exact Triple.throw fun _ settled => settled
      | some name =>
        obtain ⟨node, exists_, type⟩ := LiteWorkflowManager.getNode_start found
        exact ((signal_behaves ordered env.stackDepth).settled name node _ exists_ (by rw [type]; rfl)).conseq
          (fun _ pre => pre) (fun _ _ post => post) fun _ _ post => post.2
  · simp only [prep, ne_eq, not_false_eq_true, if_true]
    exact Triple.throw fun u same => same.2 ▸ settled

theorem checkJobProgress_apply {context : NodeContext} {progress : JobProgress} (s : Run)
    (given : context.jobProgress = some progress) (real : progress.xjobStateID ≠ 0) :
    checkJobProgress wf context s = .ok progress s := by
  have key : isBlank (some wf.getWorkflowKey) = false := isBlank_numeral _ _
  simp [checkJobProgress, checkCurrentExecutorKey, key, given, real]

theorem loadXjobState_apply {id : Nat} {row : XjobState} {s : Run} (reads : env.daoSucceeds s.store.tick = true)
    (stored : s.store.xjobState? id = some row) :
    loadXjobState env id s = .ok row { s with store := { s.store with tick := s.store.tick + 1 } } := by
  have found : s.store.xjobStates.find? (·.id = id) = some row := stored
  simp only [loadXjobState, bind_apply, onStore_apply, Store.queryXjobState, Store.daoCall_apply, reads, if_true,
    get_apply, pure_apply, Store.xjobState?, found]

/-- Where the guards of `exit` and its query pass, only the rest of it can throw. -/
theorem readable_unexceptional {context : NodeContext} {progress : JobProgress} {row : XjobState} {store : Store}
    (given : context.jobProgress = some progress) (real : progress.xjobStateID ≠ 0)
    (reads : env.daoSucceeds store.tick = true)
    (stored : store.xjobState? progress.xjobStateID = some row) {α : Type}
    (rest : XjobState → RunM α)
    (onwards : Triple (fun _ => True) (rest row) (fun _ _ => True) (fun e _ => e.isException = false)) :
    Triple (fun s => s.store = store)
      (do let jobProgress ← checkJobProgress wf context
          let xjobState ← loadXjobState env jobProgress.xjobStateID
          rest xjobState)
      (fun _ _ => True) (fun e _ => e.isException = false) := by
  rintro s rfl
  simp only [bind_apply, checkJobProgress_apply s given real, loadXjobState_apply reads stored]
  exact onwards _ trivial

theorem multiExit_unexceptional {context : NodeContext} {s : Run} (ok : ExitOk wf env name context s)
    (found : wf.getNode name = some node) :
    Triple (fun t => t.store = s.store) (NodeHandler.multiExit env wf { jobPlanNode := node } context)
      (fun _ _ => True) (fun e _ => e.isException = false) := by
  obtain ⟨other, same, exits⟩ := ok
  obtain rfl := Option.some.inj (found.symm.trans same)
  dsimp only [NodeHandler.multiExit]
  have done {α β : Type} (f : α → β) (a : α) : Triple (fun _ => True) (pure (f a) : RunM β) (fun _ _ => True)
      (fun e _ => e.isException = false) := Triple.pure fun _ _ => trivial
  have dated {α : Type} (rest : String → RunM α) (onwards : ∀ date, Triple (fun _ => True) (rest date)
      (fun _ _ => True) (fun e _ => e.isException = false)) :
      Triple (fun _ => True) (onStore (Store.newDate env) >>= rest) (fun _ _ => True)
        (fun e _ => e.isException = false) :=
    Triple.bind (Q := fun _ _ => True) (fun s _ => trivial) onwards
  -- the exits that save nothing cannot fail
  cases type : node.type with
  | end_ => exact Triple.pure fun _ _ => trivial
  | join => exact Triple.bind (Triple.bind (Triple.modifying fun _ _ => trivial) fun _ => done id _) fun _ => done _ _
  | fork =>
    rw [type] at exits
    obtain ⟨toNode, paths⟩ := Option.isSome_iff_exists.mp exits
    simp only [ForkNodeHandler.multiExit, paths]
    exact Triple.bind (Triple.bind (Triple.modifying fun _ _ => trivial) fun _ => done id _) fun _ => done _ _
  -- the row is there and can be read, and a save that fails is caught
  | start =>
    rw [type] at exits
    obtain ⟨progress, row, given, real, reads, stored, _⟩ := exits
    refine Triple.bind (readable_unexceptional given real reads stored _ (dated _ fun date => ?_)) fun _ => done _ _
    exact Triple.bind (attempt_unexceptional _ _) fun _ => done id _
  | fail =>
    rw [type] at exits
    obtain ⟨progress, row, given, real, reads, stored, _⟩ := exits
    refine Triple.bind (readable_unexceptional given real reads stored _ (dated _ fun date => ?_)) fun _ => done _ _
    exact Triple.bind (attempt_unexceptional _ _) fun _ => done id _
  | action =>
    rw [type] at exits
    obtain ⟨progress, row, given, real, reads, stored, results⟩ := exits
    obtain ⟨state, report, result, retries⟩ := results rfl
    have named : JobPlanNodeState.valueOf progress.jobPlanNodeState = some state := by
      simpa [NodeContext.reported, given] using report
    refine Triple.bind (Q := fun _ _ => True) ?_ fun _ => done _ _
    intro t same
    rw [← same] at reads stored
    simp only [ActionNodeHandler.exit, bind_apply, checkJobProgress_apply t given real, named, result, Bool.not_true,
      Bool.false_eq_true, if_false, loadXjobState_apply reads stored]
    refine (attempt_unexceptional (P := fun _ => True) _ _).bind (fun _ => ?_) _ trivial
    split
    · exact done id _
    · split
      next error =>
        split
        -- the last attempt has been made, so the retry that throws is out of reach
        next redo => exact absurd (retries error redo.1) (by simpa using redo.2)
        · exact done id _
      · exact done id _

/-- A call on a SUCCEEDED instance whose handler does not throw changes nothing. -/
theorem completeJobPlanNode_succeeded {context : NodeContext} {s : Run} (ok : ExitOk wf env name context s) :
    Triple (fun t => t = s ∧ Settled t ∧ t.status = .succeeded) (completeJobPlanNode env wf name context)
      (fun _ => Settled) (fun _ => Settled) := by
  let I (t : Run) : Prop := Settled t ∧ t.status = .succeeded
  have calm {t : Run} (holds : I t) (act : Act) (silent : ¬ act.Stirs .succeeded)
      (keeps : ∀ status, act.statusAfter status = status) (vars : JMap String) :
      I { t with vars := vars, trace := t.trace ++ [act] } := by
    have settled := holds.1.append act (fun _ => by rw [holds.2]; exact silent) vars t.store
    rw [keeps] at settled
    exact ⟨settled, holds.2⟩
  -- the status is left alone by everything but an assignment
  have free : StoreFree I := fun t store holds => ⟨⟨holds.1.absorbing, holds.1.status⟩, holds.2⟩
  have varFree : VarFree I :=
    ⟨fun t vars _ _ _ holds => calm holds (.forked _ _ _) id (fun _ => rfl) vars,
      fun t vars _ _ holds => calm holds (.released _ _) id (fun _ => rfl) vars⟩
  -- the report is recorded first
  refine Triple.bind (Q := fun _ t => I t ∧ t.store = s.store) (Triple.modifying ?_) fun _ => ?_
  · rintro t ⟨rfl, holds⟩
    exact ⟨calm holds (.completing _ _) id (fun _ => rfl) t.vars, rfl⟩
  refine Triple.bind (Q := fun _ => I) (Triple.catching (F := fun e t => I t ∧ e.isException = false) ?_ ?_
    fun _ _ _ thrown => thrown.1.1) fun _ => ?_
  · obtain ⟨node, found, _⟩ := id ok
    rw [found]
    refine createNodeHandler_bind _ _ (fun missing => by cases missing) fun n same => ?_
    obtain rfl := Option.some.inj same
    -- the exit cannot throw, so the loop after it is the only thing left
    refine Triple.bind ((keeps_multiExit env wf free varFree node context).and
      (multiExit_unexceptional ok found)) fun exits => ?_
    rintro t ⟨holds, _⟩
    -- and that loop does nothing, since the workflow has ended
    have ended : t.status.isEndState = true := by rw [holds.2]; rfl
    simp only [processNextNodes, bind_apply, get_apply, ended, if_true]
    exact holds
  · exact fun e exception => Triple.of_imp (fun absurd_ => by simp [exception] at absurd_) fun t thrown => thrown.2
  · refine Triple.bind (Q := fun _ => I) (Triple.getting fun _ holds => holds) fun t => ?_
    split
    · exact (free.onStore _).conseq (fun _ pre => pre) (fun _ _ post => post.1) fun _ _ post => post.1
    · exact Triple.pure fun _ holds => holds.1

theorem completeJobPlanNode_failed (context : NodeContext) :
    Keeps (fun t => Settled t ∧ t.status = .failed) (completeJobPlanNode env wf name context) := by
  have calm {t : Run} (holds : Settled t ∧ t.status = .failed) (act : Act) (silent : ¬ act.Stirs .failed)
      (keeps : act.statusAfter .failed = .failed) (vars : JMap String) :
      Settled ⟨.failed, vars, t.trace ++ [act], t.store⟩ := by
    have settled := holds.1.append act (fun _ => by rw [holds.2]; exact silent) vars t.store
    rwa [holds.2, keeps] at settled
  have same {t : Run} (holds : Settled t ∧ t.status = .failed) (act : Act) (silent : ¬ act.Stirs .failed)
      (keeps : act.statusAfter .failed = .failed) (vars : JMap String) :
      Settled { t with vars := vars, trace := t.trace ++ [act] } ∧ t.status = .failed :=
    ⟨by simpa only [holds.2] using calm holds act silent keeps vars, holds.2⟩
  refine keeps_completeJobPlanNode_ended env wf name context ?_ ?_ ⟨?_, ?_⟩ ?_ ?_
  · intro t holds
    rw [holds.2]
    rfl
  · exact fun t store holds => ⟨⟨holds.1.absorbing, holds.1.status⟩, holds.2⟩
  · exact fun t vars fork join paths holds => same holds (.forked _ _ _) id rfl vars
  · exact fun t vars fork join holds => same holds (.released _ _) id rfl vars
  · exact fun t holds => same holds (.completing _ _) id rfl t.vars
  · exact Keeps.modifying fun t holds => ⟨calm holds (.assigned .failed) (fun differs => differs rfl) rfl t.vars, rfl⟩

theorem completeJobPlanNode_live (ordered : Ordered wf) (context : NodeContext) :
    Triple (LiveWith st fun _ => True) (completeJobPlanNode env wf name context) (fun _ => Settled)
      (fun _ => Settled) := by
  refine Triple.bind (Q := fun _ => LiveWith st fun _ => True)
    (Triple.modifying fun s with_ => LiveWith.accepts (.completing _ _) (fun _ => rfl) s with_) fun _ => ?_
  refine Triple.bind (Q := fun _ => Settled) ?_ fun _ => ?_
  · refine (failing_thrown ?_).conseq (fun _ pre => pre) (fun _ _ post => post) fun _ _ post => post.2
    refine createNodeHandler_bind _ _ (fun _ s with_ => with_.thrown _) fun node found => ?_
    obtain rfl := Workflow.getNode_name found
    refine Triple.bind (multiExit_live context) fun exits => ?_
    exact processNextNodes_exits (signal_behaves ordered env.stackDepth) ordered found _ exits
  · have free : StoreFree Settled := fun t store settled => ⟨settled.absorbing, settled.status⟩
    refine Triple.bind (Q := fun _ => Settled) (Triple.getting fun _ settled => settled) fun t => ?_
    split
    · exact free.onStore _
    · exact Triple.pure fun _ settled => settled

/-- End states are absorbing in every run of a plan whose forks are ordered, if no
call on a SUCCEEDED instance makes a handler throw. -/
theorem absorbing_of_ordered {world : Store → Store → Prop} {s : Run} (ordered : Ordered wf)
    (reaches : Reaches env wf world
      (fun s name context => s.status = .succeeded → ExitOk wf env name context s) s) :
    Absorbing s.trace ∧ statusOf s.trace = s.status := by
  have settled : Settled s := by
    induction reaches with
    | initial store => exact ⟨fun before act after split => by simp at split, rfl⟩
    | starting before ih => exact Keeps.after (start_settled ordered) ih
    | elsewhere before changes ih => exact ⟨ih.absorbing, ih.status⟩
    | @completing s name context before allows ih =>
      have ended {P : Run → Prop} (pre : P s) (triple : Triple P (completeJobPlanNode env wf name context)
          (fun _ => Settled) (fun _ => Settled)) : Settled (after (completeJobPlanNode env wf name context s)) := by
        have result := triple s pre
        cases same : completeJobPlanNode env wf name context s <;> simpa [same] using result
      cases status : s.status with
      | succeeded => exact ended ⟨rfl, ih, status⟩ (completeJobPlanNode_succeeded (allows status))
      | failed => exact ((completeJobPlanNode_failed context).after ⟨ih, status⟩).1
      | prep => exact ended ⟨ih, status, rfl, trivial⟩ (completeJobPlanNode_live ordered context)
      | running => exact ended ⟨ih, status, rfl, trivial⟩ (completeJobPlanNode_live ordered context)
      | suspended => exact ended ⟨ih, status, rfl, trivial⟩ (completeJobPlanNode_live ordered context)
  exact ⟨settled.absorbing, settled.status⟩

end Turns

theorem diamond_ordered : Ordered Diamond.workflow := by
  intro name node toNode found type paths before path after split_eq _ earlier member
  have listed : node ∈ Diamond.plan.jobPlanNodeList := Workflow.getNode_mem found
  have fork : node.toNode = some "x,y" := by
    simp only [Diamond.plan, List.mem_cons, List.not_mem_nil, or_false] at listed
    rcases listed with rfl | rfl | rfl | rfl | rfl | rfl | rfl | rfl <;> first | rfl | cases type
  obtain rfl : "x,y" = toNode := Option.some.inj (fork.symm.trans paths)
  have known : earlier ∈ ["x", "y"] := by
    rw [show ["x", "y"] = split "x,y" by decide, split_eq]
    simp [member]
  simp only [List.mem_cons, List.not_mem_nil, or_false] at known
  rcases known with rfl | rfl
  · exact .inl ⟨Diamond.action 4 "x" "j", by decide, rfl⟩
  · exact .inl ⟨Diamond.action 5 "y" "j", by decide, rfl⟩

namespace Diamond

/-- The report for the first path is received once more after the workflow has ended. -/
def late : Run := after (completeJobPlanNode Env.calm workflow "x" (report .resultSuccess 3) finished)

/-- That report finds the row of its node and can be handled. -/
theorem late_exitOk : ExitOk workflow Env.calm "x" (report .resultSuccess 3) finished := by
  obtain ⟨row, found⟩ : ∃ row, finished.store.xjobState? 3 = some row :=
    Option.isSome_iff_exists.mp (by decide +kernel)
  exact ⟨action 4 "x" "j", rfl, _, row, rfl, by decide, rfl, found, fun _ => ⟨.resultSuccess, by decide, rfl, nofun⟩⟩

theorem late_reached : Reaches Env.calm workflow (fun _ _ => False)
    (fun s name context => s.status = .succeeded → ExitOk workflow Env.calm name context s) late := by
  refine .completing (.completing (.completing (.completing (.starting (.initial store)) ?_) ?_) ?_)
    fun _ => late_exitOk
  -- before the last action is reported the workflow has not succeeded
  · exact fun succeeded => absurd succeeded (by decide +kernel)
  · exact fun succeeded => absurd succeeded (by decide +kernel)
  · exact fun succeeded => absurd succeeded (by decide +kernel)

end Diamond

/-- The diamond has succeeded when the late report comes, and that report is handled
without a change of the status. -/
theorem absorbing_of_ordered_diamond : Diamond.finished.status = .succeeded ∧
    Diamond.finished.trace.length < Diamond.late.trace.length ∧
    Absorbing Diamond.late.trace ∧ statusOf Diamond.late.trace = Diamond.late.status :=
  ⟨by decide +kernel, by decide +kernel, absorbing_of_ordered diamond_ordered Diamond.late_reached⟩

/-! ### A fork that ends the workflow on its first path -/

namespace EndFirst

def plan : JobExecutionPlan where
  id := 1
  jobPlanNodeList :=
    [{ Diamond.node 1 .start "start" with toNode := some "f" },
     { Diamond.node 2 .fork "f" with toNode := some "end,a", joinName := some "j" },
     Diamond.action 3 "a" "j",
     { Diamond.node 4 .join "j" with toNode := some "end", forkName := some "f" },
     Diamond.node 5 .fail "fail",
     Diamond.node 6 .end_ "end"]

def workflow : Workflow := { workflowManager := ⟨plan, rfl⟩, engineRunKey := 1000 }

def started : Run := after (start Env.calm workflow { store := { jobPlans := [plan] } })

theorem started_split : started.trace =
    started.trace.take 10 ++ .entered "a" :: started.trace.drop 11 := by
  decide +kernel

theorem succeeded_before : statusOf (started.trace.take 10) = .succeeded := by decide +kernel

end EndFirst

/-- The action after the end node is entered although the workflow has SUCCEEDED. -/
theorem endFirst_not_absorbing : ¬ Absorbing EndFirst.started.trace := by
  intro absorbing
  refine absorbing _ _ _ EndFirst.started_split ?_ trivial
  rw [EndFirst.succeeded_before]
  rfl

end Hella

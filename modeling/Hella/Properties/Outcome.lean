import Hella.Control.Course

/-!
# The outcome does not depend on the order of the results

Every action has one result. In whatever order the results of the outstanding actions
are handled, the plan succeeds when all of them are successes, and fails with the first
error otherwise.
-/
namespace Hella

open Exec Text ForkJoin

/-- The actions report what is fixed for them. -/
def Fixed (result : String → JobPlanNodeState) (name : String) (state : JobPlanNodeState) : Prop := state = result name

section Results

variable {wf : Workflow} {result : String → JobPlanNodeState} {trace : List Act} {a x : String}

namespace Nested

/-- The successor of a reported step. -/
theorem step_targets (plan : Nested wf) (member : a ∈ plan.body.steps) {targets : List (Option String)}
    (successors : Successors wf (Fixed result) a targets) :
    ∃ node, wf.getNode a = some node ∧ node.errorNode = some plan.fail ∧ targets = [node.answer (result a)] := by
  obtain ⟨node, found, type, error⟩ := plan.realizes.step member
  obtain ⟨other, same, shape⟩ := successors
  obtain rfl := Option.some.inj (found.symm.trans same)
  rw [type] at shape
  obtain ⟨state, rfl, _, rfl⟩ := shape
  exact ⟨node, found, error, rfl⟩

/-- A step that reports an error leads to the fail node and nowhere else. -/
theorem passed_error (plan : Nested wf) (lawful : Lawful wf (Fixed result) trace) (member : a ∈ plan.body.steps)
    (error : result a = .resultError) : passed a trace ≤ named wf plan.fail trace ∧ given plan.fail trace a = 0 := by
  induction lawful with
  | nil => exact ⟨le_rfl, rfl⟩
  | @snoc trace act _ legal ih =>
    rw [passed_append, named_append, given_append]
    dsimp only
    cases act with
    | passed y id targets =>
      by_cases same : y = a
      · subst same
        obtain ⟨node, _, fails, rfl⟩ := plan.step_targets member legal.1
        have target : node.answer (result y) = some plan.fail := by rw [error]; exact fails
        simp [target, ih.1, ih.2]
      · have other : Act.hands plan.fail a (.passed y id targets) = 0 := by simp [same]
        simp only [Act.passes, Act.names, same, not_false_eq_true, tick_false, other, ih.2]
        exact ⟨ih.1.trans (Nat.le_add_right _ _), trivial⟩
    | assigned => simpa using ⟨ih.1.trans (Nat.le_add_right _ _), ih.2⟩
    | _ => simpa using ih

/-- Only a step that reports an error leads to the fail node. -/
theorem error_of_fail (plan : Nested wf) {targets : List (Option String)}
    (successors : Successors wf (Fixed result) x targets) (member : some plan.fail ∈ targets) :
    x ∈ plan.body.steps ∧ result x = .resultError := by
  cases plan.handed successors with
  | on => exact absurd member (plan.fail_not_handed x)
  | failing step error => exact ⟨step, error.symm⟩
  | nowhere => simp at member

variable (result) in
/-- A node that is no step does not lead to the fail node. -/
theorem fail_not_target (plan : Nested wf) {node : JobPlanNode} {targets : List (Option String)}
    (found : wf.getNode x = some node) (other : node.type ≠ .action)
    (successors : Successors wf (Fixed result) x targets) : some plan.fail ∉ targets := by
  intro member
  obtain ⟨node', found', type, _⟩ := plan.realizes.step (plan.error_of_fail successors member).1
  obtain rfl := Option.some.inj (found.symm.trans found')
  exact other type

theorem named_fail (plan : Nested wf) (lawful : Lawful wf (Fixed result) trace)
    (all : ∀ a ∈ plan.body.steps, result a = .resultSuccess) : named wf plan.fail trace = 0 := by
  induction lawful with
  | nil => rfl
  | @snoc trace act _ legal ih =>
    rw [named_append, ih]
    cases act with
    | passed y id targets =>
      have absent : some plan.fail ∉ targets := by
        intro member
        obtain ⟨step, error⟩ := plan.error_of_fail legal.1 member
        rw [all y step] at error
        cases error
      simpa using List.count_eq_zero_of_not_mem absent
    | assigned status => simp [plan.startFound, plan.start_fresh.2.1]
    | _ => rfl

theorem role_type (plan : Nested wf) {node : JobPlanNode} (found : wf.getNode x = some node) :
    node.type = .start ∧ x = plan.start ∨ node.type = .end_ ∧ x = plan.end_ ∨ node.type = .fail ∧ x = plan.fail ∨
      x ∈ plan.body.names ∧ (node.type = .action ∨ node.type = .fork ∨ node.type = .join) := by
  have listed := plan.complete x (by simp [found])
  simp only [List.mem_cons] at listed
  rcases listed with rfl | rfl | rfl | inner
  · obtain ⟨other, same, type, _⟩ := plan.starts
    obtain rfl := Option.some.inj (found.symm.trans same)
    exact .inl ⟨type, rfl⟩
  · obtain ⟨other, same, type⟩ := plan.ends
    obtain rfl := Option.some.inj (found.symm.trans same)
    exact .inr (.inl ⟨type, rfl⟩)
  · obtain ⟨other, same, type⟩ := plan.fails
    obtain rfl := Option.some.inj (found.symm.trans same)
    exact .inr (.inr (.inl ⟨type, rfl⟩))
  · refine .inr (.inr (.inr ⟨inner, ?_⟩))
    cases plan.role inner with
    | action same type | fork same type | join same type =>
      obtain rfl := Option.some.inj (found.symm.trans same)
      simp [type]

theorem eq_end (plan : Nested wf) {node : JobPlanNode} (found : wf.getNode x = some node) (type : node.type = .end_) :
    x = plan.end_ := by
  have role := plan.role_type found
  simpa [type] using role

theorem eq_fail (plan : Nested wf) {node : JobPlanNode} (found : wf.getNode x = some node) (type : node.type = .fail) :
    x = plan.fail := by
  have role := plan.role_type found
  simpa [type] using role

/-- Once the end node is entered, every node of the flow has handed control on. -/
theorem given_of_end (plan : Nested wf) (keys : plan.DistinctKeys) {results : String → JobPlanNodeState → Prop}
    (lawful : Lawful wf results trace) (ended : 0 < entered plan.end_ trace) :
    ∀ x ∈ plan.body.names, 0 < given plan.fail trace x := by
  obtain ⟨_, _, _, leads⟩ := plan.starts
  have reached := plan.entered_end_le lawful
  have single := width_of_single leads
  exact Flow.give_of_out plan.proper (plan.restrained keys lawful) (plan.bounded lawful) (plan.given_start_le lawful)
    (by omega)

end Nested

end Results

/-- The counter of a join that is being entered can be read. -/
theorem Healthy.counter {wf : Workflow} (plan : Nested wf) (keys : plan.DistinctKeys)
    {results : String → JobPlanNodeState → Prop} {names : List String} {s : Run} {y : String} {node : JobPlanNode}
    (healthy : Healthy wf results (y :: names) s) (running : s.status = .running) (found : wf.getNode y = some node)
    (type : node.type = .join) : (s.vars.lookup (pairVar (orNull node.forkName) y)).bind parseInt ≠ none := by
  obtain ⟨n, member⟩ := plan.join_pair found type
  have balance := (healthy.balanced running).entering y
  have handled := (healthy.balanced running).handling y node found (by simp [type]) (by simp [type])
  -- the history goes on with the entry of the join
  have lawful : Lawful wf results (s.trace ++ [.entered y]) := by
    refine healthy.owed.lawful.snoc ⟨by simp [found], ?_⟩
    simp only [Balanced.count_cons_tick, tick_true] at balance
    omega
  have taken : entered y s.trace + 1 ≤ n * given plan.fail (s.trace ++ [.entered y]) (orNull node.forkName) := by
    simpa using ((plan.taken_le keys lawful).2 _ member).2
  have barrier : Counted (orNull node.forkName) y n (s.trace ++ [.entered y]) :=
    plan.counted_of_lawful keys lawful member
  have once : forked (orNull node.forkName) s.trace ≤ 1 := by simpa using barrier.once
  have fewer : given plan.fail (s.trace ++ [.entered y]) (orNull node.forkName) ≤
    forked (orNull node.forkName) s.trace := by
    obtain ⟨⟨fork, forkFound, forkType, _⟩, _⟩ := plan.realizes.pair member
    exact (given_le _ _ _).trans (by simpa [forkType, mayLeave] using lawful.passed_le forkFound)
  have forked_once : given plan.fail (s.trace ++ [.entered y]) (orNull node.forkName) = 1 := by
    rcases Nat.le_one_iff_eq_zero_or_eq_one.mp (fewer.trans once) with zero | one
    · simp [zero] at taken
    · exact one
  rw [forked_once] at taken
  simp only [type, Hella.handled] at handled
  have value := barrier.counts (by simp; omega) (by simp; omega)
  have vars : varsOf (s.trace ++ [.entered y]) = s.vars := by
    rw [varsOf_append, healthy.owed.vars]
    rfl
  rw [vars] at value
  rw [value, Option.bind_some, parseInt_toString]
  simp

/-- No calm step changes the events of the plans. -/
theorem Calm.eventOf {env : Env} {wf : Workflow} {names names' : List String} {s t : Run}
    (calm : Calm env wf names s names' t) (id : Nat) : t.store.eventOf id = s.store.eventOf id := by
  cases calm with
  | absent | skips | acts | forks | arrives | releases | underflows | faults => rfl
  | begins => exact Store.eventOf_mark s.store _ _ _ _
  | ends found type notified =>
    refine (Store.eventOf_mark _ _ _ _ _).trans ?_
    cases notified <;> rfl
  | gives found type notified =>
    refine (Store.eventOf_mark _ _ _ _ _).trans ?_
    cases notified <;> rfl

/-- An event is produced exactly when the end node is entered. -/
theorem Calm.produces {env : Env} {wf : Workflow} {names names' : List String} {s t : Run} (plan : Nested wf)
    {last : JobPlanNode} (found : wf.getNode plan.end_ = some last) (type : last.type = .end_)
    (calm : Calm env wf names s names' t) :
    t.store.producedEvents = s.store.producedEvents ∧ entered plan.end_ t.trace = entered plan.end_ s.trace ∨
      t.store.producedEvents = s.store.producedEvents ++ s.store.eventOf last.jobExecutionPlanID ∧
        entered plan.end_ t.trace = entered plan.end_ s.trace + 1 := by
  -- a nested plan has one end node, so only that node produces the event
  have other {y : String} {node : JobPlanNode} (there : wf.getNode y = some node) (different : node.type ≠ .end_) :
      y ≠ plan.end_ := by
    rintro rfl
    obtain rfl := Option.some.inj (found.symm.trans there)
    exact different type
  cases calm with
  | absent | skips => exact .inl ⟨rfl, rfl⟩
  | begins there kind | acts there kind | forks there kind | arrives there kind | releases there kind
  | underflows there kind | faults there kind =>
    exact .inl ⟨rfl, by simp [entered, other there (by simp [kind])]⟩
  | ends there kind notified =>
    obtain rfl := plan.eq_end there kind
    obtain rfl := Option.some.inj (found.symm.trans there)
    refine .inr ⟨rfl, ?_⟩
    cases notified <;> simp [entered]
  | gives there kind notified =>
    refine .inl ⟨?_, ?_⟩
    · cases notified <;> rfl
    · cases notified <;> simp [entered, other there (by simp [kind])]

/-! ### The order of events -/

/-- Every dispatch of an action comes after a history of the given kind. -/
def Preceded (wf : Workflow) (P : List Act → Prop) (trace : List Act) : Prop :=
  ∀ before name id event, before ++ [.dispatched name id event] <+: trace → wf.IsAction name → P before

namespace Preceded

variable {env : Env} {wf : Workflow} {P : List Act → Prop} {trace : List Act}

theorem append (preceded : Preceded wf P trace) {act : Act} (next : act.Aloof wf ∨ P trace) :
    Preceded wf P (trace ++ [act]) := by
  intro before name id event inside action
  obtain whole | earlier := List.prefix_concat_iff.mp inside
  · obtain ⟨rfl, same⟩ := List.append_inj' whole rfl
    obtain rfl : Act.dispatched name id event = act := by simpa using same
    exact next.resolve_left fun aloof => aloof action
  · exact preceded before name id event earlier action

theorem aloof (preceded : Preceded wf P trace) (acts : List Act) (aloof : ∀ act ∈ acts, act.Aloof wf) :
    Preceded wf P (trace ++ acts) := by
  induction acts generalizing trace with
  | nil => simpa using preceded
  | cons act rest ih =>
    have next := ih (preceded.append (.inl (aloof act (by simp)))) fun other member => aloof other (by simp [member])
    simpa using next

theorem notified {node : JobPlanNode} {id : Nat} {s t : Run} {y : String} (preceded : Preceded wf P s.trace)
    (notified : Notified env wf node id s t) (found : wf.getNode y = some node) (type : node.type ≠ .action) :
    Preceded wf P t.trace := by
  cases notified with
  | silent => exact preceded
  | sent event =>
    refine preceded.append (.inl ?_)
    rintro ⟨other, same, action⟩
    rw [Workflow.getNode_name found] at same
    obtain rfl := Option.some.inj (found.symm.trans same)
    exact type action

end Preceded

/-- No failing step has been reported. -/
def Unfailed {wf : Workflow} (plan : Nested wf) (result : String → JobPlanNodeState) (trace : List Act) : Prop :=
  ∀ a ∈ plan.body.steps, result a = .resultError → completed a trace = 0

/-- The rest of the engine keeps to the other runs, and produces no event meanwhile. -/
structure Bystanders (wf : Workflow) (s t : Store) : Prop extends Others wf s t where
  events : t.producedEvents = s.producedEvents
  plans : ∀ id, t.eventOf id = s.eventOf id

/-- What holds of an instance whose actions report fixed results. -/
structure Orderly {wf : Workflow} (plan : Nested wf) (result : String → JobPlanNodeState) (base : Store)
    (names : List String) (s : Run) : Prop where
  healthy : Healthy wf (Fixed result) names s
  failing : plan.fail ∈ names → names = [plan.fail]
  failed : s.status = .failed → names = [] ∧ 0 < named wf plan.fail s.trace
  succeeded : s.status = .succeeded → 0 < entered plan.end_ s.trace
  preceded : Preceded wf (Unfailed plan result) s.trace
  plans : ∀ id, s.store.eventOf id = base.eventOf id
  produced : ∀ node, wf.getNode plan.end_ = some node → s.store.producedEvents =
    base.producedEvents ++ (List.replicate (entered plan.end_ s.trace) (base.eventOf node.jobExecutionPlanID)).flatten

namespace Orderly

variable {env : Env} {wf : Workflow} {plan : Nested wf} {result : String → JobPlanNodeState}
  {base : Store} {names names' rest : List String} {s t : Run} {y : String}

/-- An instance that has to enter a node other than the fail node has heard of no error. -/
theorem unfailed (keys : plan.DistinctKeys) (orderly : Orderly plan result base (y :: rest) s) (other : y ≠ plan.fail) :
    Unfailed plan result s.trace := by
  intro a member error
  have lawful := orderly.healthy.owed.lawful
  obtain ⟨passes, given⟩ := plan.passed_error lawful member error
  -- if the fail node was entered the run has failed or is about to
  cases status : s.status with
  | prep => simpa using (orderly.healthy.fresh status).2
  | suspended => exact absurd status orderly.healthy.status
  | failed => simpa using (orderly.failed status).1
  | succeeded =>
    -- a run that has succeeded handed on every action by success
    have handed := plan.given_of_end keys lawful (orderly.succeeded status) a (Flow.steps_subset _ member)
    omega
  | running =>
    have balanced := orderly.healthy.balanced status
    obtain ⟨node, found, type, _⟩ := plan.realizes.step member
    obtain ⟨failNode, failFound, failType⟩ := plan.fails
    have left := balanced.leaving a node found (.inl type)
    have entering := balanced.entering plan.fail
    have unended := balanced.unended plan.fail failNode failFound (.inl failType)
    -- what is due next is not the fail node, and it has not been entered before
    have absent : plan.fail ∉ y :: rest := by
      intro member
      have only := orderly.failing member
      exact other (List.cons.inj only).1
    rw [List.count_eq_zero_of_not_mem absent] at entering
    simp only [type, mayLeave] at left
    omega

theorem fail_not_next (calm : Calm env wf names s names' t) (orderly : Orderly plan result base names s) :
    plan.fail ∉ names' := by
  have rest {y : String} {rest : List String} (whole : names = y :: rest) : plan.fail ∉ rest := by
    intro member
    have only := orderly.failing (by simp [whole, member])
    rw [whole] at only
    obtain ⟨_, rfl⟩ := List.cons.inj only
    simp at member
  cases calm with
  | absent | skips | acts | arrives | underflows | faults | ends | gives => exact rest rfl
  | begins found type =>
    have target := plan.fail_not_target result found (by simp [type]) ⟨_, found, by rw [type]⟩
    simpa [rest rfl, eq_comm] using target
  | forks found type running paths =>
    have target := plan.fail_not_target result found (by simp [type])
      ⟨_, found, by rw [type]; exact ⟨_, paths, rfl⟩⟩
    simpa [rest rfl] using target
  | releases found type =>
    have target := plan.fail_not_target result found (by simp [type]) ⟨_, found, by rw [type]⟩
    simpa [rest rfl, eq_comm] using target

theorem calm (keys : plan.DistinctKeys) (calm : Calm env wf names s names' t)
    (orderly : Orderly plan result base names s) : Orderly plan result base names' t := by
  have healthy := orderly.healthy.calm plan keys calm
  have entered_le (y : String) : entered y s.trace ≤ entered y t.trace := total_mono _ calm.grows
  have named_le : named wf plan.fail s.trace ≤ named wf plan.fail t.trace := total_mono _ calm.grows
  -- only the fail node gives up, so the fields about failure concern one step
  obtain ⟨some_name, _⟩ := calm.status
  refine ⟨healthy, fun member => absurd member (orderly.fail_not_next calm), ?_, ?_, ?_, ?_, ?_⟩
  · intro failed
    cases calm with
    | absent | skips | begins | acts | forks | arrives | releases | underflows =>
      exact absurd (orderly.failed failed).1 some_name
    -- in a nested plan a join always finds its counter
    | faults found type running value => exact absurd value (orderly.healthy.counter plan keys running found type)
    | ends => simp at failed
    | gives found type =>
      obtain rfl := plan.eq_fail found type
      have only := orderly.failing (by simp)
      have due := orderly.healthy.owed.entering plan.fail
      simp only [List.map_cons, total_cons, Due.enters, tick_true] at due
      exact ⟨(List.cons.inj only).2, by omega⟩
  · intro succeeded
    cases calm with
    | absent | skips | begins | acts | forks | arrives | releases | underflows =>
      exact (orderly.succeeded succeeded).trans_le (entered_le _)
    | faults | gives => simp at succeeded
    | ends found type notified =>
      obtain rfl := plan.eq_end found type
      -- the end node is entered once, with the notice it sends
      have told : entered plan.end_ (s.trace ++ [.entered plan.end_]) ≤ _ := total_mono _ notified.grows
      rw [entered_append] at told
      simp only [Act.enters, tick_true] at told
      simp [entered] at told ⊢
      omega
  · cases calm with
    | absent | skips => exact orderly.preceded
    | begins | forks | arrives | releases | underflows | faults =>
      simp only [List.append_assoc]
      exact orderly.preceded.aloof _ (by simp [Act.Aloof])
    -- an action is not the fail node, so no error has gone before it
    | @acts y _ _ node row event k n found type =>
      have other : y ≠ plan.fail := by
        rintro rfl
        obtain ⟨failNode, failFound, failType⟩ := plan.fails
        obtain rfl := Option.some.inj (found.symm.trans failFound)
        simp [type] at failType
      have unfailed := orderly.unfailed keys other
      have entered := orderly.preceded.aloof ([.entered y] ++ [.added row.id]) (by simp [Act.Aloof])
      rw [← List.append_assoc] at entered
      refine entered.append (.inr fun a member error => ?_)
      simpa only [completed_append, Act.completes, Nat.add_zero] using unfailed a member error
    | @ends y _ _ u node row date n found type notified =>
      have entered := orderly.preceded.aloof [.entered y] (by simp [Act.Aloof])
      simp only [List.append_assoc]
      exact (entered.notified notified found (by simp [type])).aloof _ (by simp [Act.Aloof])
    | @gives y _ _ u node row g date n found type notified =>
      have entered := orderly.preceded.aloof ([.entered y] ++ [.added row.id]) (by simp [Act.Aloof])
      rw [← List.append_assoc] at entered
      exact (entered.notified notified found (by simp [type])).append (.inl trivial)
  · intro id
    rw [← orderly.plans id]
    exact calm.eventOf id
  -- the event is produced with the end node and never otherwise
  · intro node found
    obtain ⟨last, there, type⟩ := plan.ends
    obtain rfl := Option.some.inj (there.symm.trans found)
    rcases calm.produces plan found type with ⟨same, entered⟩ | ⟨more, entered⟩
    · rw [same, entered]
      exact orderly.produced last found
    · rw [more, entered, orderly.produced last found, orderly.plans, List.replicate_succ']
      simp

variable (result base) in
theorem calmly (keys : plan.DistinctKeys)
    (once : ∀ name node, wf.getNode name = some node → node.type = .action → node.errorMaxRedoTimes = 0) :
    Calmly env wf (Bystanders wf) (Fixed result) (Orderly plan result base) where
  rowed _ _ orderly := orderly.healthy.rowed
  calm _ _ _ _ calm orderly := orderly.calm keys calm
  -- another workflow touches neither the rows nor the plan of this one
  others _ s store others orderly := by
    refine ⟨orderly.healthy.elsewhere others.toOthers, orderly.failing, orderly.failed, orderly.succeeded,
      orderly.preceded, fun id => (others.plans id).trans (orderly.plans id), fun node found => ?_⟩
    exact others.events.trans (orderly.produced node found)
  ticks _ _ := ⟨⟨fun sound => ⟨sound.distinct, sound.known⟩, fun _ member _ => member⟩, rfl, fun _ => rfl⟩
  closes _ _ := ⟨⟨fun sound => ⟨sound.distinct, sound.known⟩, fun _ member _ => member⟩, rfl, fun _ => rfl⟩
  starts s y found prep orderly := by
    obtain rfl := Option.some.inj (plan.startFound.symm.trans found)
    refine ⟨orderly.healthy.launched plan prep, ?_, by simp, by simp, orderly.preceded.append (.inl trivial),
      orderly.plans, by simpa using orderly.produced⟩
    intro member
    exact absurd (List.mem_singleton.mp member).symm plan.start_fresh.2.1
  -- a report that comes after the end changes nothing but its row
  late s name node state x handles ended orderly := by
    refine ⟨orderly.healthy.late handles ended, by simp, ?_, ?_, orderly.preceded.append (.inl trivial), orderly.plans,
      by simpa [Run.written, Store.updateXjobState] using orderly.produced⟩
    · intro failed
      exact ⟨rfl, by simpa [Run.written] using (orderly.failed failed).2⟩
    · intro succeeded
      simpa [Run.written] using orderly.succeeded succeeded
  -- no action has attempts left, so no answer is held back
  retries s name node state row x handles again orderly := by
    have never := once name node handles.found handles.type
    have some_time := again.2.1
    omega
  answers s name node state x handles live orderly := by
    have noted := orderly.preceded.aloof [.completing name x.id] (by simp [Act.Aloof])
    refine ⟨orderly.healthy.answered handles live, ?_, ?_, ?_, noted.append (.inl trivial), orderly.plans, ?_⟩
    -- the fail node is next only if the answer names it
    · intro member
      cases answer : node.answer state with
      | none => simp [answer] at member
      | some target =>
        obtain rfl : plan.fail = target := by simpa [answer] using member
        rfl
    · intro failed
      have status : s.status = .failed := failed
      simp [status, WorkflowStatus.isEndState] at live
    · intro succeeded
      have status : s.status = .succeeded := succeeded
      simp [status, WorkflowStatus.isEndState] at live
    · simpa [Run.written, Store.updateXjobState, entered] using orderly.produced

variable (plan result) in
theorem created {store : Store} (sound : store.Sound) : Orderly plan result store [] { store := store } := by
  constructor
  · exact Healthy.created sound
  · intro member
    simp at member
  · intro failed
    simp at failed
  · intro succeeded
    simp at succeeded
  · intro before name id event inside
    simp at inside
  · intro id
    rfl
  · intro node _
    simp [entered]

end Orderly

/-! ### The variables -/

section Vars

variable {wf : Workflow} {results : String → JobPlanNodeState → Prop} {trace : List Act}

/-- Only the counters of the pairs are ever written. -/
theorem Nested.key_of_lookup (plan : Nested wf) (lawful : Lawful wf results trace) {key text : String}
    (value : (varsOf trace).lookup key = some text) : ∃ p ∈ plan.body.pairs, pairVar p.1 p.2.1 = key := by
  induction lawful generalizing text with
  | nil => simp at value
  -- a counter is in the map only after its fork, until its join releases it
  | @snoc trace act _ legal ih =>
    rw [varsOf_append] at value
    cases act with
    | forked f j n =>
      by_cases same : pairVar f j = key
      · exact ⟨_, plan.forked_pair legal, same⟩
      · rw [Act.write, AList.lookup_insert_ne (Ne.symm same)] at value
        exact ih value
    | arrived f j left =>
      -- a join lowers a counter that its own fork has set
      obtain ⟨node, found, type, rfl, _⟩ := legal
      obtain ⟨n, member⟩ := plan.join_pair found type
      by_cases same : pairVar (orNull node.forkName) j = key
      · exact ⟨_, member, same⟩
      · rw [Act.write, AList.lookup_insert_ne (Ne.symm same)] at value
        exact ih value
    | released f j =>
      by_cases same : pairVar f j = key
      · simp [Act.write, same] at value
      · rw [Act.write, AList.lookup_erase_ne (Ne.symm same)] at value
        exact ih value
    | _ => exact ih value

/-- Once every join has let control through, no variable is left. -/
theorem Nested.vars_empty (plan : Nested wf) (keys : plan.DistinctKeys) (lawful : Lawful wf results trace)
    (through : ∀ p ∈ plan.body.pairs, 0 < given plan.fail trace p.2.1) : varsOf trace = ∅ := by
  have absent (key : String) : key ∉ varsOf trace := by
    rw [← AList.lookup_eq_none]
    by_contra present
    obtain ⟨text, value⟩ := Option.ne_none_iff_exists'.mp present
    obtain ⟨p, member, rfl⟩ := plan.key_of_lookup lawful value
    have barrier := plan.counted_of_lawful keys lawful member
    have opened : 0 < released p.2.1 trace := (through p member).trans_le ((given_le ..).trans barrier.through)
    have full : arrivals p.2.1 trace = p.2.2 := by
      by_contra fewer
      rw [barrier.opens, if_neg fewer] at opened
      omega
    simp [barrier.gone full] at value
  apply AList.ext
  apply List.eq_nil_iff_forall_not_mem.mpr
  intro entry member
  exact absent entry.1 (List.mem_map_of_mem member)

end Vars

/-! ### The outcome -/

/-- What the reports handled so far amount to. -/
structure PlanOutcome {wf : Workflow} (plan : Nested wf) (result : String → JobPlanNodeState) (base : Store) (s : Run) :
    Prop where
  /-- an action is dispatched for the first time, and after all actions before it were reported -/
  ordered : ∀ before name id event, before ++ [.dispatched name id event] <+: s.trace → name ∈ plan.body.steps →
    dispatched name before = 0 ∧ ∀ x, plan.body.Before x name → 0 < completed x before
  /-- all results are successes and no dispatched action is left to be reported -/
  succeeds : (∀ a ∈ plan.body.steps, result a = .resultSuccess) →
    (∀ a ∈ plan.body.steps, completed a s.trace = dispatched a s.trace) →
      s.status = .succeeded ∧ s.vars = ∅ ∧ (∀ a ∈ plan.body.steps, dispatched a s.trace = 1) ∧
        ∀ node, wf.getNode plan.end_ = some node →
          s.store.producedEvents = base.producedEvents ++ base.eventOf node.jobExecutionPlanID
  /-- an error has been reported -/
  fails : ∀ a ∈ plan.body.steps, result a = .resultError → 0 < completed a s.trace →
    s.status = .failed ∧ s.store.producedEvents = base.producedEvents ∧
      ∀ before id after, s.trace = before ++ .completing a id :: after →
        ∀ name id event, wf.IsAction name → .dispatched name id event ∉ after

section PlanOutcome

variable {wf : Workflow} {plan : Nested wf} {result : String → JobPlanNodeState} {base : Store} {s : Run}

/-- Every action is dispatched once, after all actions before it. -/
theorem Nested.ordered {results : String → JobPlanNodeState → Prop} {trace : List Act} (plan : Nested wf)
    (keys : plan.DistinctKeys) (lawful : Lawful wf results trace) {before : List Act} {name : String} {id : Nat}
    {event : JobEvent} (sent : before ++ [.dispatched name id event] <+: trace) (member : name ∈ plan.body.steps) :
    dispatched name before = 0 ∧ ∀ x, plan.body.Before x name → 0 < completed x before := by
  obtain ⟨after, rfl⟩ := sent
  have told : Lawful wf results (before ++ [.dispatched name id event]) := Lawful.of_append lawful
  have earlier : Lawful wf results before := Lawful.of_append told
  obtain ⟨node, found, type, _⟩ := plan.realizes.step member
  have once := (plan.taken_le keys earlier).1 name member
  have fewer : dispatched name before + 1 ≤ entered name before := by
    simpa using told.dispatched_le found type
  refine ⟨by omega, fun x first => ?_⟩
  have handed := Flow.give_of_before plan.proper (plan.restrained keys earlier) (plan.bounded earlier)
    (plan.given_start_le earlier) first (by omega)
  obtain ⟨other, otherFound, otherType, _⟩ := plan.realizes.step first.mem.1
  have left : passed x before ≤ completed x before := by
    simpa [otherType, mayLeave] using earlier.passed_le otherFound
  exact handed.trans_le ((given_le ..).trans left)

theorem Nested.entered_end_le_one {results : String → JobPlanNodeState → Prop} {trace : List Act} (plan : Nested wf)
    (keys : plan.DistinctKeys) (lawful : Lawful wf results trace) : entered plan.end_ trace ≤ 1 := by
  obtain ⟨_, _, _, leads⟩ := plan.starts
  have through := Flow.out_le plan.proper (plan.restrained keys lawful) (plan.bounded lawful)
  rw [width_of_single leads, Nat.one_mul] at through
  exact (plan.entered_end_le lawful).trans (through.trans (plan.given_start_le lawful))

/-- All results are successes: when all of them have been handled, the plan has succeeded. -/
theorem Orderly.succeeds (orderly : Orderly plan result base [] s) (keys : plan.DistinctKeys)
    (results : ∀ a, result a = .resultSuccess ∨ result a = .resultError) (started : s.status ≠ .prep)
    (all : ∀ a ∈ plan.body.steps, result a = .resultSuccess)
    (reported : ∀ a ∈ plan.body.steps, completed a s.trace = dispatched a s.trace) :
    s.status = .succeeded ∧ s.vars = ∅ ∧ (∀ a ∈ plan.body.steps, dispatched a s.trace = 1) ∧
      ∀ node, wf.getNode plan.end_ = some node →
        s.store.producedEvents = base.producedEvents ++ base.eventOf node.jobExecutionPlanID := by
  have lawful := orderly.healthy.owed.lawful
  have status : s.status = .succeeded := by
    -- the run is over: it was started, it did not fail, and it is not waiting
    cases status : s.status with
    | prep => exact absurd status started
    | suspended => exact absurd status orderly.healthy.status
    | succeeded => rfl
    | failed =>
      have named := (orderly.failed status).2
      rw [plan.named_fail lawful all] at named
      omega
    -- a run that is waiting has an action out whose report is missing
    | running =>
      have never (x : String) : ¬ Fixed result x .dispatchFail := by
        intro same
        have either := results x
        rw [← same] at either
        simp at either
      obtain ⟨a, member, fewer⟩ := plan.outstanding keys lawful never (orderly.healthy.begun status)
        (orderly.healthy.balanced status)
      have same := reported a member
      omega
  have handed := plan.given_of_end keys lawful (orderly.succeeded status)
  refine ⟨status, ?_, fun a member => ?_, fun node found => ?_⟩
  · rw [orderly.healthy.owed.vars]
    exact plan.vars_empty keys lawful fun p member => handed _ (Flow.pairs_subset member).2.1
  -- each action was taken once and handed on once, so it was dispatched once
  · obtain ⟨node, found, type, _⟩ := plan.realizes.step member
    have once := (plan.taken_le keys lawful).1 a member
    have sent := lawful.dispatched_le found type
    have same := reported a member
    have left : passed a s.trace ≤ completed a s.trace := by simpa [type, mayLeave] using lawful.passed_le found
    have given := (handed a (Flow.steps_subset _ member)).trans_le (given_le ..)
    omega
  · have ended := orderly.succeeded status
    have once := plan.entered_end_le_one keys lawful
    have exactly : entered plan.end_ s.trace = 1 := by omega
    simpa [exactly] using orderly.produced node found

/-- An error has been reported: the plan has failed. -/
theorem Orderly.fails (orderly : Orderly plan result base [] s) (keys : plan.DistinctKeys) {a : String}
    (member : a ∈ plan.body.steps) (error : result a = .resultError) (reported : 0 < completed a s.trace) :
    s.status = .failed ∧ s.store.producedEvents = base.producedEvents ∧
      ∀ before id after, s.trace = before ++ .completing a id :: after →
        ∀ name id event, wf.IsAction name → .dispatched name id event ∉ after := by
  have lawful := orderly.healthy.owed.lawful
  obtain ⟨passes, kept⟩ := plan.passed_error lawful member error
  have unended : entered plan.end_ s.trace = 0 := by
    by_contra ended
    have handed := plan.given_of_end keys lawful (Nat.pos_of_ne_zero ended) a (Flow.steps_subset _ member)
    omega
  refine ⟨?_, ?_, ?_⟩
  · cases status : s.status with
    | prep => simp [(orderly.healthy.fresh status).1, completed] at reported
    | suspended => exact absurd status orderly.healthy.status
    | failed => rfl
    | succeeded =>
      have ended := orderly.succeeded status
      omega
    | running =>
      -- the report was passed on to the fail node, which ends the run
      have balanced := orderly.healthy.balanced status
      obtain ⟨node, found, type, _⟩ := plan.realizes.step member
      obtain ⟨failNode, failFound, failType⟩ := plan.fails
      have left := balanced.leaving a node found (.inl type)
      have entering := balanced.entering plan.fail
      have never := balanced.unended plan.fail failNode failFound (.inl failType)
      simp only [type, mayLeave] at left
      simp only [List.count_nil] at entering
      omega
  · obtain ⟨node, found, _⟩ := plan.ends
    simpa [unended] using orderly.produced node found
  · intro before id after whole name row event action told
    obtain ⟨between, later, rfl⟩ := List.append_of_mem told
    have unfailed := orderly.preceded (before ++ .completing a id :: between) name row event
      ⟨later, by simp [whole]⟩ action a member error
    simp [completed] at unfailed

end PlanOutcome

/-- The outcome does not depend on the order of the reports: whatever the results of the
actions are, and in whatever order the outstanding ones are handled, a properly nested
plan that was started goes the same way. -/
theorem outcome {env : Env} {wf : Workflow} {store : Store} {s : Run} {result : String → JobPlanNodeState}
    (plan : Nested wf) (dao : ∀ n, env.daoSucceeds n = true)
    (jobs : ∀ name node, wf.getNode name = some node → node.type = .action → node.xjobMeta.isSome = true)
    (once : ∀ name node, wf.getNode name = some node → node.type = .action → node.errorMaxRedoTimes = 0)
    (keys : plan.DistinctKeys) (enough : plan.names.length ≤ env.stackDepth) (sound : store.Sound)
    (results : ∀ a, result a = .resultSuccess ∨ result a = .resultError)
    (course : Course env wf (Bystanders wf) (Reports wf (Fixed result)) store s) (started : s.status ≠ .prep) :
    PlanOutcome plan result store s := by
  have orderly : Orderly plan result store [] s :=
    (Orderly.calmly result store keys once).course (plan.steady dao jobs (plan.roomy enough)) plan.startFound course
      (.created plan result sound)
  constructor
  · intro before name id event sent member
    exact plan.ordered keys orderly.healthy.owed.lawful sent member
  · exact orderly.succeeds keys results started
  · intro a member error reported
    exact orderly.fails keys member error reported

namespace Diamond

theorem reports {s : Run} {name : String} {id : Nat} {node : JobPlanNode} (found : workflow.getNode name = some node)
    (type : node.type = .action) (fewer : completed name s.trace < entered name s.trace)
    (sent : s.trace.any (Act.sends name id) = true) :
    Reports workflow (Fixed fun _ => .resultSuccess) s name (report .resultSuccess id) := by
  refine ⟨⟨⟨node, found, by rw [type]; rfl⟩, fewer, fun state reported => ?_⟩, ⟨node, found, type⟩, exists_sent sent,
    .resultSuccess, rfl, rfl⟩
  exact (Option.some.inj reported).symm

theorem finished_course : Course Env.calm workflow (Bystanders workflow)
    (Reports workflow (Fixed fun _ => .resultSuccess)) store finished := by
  have first : Course Env.calm workflow (Bystanders workflow) (Reports workflow (Fixed fun _ => .resultSuccess)) store
      branched :=
    .completing (.starting .created) (reports rfl rfl (by decide +kernel) (by decide +kernel))
  have second : Course Env.calm workflow (Bystanders workflow) (Reports workflow (Fixed fun _ => .resultSuccess)) store
      waiting := .completing first (reports rfl rfl (by decide +kernel) (by decide +kernel))
  exact .completing second (reports rfl rfl (by decide +kernel) (by decide +kernel))

theorem once (name : String) (node : JobPlanNode) (found : workflow.getNode name = some node)
    (type : node.type = .action) : node.errorMaxRedoTimes = 0 := by
  have all : ∀ node ∈ plan.jobPlanNodeList, node.type = .action → node.errorMaxRedoTimes = 0 := by decide
  exact all node (Workflow.getNode_mem found) type

end Diamond

/-- All actions of the diamond have been reported: it has succeeded. -/
theorem outcome_diamond : (∀ a ∈ Diamond.nested.body.steps, completed a Diamond.finished.trace =
      dispatched a Diamond.finished.trace) ∧
    PlanOutcome Diamond.nested (fun _ => .resultSuccess) Diamond.store Diamond.finished := by
  constructor
  · decide +kernel
  · exact outcome Diamond.nested (fun _ => rfl) Diamond.jobs Diamond.once Diamond.nested_distinctKeys (by decide)
      Diamond.sound (fun _ => .inl rfl) Diamond.finished_course (by decide +kernel)

end Hella

import Hella.Control.CalmSteps
import Hella.Control.Pairs

/-!
# Balanced histories

While a properly nested plan is running calmly, nothing that was handed on gets lost:
every node that was named is entered or still to be entered, every node that was entered
has done its part, and every node that may be left has been left.
-/
namespace Hella

open Text ForkJoin

/-- The node an entry of the history is about. -/
def Act.subject : Act → Option String
  | .entered name | .completing name _ | .dispatched name _ _ | .forked name _ _ | .arrived _ name _
  | .released _ name | .passed name _ _ => some name
  | .assigned _ | .added _ | .peeked _ _ => none

section Counts

variable {y : String} {acts trace : List Act}

theorem handled_append (type : JobPlanNodeType) (y : String) (trace acts : List Act) :
    handled type y (trace ++ acts) = handled type y trace + handled type y acts := by
  cases type <;> simp [handled, passed, forked, arrivals, dispatched]

theorem mayLeave_append (type : JobPlanNodeType) (y : String) (trace acts : List Act) :
    mayLeave type y (trace ++ acts) = mayLeave type y trace + mayLeave type y acts := by
  cases type <;> simp [mayLeave, entered, forked, released, completed]

theorem Act.light_of_other {act : Act} (other : act.subject ≠ some y) :
    act.enters y = 0 ∧ act.passes y = 0 ∧ act.forks y = 0 ∧ act.arrives y = 0 ∧ act.releases y = 0 ∧
      act.completes y = 0 ∧ act.dispatches y = 0 := by
  cases act <;> simp_all [Act.subject]

/-- Entries that are about other nodes count nothing for the node. -/
theorem counts_of_other (other : ∀ act ∈ acts, act.subject ≠ some y) (type : JobPlanNodeType) :
    entered y acts = 0 ∧ passed y acts = 0 ∧ handled type y acts = 0 ∧ mayLeave type y acts = 0 := by
  have light (act : Act) (member : act ∈ acts) := Act.light_of_other (other act member)
  have enters : entered y acts = 0 := total_eq_zero _ _ fun act member => (light act member).1
  have passes : passed y acts = 0 := total_eq_zero _ _ fun act member => (light act member).2.1
  have forks : forked y acts = 0 := total_eq_zero _ _ fun act member => (light act member).2.2.1
  have arrives : arrivals y acts = 0 := total_eq_zero _ _ fun act member => (light act member).2.2.2.1
  have releases : released y acts = 0 := total_eq_zero _ _ fun act member => (light act member).2.2.2.2.1
  have completes : completed y acts = 0 := total_eq_zero _ _ fun act member => (light act member).2.2.2.2.2.1
  have dispatches : dispatched y acts = 0 := total_eq_zero _ _ fun act member => (light act member).2.2.2.2.2.2
  refine ⟨enters, passes, ?_, ?_⟩
  · cases type <;> simp [handled, *]
  · cases type <;> simp [mayLeave, *]

end Counts

/-- All that was handed on has been dealt with, but for the nodes still to be entered. -/
structure Balanced (wf : Workflow) (names : List String) (trace : List Act) : Prop where
  entering : ∀ y, entered y trace + names.count y = named wf y trace
  handling : ∀ y node, wf.getNode y = some node → node.type ≠ .fail → node.type ≠ .end_ →
    handled node.type y trace = entered y trace
  leaving : ∀ y node, wf.getNode y = some node → node.type = .action ∨ node.type = .fork ∨ node.type = .join →
    passed y trace = mayLeave node.type y trace
  unended : ∀ y node, wf.getNode y = some node → node.type = .fail ∨ node.type = .end_ → entered y trace = 0

namespace Balanced

variable {wf : Workflow} {names names' : List String} {trace acts : List Act} {x : String} {node : JobPlanNode}

theorem nil (wf : Workflow) : Balanced wf [] [] := by
  constructor
  · intro y
    rfl
  · intro y node _ _ _
    cases node.type <;> rfl
  · intro y node _ _
    cases node.type <;> rfl
  · intro y node _ _
    rfl

/-- A node that goes through its part leaves the other nodes as they are. -/
theorem step (balanced : Balanced wf names trace) (found : wf.getNode x = some node)
    (about : ∀ act ∈ acts, act.subject = none ∨ act.subject = some x)
    (entering : ∀ y, entered y acts + names'.count y = names.count y + named wf y acts)
    (passing : node.type ≠ .fail ∧ node.type ≠ .end_) (handling : handled node.type x acts = entered x acts)
    (leaving : node.type ≠ .start → passed x acts = mayLeave node.type x acts) :
    Balanced wf names' (trace ++ acts) := by
  -- nothing is counted for a node the acts do not name
  have other {y : String} (different : y ≠ x) (type : JobPlanNodeType) :
      entered y acts = 0 ∧ passed y acts = 0 ∧ handled type y acts = 0 ∧ mayLeave type y acts = 0 := by
    refine counts_of_other (fun act member same => ?_) type
    rcases about act member with none_ | own
    · simp [none_] at same
    · rw [own] at same
      exact different (Option.some.inj same).symm
  constructor
  · intro y
    have before := balanced.entering y
    have now := entering y
    simp only [entered, named, total_append] at before now ⊢
    omega
  -- the counts of the node itself come from the hypotheses, those of the others do not move
  · intro y node' found' notFail notEnd
    have before := balanced.handling y node' found' notFail notEnd
    rw [handled_append, entered, total_append, before, entered]
    congr 1
    by_cases same : y = x
    · subst same
      obtain rfl := Option.some.inj (found.symm.trans found')
      exact handling
    · exact (other same node'.type).2.2.1.trans (other same node'.type).1.symm
  · intro y node' found' inner
    have before := balanced.leaving y node' found' inner
    rw [mayLeave_append, passed, total_append, ← before, passed]
    congr 1
    by_cases same : y = x
    · subst same
      obtain rfl := Option.some.inj (found.symm.trans found')
      exact leaving (by rcases inner with type | type | type <;> simp [type])
    · exact (other same node'.type).2.1.trans (other same node'.type).2.2.2.symm
  -- a node that ends the run is not the one that was entered, since this one passes on
  · intro y node' found' final
    have before := balanced.unended y node' found' final
    have different : y ≠ x := by
      rintro rfl
      obtain rfl := Option.some.inj (found.symm.trans found')
      rcases final with type | type
      · exact passing.1 type
      · exact passing.2 type
    rw [entered, total_append, ← entered, before, Nat.zero_add]
    exact (other different .start).1

theorem count_cons_tick (x y : String) (rest : List String) : (x :: rest).count y = rest.count y + tick (x = y) := by
  by_cases same : x = y <;> simp [same]

theorem count_targets (y : String) (targets : List (Option String)) :
    targets.reduceOption.count y = targets.count (some y) := by
  induction targets with
  | nil => rfl
  | cons target rest ih =>
    cases target <;> simp [List.reduceOption_cons_of_some, List.reduceOption_cons_of_none, List.count_cons, ih]

variable {env : Env} {s t : Run}

/-- A calm step that stays running keeps the balance. -/
theorem calm (calm : Calm env wf names s names' t) (running : t.status = .running)
    (known : ∀ y ∈ names, (wf.getNode y).isSome = true)
    (counters : ∀ y node, wf.getNode y = some node → node.type = .join →
      ∀ text number, s.vars.lookup (pairVar (orNull node.forkName) y) = some text → parseInt text = some number →
        0 < number)
    (balanced : Balanced wf names s.trace) : Balanced wf names' t.trace := by
  -- a step that keeps the run going balances; one that ends it is excluded by the status
  cases calm with
  | absent missing =>
    have there := known _ (List.mem_cons_self)
    simp [missing] at there
  | skips found passing stopped => exact absurd running stopped
  | @begins x rest _ node row date n found type running newest =>
    simp only [List.append_assoc, List.cons_append, List.nil_append]
    refine balanced.step found (by simp [Act.subject]) (fun y => ?_) (by simp [type]) ?_ (by simp [type])
    · rw [List.count_append, ← List.reduceOption_singleton, count_targets, count_cons_tick]
      simp [entered, named]
      omega
    · simp [type, handled, entered, passed]
  | @acts x rest _ node row event k n found type newest =>
    simp only [List.append_assoc, List.cons_append, List.nil_append]
    refine balanced.step found (by simp [Act.subject]) (fun y => ?_) (by simp [type]) ?_ fun _ => ?_
    · rw [count_cons_tick]
      simp [entered, named]
      omega
    · simp [type, handled, entered, dispatched]
    · simp [type, mayLeave, passed, completed]
  | @forks x rest _ node toNode found type running paths =>
    simp only [List.append_assoc, List.cons_append, List.nil_append]
    refine balanced.step found (by simp [Act.subject]) (fun y => ?_) (by simp [type]) ?_ fun _ => ?_
    · have same := List.count_map_of_injective (split toNode) some (Option.some_injective String) y
      rw [List.count_append, ← same, count_cons_tick]
      simp [entered, named]
      omega
    · simp [type, handled, entered, forked]
    · simp [type, mayLeave, passed, forked]
  | @arrives x rest _ node text left found type running value number positive =>
    simp only [List.append_assoc, List.cons_append, List.nil_append]
    refine balanced.step found (by simp [Act.subject]) (fun y => ?_) (by simp [type]) ?_ fun _ => ?_
    · rw [count_cons_tick]
      simp [entered, named]
      omega
    · simp [type, handled, entered, arrivals]
    · simp [type, mayLeave, passed, released]
  | @releases x rest _ node text found type running value number =>
    simp only [List.append_assoc, List.cons_append, List.nil_append]
    refine balanced.step found (by simp [Act.subject]) (fun y => ?_) (by simp [type]) ?_ fun _ => ?_
    · rw [List.count_append, ← List.reduceOption_singleton, count_targets, count_cons_tick]
      simp [entered, named]
      omega
    · simp [type, handled, entered, arrivals]
    · simp [type, mayLeave, passed, released]
  -- a counter below one cannot happen in a plan that forks before it joins
  | underflows found type _ value parsed low =>
    have positive := counters _ _ found type _ _ value parsed
    omega
  | faults => simp at running
  | ends => simp at running
  | gives => simp at running

end Balanced

/-! ### Properly nested plans -/

section Nested

variable {env : Env} {wf : Workflow} {plan : Nested wf} {results : String → JobPlanNodeState → Prop}
  {names names' : List String} {trace : List Act} {s t : Run}

theorem Owed.calm (calm : Calm env wf names s names' t)
    (owed : Owed wf results s.status s.vars s.trace (names.map .enter)) :
    Owed wf results t.status t.vars t.trace (names'.map .enter) := by
  have moves : Moves env wf (Expected wf results) (s.entering names) (t.entering names') := calm.moves
  have kept (a b : Agenda) (path : Moves env wf (Expected wf results) a b)
      (holds : Owed wf results a.status a.vars a.trace a.due) : Owed wf results b.status b.vars b.trace b.due := by
    induction path with
    | refl => exact holds
    | tail _ move ih => exact ih.move move
  exact kept _ _ moves owed

namespace Nested

/-- Every node of the plan is there. -/
theorem getNode_isSome (plan : Nested wf) {y : String} (member : y ∈ plan.names) : (wf.getNode y).isSome = true := by
  simp only [names, List.mem_cons] at member
  rcases member with rfl | rfl | rfl | inner
  · obtain ⟨node, found, _⟩ := plan.starts
    simp [found]
  · obtain ⟨node, found, _⟩ := plan.ends
    simp [found]
  · obtain ⟨node, found, _⟩ := plan.fails
    simp [found]
  · cases plan.role inner with
    | action found | fork found | join found => simp [found]

/-- Only nodes of the plan are named. -/
theorem mem_of_named (plan : Nested wf) (lawful : Lawful wf results trace) {y : String}
    (some_time : 0 < named wf y trace) : y ∈ plan.names := by
  -- a name comes into a run only as a target or as the start node
  induction lawful with
  | nil => simp [named] at some_time
  | @snoc trace act _ legal ih =>
    rw [named_append] at some_time
    by_cases before : 0 < named wf y trace
    · exact ih before
    have now : 0 < act.names y wf.workflowManager.getStartNodeName := by omega
    cases act with
    | passed x id targets =>
      have member : some y ∈ targets := List.count_pos_iff.mp now
      -- a target is nothing, the fail node or what the nested plan hands on
      rcases plan.targets legal.1 with rfl | rfl | rfl
      · simp at member
      · obtain rfl : y = plan.fail := by simpa using member
        simp [names]
      · obtain ⟨z, same, inside⟩ := plan.mem_handed member
        obtain rfl := Option.some.inj same
        simp only [names, List.mem_cons] at inside ⊢
        tauto
    | assigned status =>
      simp only [Act.names, tick] at now
      split at now
      next both =>
        obtain rfl : plan.start = y := Option.some.inj (plan.startFound.symm.trans both.2)
        simp [names]
      · omega
    | _ => simp at now

/-- The counter of a join is positive as long as there is one. -/
theorem counter_pos (plan : Nested wf) (keys : plan.DistinctKeys) (lawful : Lawful wf results trace) {y : String}
    {node : JobPlanNode} (found : wf.getNode y = some node) (type : node.type = .join) {text : String} {number : Int}
    (value : (varsOf trace).lookup (pairVar (orNull node.forkName) y) = some text)
    (parsed : parseInt text = some number) : 0 < number := by
  obtain ⟨n, member⟩ := plan.join_pair found type
  cases lawful.pairState keys member with
  | idle absent => simp [absent] at value
  | active left present positive =>
    obtain rfl : toString left = text := Option.some.inj (present.symm.trans value)
    rw [parseInt_toString] at parsed
    obtain rfl : (left : Int) = number := Option.some.inj parsed
    omega

end Nested

/-- A calm step of a properly nested plan that stays running keeps the balance. -/
theorem Balanced.nested (plan : Nested wf) (keys : plan.DistinctKeys) (calm : Calm env wf names s names' t)
    (owed : Owed wf results s.status s.vars s.trace (names.map .enter)) (running : t.status = .running)
    (balanced : Balanced wf names s.trace) : Balanced wf names' t.trace := by
  refine balanced.calm calm running (fun y member => ?_) fun y node found type text number value parsed => ?_
  · refine plan.getNode_isSome (plan.mem_of_named owed.lawful ?_)
    have counted := balanced.entering y
    have positive := List.count_pos_iff.mpr member
    omega
  · rw [owed.vars] at value
    exact plan.counter_pos keys owed.lawful found type value parsed

namespace Nested

/-- A node of the flow names no successor only for a job that could not be dispatched. -/
theorem dispatchFail_of_none (plan : Nested wf) {x : String} (member : x ∈ plan.start :: plan.body.names)
    (successors : Successors wf results x [none]) : results x .dispatchFail := by
  have real : [none] ≠ ((if x = plan.start then plan.body.entries plan.end_ else []) ++
      plan.body.successors x plan.end_).map some := fun same => (plan.handed_real same).1 rfl
  generalize same : [none] = targets at successors
  cases plan.handed successors with
  | on => exact absurd same real
  | failing => simp at same
  | nowhere why =>
    rcases why with rfl | ⟨_, reported⟩
    · rcases List.mem_cons.mp member with first | inner
      · exact absurd first.symm plan.start_fresh.2.1
      · exact absurd inner plan.fail_fresh
    · exact reported

/-- As long as nothing went to the fail node, every node that was left handed control on. -/
theorem given_eq (plan : Nested wf) (lawful : Lawful wf results trace) (dispatches : ∀ x, ¬ results x .dispatchFail)
    (well : named wf plan.fail trace = 0) {x : String} (member : x ∈ plan.start :: plan.body.names) :
    given plan.fail trace x = passed x trace := by
  induction lawful with
  | nil => rfl
  | @snoc trace act _ legal ih =>
    rw [named_append] at well
    rw [given_append, passed_append, ← ih (by omega)]
    cases act with
    | passed y id targets =>
      by_cases same : y = x
      · subst same
        have real : targets ≠ [none] ∧ targets ≠ [some plan.fail] := by
          constructor
          · rintro rfl
            exact dispatches y (plan.dispatchFail_of_none member legal.1)
          · rintro rfl
            simp at well
        simp [real]
      · simp [same]
    | _ => simp

/-- A running plan that is balanced waits for the report of a step: otherwise control
would have left the flow and entered the end node. -/
theorem outstanding (plan : Nested wf) (keys : plan.DistinctKeys) (lawful : Lawful wf results trace)
    (dispatches : ∀ x, ¬ results x .dispatchFail) (begun : 0 < total Act.begins trace)
    (balanced : Balanced wf [] trace) : ∃ a ∈ plan.body.steps, completed a trace < dispatched a trace := by
  by_contra! all
  obtain ⟨failNode, failFound, failType⟩ := plan.fails
  obtain ⟨endNode, endFound, endType⟩ := plan.ends
  obtain ⟨startNode, startFound, startType, leads⟩ := plan.starts
  have entering (y : String) : entered y trace = named wf y trace := by simpa using balanced.entering y
  have well : named wf plan.fail trace = 0 := by
    rw [← entering]
    exact balanced.unended _ _ failFound (.inl failType)
  have given_eq {x : String} (member : x ∈ plan.start :: plan.body.names) :=
    plan.given_eq lawful dispatches well member
  -- the flow is entered once
  have once : given plan.fail trace plan.start = 1 := by
    have passed_start := balanced.handling _ _ startFound (by simp [startType]) (by simp [startType])
    have at_most := lawful.begins_le
    have named_start := plan.named_start lawful
    rw [startType] at passed_start
    rw [given_eq (by simp)]
    simp only [handled] at passed_start
    rw [passed_start, entering, named_start]
    omega
  have exact_ : plan.body.Meets (entered · trace) (given plan.fail trace) Eq 1 := by
    rw [← once]
    refine Flow.Meets.of_feed plan.bodyDistinct plan.end_fresh.2 fun y member => ?_
    have notStart : y ≠ plan.start := fun same => plan.start_fresh.2.2 (same ▸ member)
    have notFail : y ≠ plan.fail := fun same => plan.fail_fresh (same ▸ member)
    exact (entering y).trans (plan.named_eq lawful notStart notFail)
  have through : plan.body.out (given plan.fail trace) 1 = plan.body.width := by
    refine Flow.out_of_exact plan.proper exact_ ?_ ?_ ?_
    · intro a member
      obtain ⟨node, found, type, _⟩ := plan.realizes.step member
      have left := balanced.leaving a node found (.inl type)
      have handled := balanced.handling a node found (by simp [type]) (by simp [type])
      have reported := all a member
      have fewer := lawful.completed_le a
      rw [given_eq (List.mem_cons_of_mem _ (Flow.steps_subset _ member))]
      simp only [type, mayLeave, Hella.handled] at left handled
      omega
    · intro p member
      obtain ⟨⟨node, found, type, _⟩, _⟩ := plan.realizes.pair member
      have left := balanced.leaving p.1 node found (.inr (.inl type))
      have handled := balanced.handling p.1 node found (by simp [type]) (by simp [type])
      rw [given_eq (List.mem_cons_of_mem _ (Flow.pairs_subset member).1)]
      simp only [type, mayLeave, Hella.handled] at left handled
      omega
    · intro p member full
      obtain ⟨_, node, found, type, _⟩ := plan.realizes.pair member
      have left := balanced.leaving p.2.1 node found (.inr (.inr type))
      have handled := balanced.handling p.2.1 node found (by simp [type]) (by simp [type])
      have opens := (plan.counted_of_lawful keys lawful member).opens
      rw [given_eq (List.mem_cons_of_mem _ (Flow.pairs_subset member).2.1)]
      simp only [type, mayLeave, Hella.handled] at left handled
      rw [left, opens, if_pos (handled.trans full)]
  have reached : entered plan.end_ trace = 1 := by
    rw [entering, plan.named_eq lawful (Ne.symm plan.start_fresh.1) plan.end_fresh.1, once,
      Flow.feed_next _ _ _ plan.end_fresh.2, through, width_of_single leads]
  have none_ := balanced.unended _ _ endFound (.inr endType)
  omega

end Nested

end Nested

end Hella

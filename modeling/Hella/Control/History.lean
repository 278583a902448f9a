import Hella.Control.Refinement
import Hella.Lib.ForkJoin

/-!
# Lawful histories

What can follow what in the history of an instance, counted per node: a node is
entered only as often as it was named, left only as often as it was entered, a
counter goes down by one at a time. Every history the agenda machine writes is
lawful, and its duties are what is left of these allowances.
-/
namespace Hella

open Text ForkJoin

/-! ### Counting -/

def total {α : Type} (weight : α → Nat) (items : List α) : Nat := (items.map weight).sum

section Total

variable {α : Type} (weight : α → Nat)

@[simp] theorem total_nil : total weight [] = 0 := rfl

@[simp] theorem total_cons (a : α) (rest : List α) : total weight (a :: rest) = weight a + total weight rest := by
  simp [total]

@[simp] theorem total_append (xs ys : List α) : total weight (xs ++ ys) = total weight xs + total weight ys := by
  simp [total]

theorem total_eq_zero (items : List α) (zero : ∀ a ∈ items, weight a = 0) : total weight items = 0 := by
  induction items with
  | nil => rfl
  | cons a rest ih =>
    rw [total_cons, zero a (by simp), ih fun b member => zero b (by simp [member])]

theorem total_le_of_suffix {xs ys : List α} (suffix : xs <:+ ys) : total weight xs ≤ total weight ys := by
  obtain ⟨front, rfl⟩ := suffix
  simp

theorem total_mono {xs ys : List α} (before : xs <+: ys) : total weight xs ≤ total weight ys := by
  obtain ⟨back, rfl⟩ := before
  simp

end Total

namespace Act

variable (y : String)

@[simp] def enters : Act → Nat
  | .entered name => tick (name = y)
  | _ => 0

@[simp] def begins : Act → Nat
  | .assigned status => tick (status = .running)
  | _ => 0

/-- How often an entry names the node as a successor; the call of `start` names the
start node. -/
@[simp] def names (start : Option String) : Act → Nat
  | .passed _ _ targets => targets.count (some y)
  | .assigned status => tick (status = .running ∧ start = some y)
  | _ => 0

@[simp] def passes : Act → Nat
  | .passed name _ _ => tick (name = y)
  | _ => 0

@[simp] def forks : Act → Nat
  | .forked fork _ _ => tick (fork = y)
  | _ => 0

/-- An arrival at the join, the last one included. -/
@[simp] def arrives : Act → Nat
  | .arrived _ join _ => tick (join = y)
  | .released _ join => tick (join = y)
  | _ => 0

@[simp] def releases : Act → Nat
  | .released _ join => tick (join = y)
  | _ => 0

@[simp] def completes : Act → Nat
  | .completing name _ => tick (name = y)
  | _ => 0

@[simp] def dispatches : Act → Nat
  | .dispatched name _ _ => tick (name = y)
  | _ => 0

end Act

namespace Due

variable (y : String)

@[simp] def enters : Due → Nat
  | .enter name => tick (name = y)
  | _ => 0

@[simp] def insides : Due → Nat
  | .inside name => tick (name = y)
  | _ => 0

@[simp] def leaves : Due → Nat
  | .leave name _ => tick (name = y)
  | _ => 0

@[simp] def answers : Due → Nat
  | .answering name _ => tick (name = y)
  | _ => 0

end Due

theorem total_enters_targets (y : String) (targets : List (Option String)) :
    total (Due.enters y) (targets.reduceOption.map .enter) = targets.count (some y) := by
  induction targets with
  | nil => rfl
  | cons target rest ih =>
    cases target with
    | none => simpa [List.reduceOption_cons_of_none] using ih
    | some name =>
      rw [List.reduceOption_cons_of_some, List.map_cons, total_cons, ih, List.count_cons, Due.enters, tick,
        Nat.add_comm]
      simp

theorem total_targets_of_not_enter (weight : Due → Nat) (none_ : ∀ name, weight (.enter name) = 0)
    (targets : List (Option String)) : total weight (targets.reduceOption.map .enter) = 0 := by
  induction targets.reduceOption with
  | nil => rfl
  | cons name rest ih => simp [none_, ih]

/-! ### Laws -/

section Laws

variable (wf : Workflow)

/-- The counter of a pair after a history. -/
def counter (trace : List Act) (fork join : String) : Option Int :=
  ((varsOf trace).lookup (pairVar fork join)).bind parseInt

/-- How often a node was named as a successor. -/
def named (y : String) (trace : List Act) : Nat := total (Act.names y wf.workflowManager.getStartNodeName) trace

def entered (y : String) (trace : List Act) : Nat := total (Act.enters y) trace

def passed (y : String) (trace : List Act) : Nat := total (Act.passes y) trace

def forked (y : String) (trace : List Act) : Nat := total (Act.forks y) trace

def arrivals (y : String) (trace : List Act) : Nat := total (Act.arrives y) trace

def released (y : String) (trace : List Act) : Nat := total (Act.releases y) trace

def completed (y : String) (trace : List Act) : Nat := total (Act.completes y) trace

def dispatched (y : String) (trace : List Act) : Nat := total (Act.dispatches y) trace

@[simp] theorem named_append (y : String) (trace : List Act) (act : Act) :
    named wf y (trace ++ [act]) = named wf y trace + act.names y wf.workflowManager.getStartNodeName := by
  simp [named]

@[simp] theorem entered_append (y : String) (trace : List Act) (act : Act) :
    entered y (trace ++ [act]) = entered y trace + act.enters y := by simp [entered]

@[simp] theorem passed_append (y : String) (trace : List Act) (act : Act) :
    passed y (trace ++ [act]) = passed y trace + act.passes y := by simp [passed]

@[simp] theorem forked_append (y : String) (trace : List Act) (act : Act) :
    forked y (trace ++ [act]) = forked y trace + act.forks y := by simp [forked]

@[simp] theorem arrivals_append (y : String) (trace : List Act) (act : Act) :
    arrivals y (trace ++ [act]) = arrivals y trace + act.arrives y := by simp [arrivals]

@[simp] theorem released_append (y : String) (trace : List Act) (act : Act) :
    released y (trace ++ [act]) = released y trace + act.releases y := by simp [released]

@[simp] theorem completed_append (y : String) (trace : List Act) (act : Act) :
    completed y (trace ++ [act]) = completed y trace + act.completes y := by simp [completed]

@[simp] theorem dispatched_append (y : String) (trace : List Act) (act : Act) :
    dispatched y (trace ++ [act]) = dispatched y trace + act.dispatches y := by simp [dispatched]

/-- How often a node may be left so far. -/
def mayLeave (type : JobPlanNodeType) (y : String) (trace : List Act) : Nat :=
  match type with
  | .start => entered y trace
  | .fork => forked y trace
  | .join => released y trace
  | .action | .fail => completed y trace
  | .end_ => 0

/-- How often the handler of a node has done its part. -/
def handled (type : JobPlanNodeType) (y : String) (trace : List Act) : Nat :=
  match type with
  | .start => passed y trace
  | .fork => forked y trace
  | .join => arrivals y trace
  | .action => dispatched y trace
  | .fail | .end_ => 0

variable (results : String → JobPlanNodeState → Prop)

/-- The successors a node can name, an action only for a result that is reported. -/
def Successors (name : String) (targets : List (Option String)) : Prop :=
  ∃ node, wf.getNode name = some node ∧
    match node.type with
    | .start | .join => targets = [node.toNode]
    | .fork => ∃ toNode, node.toNode = some toNode ∧ targets = (split toNode).map some
    | .action => ∃ state, results name state ∧ state.isResultState = true ∧ targets = [node.answer state]
    | .fail => targets = [none]
    | .end_ => False

/-- What may follow a history. -/
def Legal (trace : List Act) : Act → Prop
  | .assigned status => status = .running → total Act.begins trace = 0
  | .completing name _ => ∃ node, wf.getNode name = some node ∧ node.type.isFinalType = true ∧
      completed name trace < entered name trace
  | .entered name => (wf.getNode name).isSome = true ∧ entered name trace < named wf name trace
  | .added _ => True
  | .dispatched name _ _ => ∃ node, wf.getNode name = some node ∧ node.type.isFinalType = true ∧
      (node.type = .action → dispatched name trace < entered name trace)
  | .forked fork join paths => ∃ node toNode, wf.getNode fork = some node ∧ node.type = .fork ∧
      node.toNode = some toNode ∧ join = orNull node.joinName ∧ paths = (split toNode).length ∧
      forked fork trace < entered fork trace
  | .peeked fork join => ∃ node, wf.getNode join = some node ∧ node.type = .join ∧ fork = orNull node.forkName
  | .arrived fork join left => ∃ node, wf.getNode join = some node ∧ node.type = .join ∧
      fork = orNull node.forkName ∧ 0 < left ∧ counter trace fork join = some ((left + 1 : Nat) : Int) ∧
      arrivals join trace < entered join trace
  | .released fork join => ∃ node, wf.getNode join = some node ∧ node.type = .join ∧
      fork = orNull node.forkName ∧ counter trace fork join = some 1 ∧
      arrivals join trace < entered join trace
  | .passed name _ targets => Successors wf results name targets ∧
      ∀ node, wf.getNode name = some node → passed name trace < mayLeave node.type name trace

inductive Lawful : List Act → Prop where
  | nil : Lawful []
  | snoc {trace act} (before : Lawful trace) (legal : Legal wf results trace act) : Lawful (trace ++ [act])

variable {wf results}

theorem Lawful.of_append {before after : List Act} (lawful : Lawful wf results (before ++ after)) :
    Lawful wf results before := by
  induction after using List.reverseRecOn with
  | nil => simpa using lawful
  | append_singleton after act ih =>
    refine ih ?_
    rw [← List.append_assoc] at lawful
    generalize whole : before ++ after ++ [act] = trace at lawful
    cases lawful with
    | nil => simp at whole
    | snoc earlier _ => exact List.append_inj_left' whole rfl ▸ earlier

theorem Lawful.begins_le {trace : List Act} (lawful : Lawful wf results trace) : total Act.begins trace ≤ 1 := by
  induction lawful with
  | nil => simp
  | @snoc trace act _ legal ih =>
    cases act with
    | assigned status =>
      by_cases running : status = .running
      · have fresh := legal running
        simp [running, fresh]
      · simpa [running] using ih
    | _ => simpa using ih

theorem Lawful.entered_le {trace : List Act} (lawful : Lawful wf results trace) (y : String) :
    entered y trace ≤ named wf y trace := by
  induction lawful with
  | nil => simp [entered]
  | @snoc trace act _ legal ih =>
    cases act with
    | entered name =>
      by_cases same : name = y
      · subst same
        have fewer := legal.2
        simp
        omega
      · simpa [same] using ih
    | passed | assigned => simp; omega
    | _ => simpa using ih

theorem Lawful.completed_le {trace : List Act} (lawful : Lawful wf results trace) (y : String) :
    completed y trace ≤ entered y trace := by
  induction lawful with
  | nil => simp [completed]
  | @snoc trace act _ legal ih =>
    cases act with
    | completing name id =>
      by_cases same : name = y
      · subst same
        obtain ⟨_, _, _, fewer⟩ := legal
        simp
        omega
      · simpa [same] using ih
    | entered => simp; omega
    | _ => simpa using ih

theorem Lawful.forked_le {trace : List Act} (lawful : Lawful wf results trace) (y : String) :
    forked y trace ≤ entered y trace := by
  induction lawful with
  | nil => simp [forked]
  | @snoc trace act _ legal ih =>
    cases act with
    | forked fork join paths =>
      by_cases same : fork = y
      · subst same
        obtain ⟨_, _, _, _, _, _, _, fewer⟩ := legal
        simp
        omega
      · simpa [same] using ih
    | entered => simp; omega
    | _ => simpa using ih

theorem Lawful.arrivals_le {trace : List Act} (lawful : Lawful wf results trace) (y : String) :
    arrivals y trace ≤ entered y trace := by
  induction lawful with
  | nil => simp [arrivals]
  | @snoc trace act _ legal ih =>
    cases act with
    | arrived fork join left =>
      by_cases same : join = y
      · subst same
        obtain ⟨_, _, _, _, _, _, fewer⟩ := legal
        simp
        omega
      · simpa [same] using ih
    | released fork join =>
      by_cases same : join = y
      · subst same
        obtain ⟨_, _, _, _, _, fewer⟩ := legal
        simp
        omega
      · simpa [same] using ih
    | entered => simp; omega
    | _ => simpa using ih

theorem Lawful.dispatched_le {trace : List Act} (lawful : Lawful wf results trace) {y : String}
    {node : JobPlanNode} (found : wf.getNode y = some node) (type : node.type = .action) :
    dispatched y trace ≤ entered y trace := by
  induction lawful with
  | nil => simp [dispatched]
  | @snoc trace act _ legal ih =>
    cases act with
    | dispatched name id event =>
      by_cases same : name = y
      · subst same
        obtain ⟨other, otherFound, _, fewer⟩ := legal
        obtain rfl := Option.some.inj (found.symm.trans otherFound)
        have fewer := fewer type
        simp
        omega
      · simpa [same] using ih
    | entered => simp; omega
    | _ => simpa using ih

theorem mayLeave_mono (type : JobPlanNodeType) (y : String) (trace : List Act) (act : Act) :
    mayLeave type y trace ≤ mayLeave type y (trace ++ [act]) := by
  cases type <;> simp [mayLeave]

theorem Lawful.passed_le {trace : List Act} (lawful : Lawful wf results trace) {y : String} {node : JobPlanNode}
    (found : wf.getNode y = some node) : passed y trace ≤ mayLeave node.type y trace := by
  induction lawful with
  | nil => simp [passed]
  | @snoc trace act _ legal ih =>
    have more := mayLeave_mono node.type y trace act
    cases act with
    | passed name id targets =>
      by_cases same : name = y
      · subst same
        have fewer := legal.2 node found
        simp only [passed_append, Act.passes, tick_true]
        omega
      · simp only [passed_append, Act.passes, tick_false same]
        omega
    | _ =>
      simp only [passed_append, Act.passes]
      omega

variable (wf results)

/-- A report is for a node that runs jobs and has been entered more often than it was
reported, and brings a result that is to be expected. -/
def Expected (trace : List Act) (name : String) (context : NodeContext) : Prop :=
  (∃ node, wf.getNode name = some node ∧ node.type.isFinalType = true) ∧
    completed name trace < entered name trace ∧
    ∀ state, context.reported = some state → results name state

/-- The duties are within the allowances of a lawful history. -/
structure Owed (status : WorkflowStatus) (vars : JMap String) (trace : List Act) (due : List Due) : Prop where
  lawful : Lawful wf results trace
  vars : vars = varsOf trace
  unbegun : status = .prep → total Act.begins trace = 0
  entering : ∀ y, entered y trace + total (Due.enters y) due ≤ named wf y trace
  handling : ∀ y node, wf.getNode y = some node → node.type ≠ .fail → node.type ≠ .end_ →
    handled node.type y trace + total (Due.insides y) due +
      (if node.type = .start then total (Due.leaves y) due else 0) ≤ entered y trace
  leaving : ∀ y node, wf.getNode y = some node → node.type ≠ .start → node.type ≠ .end_ →
    passed y trace + total (Due.answers y) due + total (Due.leaves y) due ≤ mayLeave node.type y trace
  answering : ∀ name context, .answering name context ∈ due →
    (∃ node, wf.getNode name = some node ∧ node.type.isFinalType = true) ∧
      ∀ state, context.reported = some state → results name state
  successors : ∀ name targets, .leave name targets ∈ due → Successors wf results name targets

end Laws

section Moves

variable {env : Env} {wf : Workflow} {results : String → JobPlanNodeState → Prop}

/-- An entry that no count depends on. -/
structure Act.Silent (act : Act) : Prop where
  enters : ∀ y, act.enters y = 0
  names : ∀ y start, act.names y start = 0
  passes : ∀ y, act.passes y = 0
  forks : ∀ y, act.forks y = 0
  arrives : ∀ y, act.arrives y = 0
  releases : ∀ y, act.releases y = 0
  completes : ∀ y, act.completes y = 0
  dispatches : ∀ y, act.dispatches y = 0
  begins : act.begins = 0
  write : ∀ vars, act.write vars = vars

theorem Act.Silent.handled {act : Act} (silent : act.Silent) (type : JobPlanNodeType) (y : String)
    (trace : List Act) : handled type y (trace ++ [act]) = handled type y trace := by
  cases type <;> simp only [Hella.handled, passed_append, forked_append, arrivals_append, dispatched_append,
    silent.passes, silent.forks, silent.arrives, silent.dispatches, Nat.add_zero]

theorem Act.Silent.mayLeave {act : Act} (silent : act.Silent) (type : JobPlanNodeType) (y : String)
    (trace : List Act) : mayLeave type y (trace ++ [act]) = mayLeave type y trace := by
  cases type <;> simp only [Hella.mayLeave, entered_append, forked_append, released_append, completed_append,
    silent.enters, silent.forks, silent.releases, silent.completes, Nat.add_zero]

variable {status : WorkflowStatus} {vars : JMap String} {trace : List Act} {due rest : List Due}

/-- Duties may be dropped. -/
theorem Owed.drop (owed : Owed wf results status vars trace due) (outer : rest <:+ due) :
    Owed wf results status vars trace rest where
  lawful := owed.lawful
  vars := owed.vars
  unbegun := owed.unbegun
  entering y := by
    have balance := owed.entering y
    have fewer := total_le_of_suffix (Due.enters y) outer
    omega
  handling y node found notFail notEnd := by
    have balance := owed.handling y node found notFail notEnd
    have fewer := total_le_of_suffix (Due.insides y) outer
    have less := total_le_of_suffix (Due.leaves y) outer
    split at balance <;> split <;> first | omega | contradiction
  leaving y node found notStart notEnd := by
    have balance := owed.leaving y node found notStart notEnd
    have fewer := total_le_of_suffix (Due.answers y) outer
    have less := total_le_of_suffix (Due.leaves y) outer
    omega
  answering name context member := owed.answering name context (outer.subset member)
  successors name targets member := owed.successors name targets (outer.subset member)

theorem Owed.silent (owed : Owed wf results status vars trace due) {act : Act} (silent : act.Silent)
    (legal : Legal wf results trace act) {status' : WorkflowStatus}
    (begun : status' = .prep → status = .prep) : Owed wf results status' vars (trace ++ [act]) due where
  lawful := owed.lawful.snoc legal
  vars := by rw [varsOf_append, silent.write, ← owed.vars]
  unbegun prep := by
    rw [total_append, owed.unbegun (begun prep), total_cons, silent.begins, total_nil]
  entering y := by
    have balance := owed.entering y
    simp only [entered_append, named_append, silent.enters, silent.names]
    omega
  handling y node found notFail notEnd := by
    have balance := owed.handling y node found notFail notEnd
    simpa only [silent.handled, entered_append, silent.enters, Nat.add_zero] using balance
  leaving y node found notStart notEnd := by
    have balance := owed.leaving y node found notStart notEnd
    simpa only [silent.mayLeave, passed_append, silent.passes, Nat.add_zero] using balance
  answering := owed.answering
  successors := owed.successors

variable {name : String} {node : JobPlanNode}

theorem Owed.enters (owed : Owed wf results status vars trace (.enter name :: rest))
    (found : wf.getNode name = some node) :
    Owed wf results status vars (trace ++ [.entered name]) (.inside name :: rest) where
  lawful := by
    have balance := owed.entering name
    refine owed.lawful.snoc ⟨by simp [found], ?_⟩
    simp only [total_cons, Due.enters, tick_true] at balance
    omega
  vars := by simpa [Act.write] using owed.vars
  unbegun prep := by simpa using owed.unbegun prep
  entering y := by
    have balance := owed.entering y
    simp at balance ⊢
    omega
  handling y other otherFound notFail notEnd := by
    have balance := owed.handling y other otherFound notFail notEnd
    cases type : other.type <;> simp [type, handled] at balance notFail notEnd ⊢ <;> omega
  leaving y other otherFound notStart notEnd := by
    have balance := owed.leaving y other otherFound notStart notEnd
    cases type : other.type <;> simp [type, mayLeave] at balance notStart notEnd ⊢ <;> omega
  answering other context member := owed.answering other context (by simpa using member)
  successors other targets member := owed.successors other targets (by simpa using member)

/-- Dispatching is counted for actions only, where it is what `enter` does. -/
theorem Owed.dispatches (owed : Owed wf results status vars trace (.inside name :: rest))
    (found : wf.getNode name = some node) (type : node.type = .action) (id : Nat) (event : JobEvent) :
    Owed wf results status vars (trace ++ [.dispatched name id event]) rest where
  lawful := by
    have balance := owed.handling name node found (by simp [type]) (by simp [type])
    refine owed.lawful.snoc ⟨node, found, by rw [type]; rfl, fun _ => ?_⟩
    simp only [type, handled, total_cons, Due.insides, tick_true] at balance
    omega
  vars := by simpa [Act.write] using owed.vars
  unbegun prep := by simpa using owed.unbegun prep
  entering y := by simpa using owed.entering y
  handling y other otherFound notFail notEnd := by
    have balance := owed.handling y other otherFound notFail notEnd
    cases otherType : other.type <;> simp [otherType, handled] at balance notFail notEnd ⊢ <;> omega
  leaving y other otherFound notStart notEnd := by
    have balance := owed.leaving y other otherFound notStart notEnd
    cases otherType : other.type <;> simp [otherType, mayLeave] at balance notStart notEnd ⊢ <;> omega
  answering other context member := owed.answering other context (by simp [member])
  successors other targets member := owed.successors other targets (by simp [member])

theorem Owed.dispatchesLast (owed : Owed wf results status vars trace (.inside name :: rest))
    (found : wf.getNode name = some node) (type : node.type = .end_ ∨ node.type = .fail) (id : Nat)
    (event : JobEvent) :
    Owed wf results status vars (trace ++ [.dispatched name id event]) (.inside name :: rest) where
  lawful := by
    refine owed.lawful.snoc ⟨node, found, ?_, ?_⟩
    · rcases type with same | same <;> rw [same] <;> rfl
    · rcases type with same | same <;> simp [same]
  vars := by simpa [Act.write] using owed.vars
  unbegun prep := by simpa using owed.unbegun prep
  entering y := by simpa using owed.entering y
  handling y other otherFound notFail notEnd := by
    have balance := owed.handling y other otherFound notFail notEnd
    -- the node is a final one, so the counts of the others stay as they are
    have different : ¬ name = y := by
      rintro rfl
      obtain rfl := Option.some.inj (found.symm.trans otherFound)
      rcases type with same | same
      · exact notEnd same
      · exact notFail same
    cases otherType : other.type <;> simp [otherType, handled, different] at balance notFail notEnd ⊢ <;> omega
  leaving y other otherFound notStart notEnd := by
    have balance := owed.leaving y other otherFound notStart notEnd
    cases otherType : other.type <;> simp [otherType, mayLeave] at balance notStart notEnd ⊢ <;> omega
  answering other context member := owed.answering other context (by simpa using member)
  successors other targets member := owed.successors other targets (by simpa using member)

theorem Owed.begins (owed : Owed wf results status vars trace (.inside name :: rest))
    (found : wf.getNode name = some node) (type : node.type = .start) :
    Owed wf results status vars trace (.leave name [node.toNode] :: rest) where
  lawful := owed.lawful
  vars := owed.vars
  unbegun := owed.unbegun
  entering y := by simpa using owed.entering y
  handling y other otherFound notFail notEnd := by
    have balance := owed.handling y other otherFound notFail notEnd
    cases otherType : other.type <;> simp [otherType, handled] at balance notFail notEnd ⊢ <;> omega
  leaving y other otherFound notStart notEnd := by
    have balance := owed.leaving y other otherFound notStart notEnd
    have different : ¬ name = y := by
      rintro rfl
      exact notStart (Option.some.inj (found.symm.trans otherFound) ▸ type)
    simpa [different] using balance
  answering other context member := owed.answering other context (by simpa using member)
  successors other targets member := by
    rcases List.mem_cons.mp member with same | old
    · obtain ⟨rfl, rfl⟩ := Due.leave.inj same
      exact ⟨node, found, by rw [type]⟩
    · exact owed.successors other targets (by simp [old])

theorem Owed.forks (owed : Owed wf results status vars trace (.inside name :: rest))
    (found : wf.getNode name = some node) (type : node.type = .fork) {toNode : String}
    (paths : node.toNode = some toNode) :
    Owed wf results status (vars.insert (pairVar name (orNull node.joinName)) (toString (split toNode).length))
      (trace ++ [.forked name (orNull node.joinName) (split toNode).length])
      (.leave name ((split toNode).map some) :: rest) where
  lawful := by
    -- the fork was entered once more than it has forked
    have balance := owed.handling name node found (by simp [type]) (by simp [type])
    refine owed.lawful.snoc ⟨node, toNode, found, type, paths, rfl, rfl, ?_⟩
    simp only [type, handled, total_cons, Due.insides, tick_true] at balance
    omega
  vars := by rw [varsOf_append, ← owed.vars, Act.write]
  unbegun prep := by simpa using owed.unbegun prep
  entering y := by simpa using owed.entering y
  handling y other otherFound notFail notEnd := by
    have balance := owed.handling y other otherFound notFail notEnd
    -- only the counts of the fork itself move; those of the other nodes are untouched
    by_cases same : name = y
    · subst same
      obtain rfl := Option.some.inj (found.symm.trans otherFound)
      simp [type, handled] at balance ⊢
      omega
    · cases otherType : other.type <;> simp [otherType, handled, same] at balance notFail notEnd ⊢ <;> omega
  leaving y other otherFound notStart notEnd := by
    have balance := owed.leaving y other otherFound notStart notEnd
    by_cases same : name = y
    · subst same
      obtain rfl := Option.some.inj (found.symm.trans otherFound)
      simp [type, mayLeave] at balance ⊢
      omega
    · cases otherType : other.type <;> simp [otherType, mayLeave, same] at balance notStart notEnd ⊢ <;> omega
  answering other context member := owed.answering other context (by simpa using member)
  -- the new due entry names all the paths
  successors other targets member := by
    rcases List.mem_cons.mp member with same | old
    · obtain ⟨rfl, rfl⟩ := Due.leave.inj same
      refine ⟨node, found, ?_⟩
      rw [type]
      exact ⟨toNode, paths, rfl⟩
    · exact owed.successors other targets (by simp [old])

theorem counter_of_lookup {fork join text : String} {number : Int}
    (value : (varsOf trace).lookup (pairVar fork join) = some text) (parsed : parseInt text = some number) :
    counter trace fork join = some number := by
  rw [counter, value, Option.bind_some, parsed]

theorem Owed.arrives (owed : Owed wf results status vars trace (.inside name :: rest))
    (found : wf.getNode name = some node) (type : node.type = .join) {text : String} {left : Nat}
    (value : vars.lookup (pairVar (orNull node.forkName) name) = some text)
    (number : parseInt text = some ((left + 1 : Nat) : Int)) (positive : 0 < left) :
    Owed wf results status (vars.insert (pairVar (orNull node.forkName) name) (toString left))
      (trace ++ [.arrived (orNull node.forkName) name left]) rest where
  lawful := by
    have balance := owed.handling name node found (by simp [type]) (by simp [type])
    rw [owed.vars] at value
    refine owed.lawful.snoc ⟨node, found, type, rfl, positive, counter_of_lookup value number, ?_⟩
    simp only [type, handled, total_cons, Due.insides, tick_true] at balance
    omega
  vars := by rw [varsOf_append, ← owed.vars, Act.write]
  unbegun prep := by simpa using owed.unbegun prep
  entering y := by simpa using owed.entering y
  handling y other otherFound notFail notEnd := by
    have balance := owed.handling y other otherFound notFail notEnd
    cases otherType : other.type <;> simp [otherType, handled] at balance notFail notEnd ⊢ <;> omega
  leaving y other otherFound notStart notEnd := by
    have balance := owed.leaving y other otherFound notStart notEnd
    cases otherType : other.type <;> simp [otherType, mayLeave] at balance notStart notEnd ⊢ <;> omega
  answering other context member := owed.answering other context (by simp [member])
  successors other targets member := owed.successors other targets (by simp [member])

theorem Owed.releases (owed : Owed wf results status vars trace (.inside name :: rest))
    (found : wf.getNode name = some node) (type : node.type = .join) {text : String}
    (value : vars.lookup (pairVar (orNull node.forkName) name) = some text)
    (number : parseInt text = some 1) :
    Owed wf results status (vars.erase (pairVar (orNull node.forkName) name))
      (trace ++ [.released (orNull node.forkName) name]) (.leave name [node.toNode] :: rest) where
  lawful := by
    -- the counter that the join found is the one the trace accounts for
    have balance := owed.handling name node found (by simp [type]) (by simp [type])
    rw [owed.vars] at value
    refine owed.lawful.snoc ⟨node, found, type, rfl, counter_of_lookup value number, ?_⟩
    simp only [type, handled, total_cons, Due.insides, tick_true] at balance
    omega
  vars := by rw [varsOf_append, ← owed.vars, Act.write]
  unbegun prep := by simpa using owed.unbegun prep
  entering y := by simpa using owed.entering y
  handling y other otherFound notFail notEnd := by
    have balance := owed.handling y other otherFound notFail notEnd
    -- only the counts of the join itself move
    by_cases same : name = y
    · subst same
      obtain rfl := Option.some.inj (found.symm.trans otherFound)
      simp [type, handled] at balance ⊢
      omega
    · cases otherType : other.type <;> simp [otherType, handled, same] at balance notFail notEnd ⊢ <;> omega
  leaving y other otherFound notStart notEnd := by
    have balance := owed.leaving y other otherFound notStart notEnd
    by_cases same : name = y
    · subst same
      obtain rfl := Option.some.inj (found.symm.trans otherFound)
      simp [type, mayLeave] at balance ⊢
      omega
    · cases otherType : other.type <;> simp [otherType, mayLeave, same] at balance notStart notEnd ⊢ <;> omega
  answering other context member := owed.answering other context (by simpa using member)
  successors other targets member := by
    rcases List.mem_cons.mp member with same | old
    · obtain ⟨rfl, rfl⟩ := Due.leave.inj same
      exact ⟨node, found, by rw [type]⟩
    · exact owed.successors other targets (by simp [old])

theorem Owed.passes {targets : List (Option String)}
    (owed : Owed wf results status vars trace (.leave name targets :: rest)) (id : Nat) :
    Owed wf results status vars (trace ++ [.passed name id targets])
      (targets.reduceOption.map .enter ++ rest) where
  lawful := by
    refine owed.lawful.snoc ⟨owed.successors name targets (by simp), fun node found => ?_⟩
    obtain ⟨other, otherFound, shape⟩ := owed.successors name targets (by simp)
    obtain rfl := Option.some.inj (found.symm.trans otherFound)
    -- for a start node it is `handling` that counts what may be passed, for the others `leaving`
    by_cases start : node.type = .start
    · have balance := owed.handling name node found (by simp [start]) (by simp [start])
      simp only [start, handled, total_cons, Due.leaves, tick_true, if_true, mayLeave] at balance ⊢
      omega
    · have balance := owed.leaving name node found start (fun last => by rw [last] at shape; exact shape)
      simp only [total_cons, Due.leaves, tick_true] at balance
      omega
  vars := by simpa [Act.write] using owed.vars
  unbegun prep := by simpa using owed.unbegun prep
  -- the targets become due to be entered, one for each
  entering y := by
    have balance := owed.entering y
    simp [total_enters_targets] at balance ⊢
    omega
  handling y other otherFound notFail notEnd := by
    have balance := owed.handling y other otherFound notFail notEnd
    have insides := total_targets_of_not_enter (Due.insides y) (fun _ => rfl) targets
    have leaves := total_targets_of_not_enter (Due.leaves y) (fun _ => rfl) targets
    cases otherType : other.type <;>
      simp [otherType, handled, insides, leaves] at balance notFail notEnd ⊢ <;> omega
  leaving y other otherFound notStart notEnd := by
    have balance := owed.leaving y other otherFound notStart notEnd
    have answers := total_targets_of_not_enter (Due.answers y) (fun _ => rfl) targets
    have leaves := total_targets_of_not_enter (Due.leaves y) (fun _ => rfl) targets
    cases otherType : other.type <;>
      simp [otherType, mayLeave, answers, leaves] at balance notStart notEnd ⊢ <;> omega
  answering other context member := owed.answering other context (by
    simp at member
    simp [member])
  successors other others member := owed.successors other others (by
    simp at member
    simp [member])

theorem Owed.completes {context : NodeContext} (owed : Owed wf results status vars trace [])
    (expected : Expected wf results trace name context) (id : Nat) :
    Owed wf results status vars (trace ++ [.completing name id]) [.answering name context] where
  lawful := by
    obtain ⟨⟨node, found, final⟩, fewer, _⟩ := expected
    exact owed.lawful.snoc ⟨node, found, final, fewer⟩
  vars := by simpa [Act.write] using owed.vars
  unbegun prep := by simpa using owed.unbegun prep
  entering y := by simpa using owed.entering y
  handling y other otherFound notFail notEnd := by
    have balance := owed.handling y other otherFound notFail notEnd
    cases otherType : other.type <;> simp [otherType, handled] at balance notFail notEnd ⊢ <;> omega
  leaving y other otherFound notStart notEnd := by
    have balance := owed.leaving y other otherFound notStart notEnd
    by_cases same : name = y
    · subst same
      obtain ⟨⟨node, found, final⟩, _⟩ := expected
      obtain rfl := Option.some.inj (found.symm.trans otherFound)
      cases type : node.type <;> simp [type, mayLeave, JobPlanNodeType.isFinalType] at balance final notEnd ⊢ <;> omega
    · cases otherType : other.type <;> simp [otherType, mayLeave, same] at balance notStart notEnd ⊢ <;> omega
  answering other given member := by
    obtain ⟨rfl, rfl⟩ := Due.answering.inj (List.mem_singleton.mp member)
    exact ⟨expected.1, expected.2.2⟩
  successors other targets member := by simp at member

theorem Owed.starts (owed : Owed wf results .prep vars trace []) (rest : List Due)
    (within : ∀ y, total (Due.enters y) rest ≤ tick (wf.workflowManager.getStartNodeName = some y))
    (only : ∀ due ∈ rest, ∃ name, due = .enter name) :
    Owed wf results .running vars (trace ++ [.assigned .running]) rest := by
  -- a fresh start has entries due and nothing else
  have entering (weight : Due → Nat) (silent : ∀ name, weight (.enter name) = 0) :
      ∀ due ∈ rest, weight due = 0 := by
    intro due member
    obtain ⟨name, rfl⟩ := only due member
    exact silent name
  exact {
    lawful := owed.lawful.snoc fun _ => owed.unbegun rfl
    vars := by simpa [Act.write] using owed.vars
    unbegun running := by cases running
    entering y := by
      -- the start node may be entered once, and it has not been yet
      have balance := owed.entering y
      have start := within y
      simp at balance ⊢
      omega
    handling y other otherFound notFail notEnd := by
      have balance := owed.handling y other otherFound notFail notEnd
      have insides := total_eq_zero (Due.insides y) rest (entering _ fun _ => rfl)
      have leaves := total_eq_zero (Due.leaves y) rest (entering _ fun _ => rfl)
      cases otherType : other.type <;>
        simp [otherType, handled, insides, leaves] at balance notFail notEnd ⊢ <;> omega
    leaving y other otherFound notStart notEnd := by
      have balance := owed.leaving y other otherFound notStart notEnd
      have answers := total_eq_zero (Due.answers y) rest (entering _ fun _ => rfl)
      have leaves := total_eq_zero (Due.leaves y) rest (entering _ fun _ => rfl)
      cases otherType : other.type <;>
        simp [otherType, mayLeave, answers, leaves] at balance notStart notEnd ⊢ <;> omega
    answering name context member := by
      obtain ⟨_, same⟩ := only _ member
      cases same
    successors name targets member := by
      obtain ⟨_, same⟩ := only _ member
      cases same }

theorem Owed.answers {context : NodeContext} {targets : List (Option String)}
    (owed : Owed wf results status vars trace (.answering name context :: rest))
    (successors : Successors wf results name targets) :
    Owed wf results status vars trace (.leave name targets :: rest) where
  lawful := owed.lawful
  vars := owed.vars
  unbegun := owed.unbegun
  entering y := by simpa using owed.entering y
  handling y other otherFound notFail notEnd := by
    have balance := owed.handling y other otherFound notFail notEnd
    -- what answers a report is of a final type, so no start node
    have different : other.type = .start → ¬ name = y := by
      rintro start rfl
      obtain ⟨⟨node, found, final⟩, _⟩ := owed.answering name context (by simp)
      obtain rfl := Option.some.inj (found.symm.trans otherFound)
      simp [start, JobPlanNodeType.isFinalType] at final
    by_cases start : other.type = .start
    · simpa [start, different start] using balance
    · simpa [start] using balance
  leaving y other otherFound notStart notEnd := by
    have balance := owed.leaving y other otherFound notStart notEnd
    simp at balance ⊢
    omega
  answering other given member := owed.answering other given (by
    simp at member
    simp [member])
  successors other others member := by
    rcases List.mem_cons.mp member with same | old
    · obtain ⟨rfl, rfl⟩ := Due.leave.inj same
      exact successors
    · exact owed.successors other others (by simp [old])

theorem Owed.answered {context : NodeContext}
    (owed : Owed wf results status vars trace (.answering name context :: rest))
    (found : wf.getNode name = some node) : node.type.isFinalType = true := by
  obtain ⟨⟨other, otherFound, final⟩, _⟩ := owed.answering name context (by simp)
  obtain rfl := Option.some.inj (found.symm.trans otherFound)
  exact final

theorem Act.assigned_silent {status : WorkflowStatus} (other : status ≠ .running) : (Act.assigned status).Silent := by
  constructor <;> intros <;> simp [Act.write, other]

theorem Act.added_silent (id : Nat) : (Act.added id).Silent := by
  constructor <;> intros <;> simp [Act.write]

theorem Act.peeked_silent (fork join : String) : (Act.peeked fork join).Silent := by
  constructor <;> intros <;> simp [Act.write]

theorem Owed.stops {status' : WorkflowStatus} (owed : Owed wf results status vars trace due)
    (outer : rest <:+ due) (live : status' ≠ .running) (begun : status' ≠ .prep) :
    Owed wf results status' vars (trace ++ [.assigned status']) rest :=
  (owed.drop outer).silent (Act.assigned_silent live) (fun running => absurd running live)
    fun prep => absurd prep begun

/-- One move of the agenda machine. -/
theorem Owed.move {x y : Agenda} (move : Move env wf (Expected wf results) x y)
    (owed : Owed wf results x.status x.vars x.trace x.due) :
    Owed wf results y.status y.vars y.trace y.due := by
  cases move with
  | starts found => exact owed.starts _ (fun y => by simp [found, tick]) (by simp)
  | startsNowhere missing => exact owed.starts _ (fun y => by simp) (by simp)
  | completes allows => exact owed.completes allows _
  | skips | absent | stalls | underflows | stops | answersEnd => exact owed.drop (List.suffix_cons _ _)
  | enters found => exact owed.enters found
  | saves id => exact owed.silent (Act.added_silent id) trivial fun prep => prep
  | dispatches found type id event => exact owed.dispatches found type id event
  | dispatchesLast found type id event => exact owed.dispatchesLast found type id event
  | begins found type => exact owed.begins found type
  | forks found type paths => exact owed.forks found type paths
  | peeks found type => exact owed.silent (Act.peeked_silent _ _) ⟨_, found, type, rfl⟩ fun prep => prep
  | arrives found type value number positive => exact owed.arrives found type value number positive
  | releases found type value number live id => exact (owed.releases found type value number).passes id
  | passes live id => exact owed.passes id
  | succeeds | givesUp => exact owed.stops (List.suffix_cons _ _) (by simp) (by simp)
  | fails outer => exact owed.stops outer (by simp) (by simp)
  | @answers _ _ _ name node context state rest found type report result =>
    refine owed.answers ⟨node, found, ?_⟩
    rw [type]
    exact ⟨state, (owed.answering name context (by simp)).2 state report, result, rfl⟩
  | answersFail found type => exact owed.answers ⟨_, found, by rw [type]⟩
  -- a report is never expected for these
  | answersStart found type => simpa [type, JobPlanNodeType.isFinalType] using owed.answered found
  | answersFork found type => simpa [type, JobPlanNodeType.isFinalType] using owed.answered found
  | answersJoin found type => simpa [type, JobPlanNodeType.isFinalType] using owed.answered found

variable (wf results) in
theorem Owed.initial : Owed wf results .prep ∅ [] [] where
  lawful := .nil
  vars := rfl
  unbegun _ := rfl
  entering y := by simp [entered, named]
  handling y node found notFail notEnd := by
    cases node.type <;> simp [handled, passed, forked, arrivals, dispatched, entered]
  leaving y node found notStart notEnd := by simp [passed]
  answering name context member := by simp at member
  successors name targets member := by simp at member

/-- The histories of an instance are lawful if reports come as expected. -/
theorem Reaches.owed {world : Store → Store → Prop} {guard : Run → String → NodeContext → Prop} {s : Run}
    (reaches : Reaches env wf world guard s)
    (guarded : ∀ s name context, guard s name context → Expected wf results s.trace name context) :
    Owed wf results s.status s.vars s.trace [] :=
  reaches.invariant (Expected wf results) guarded
    (J := fun x => Owed wf results x.status x.vars x.trace x.due) (Owed.initial wf results)
    (fun _ _ move owed => owed.move move) fun _ owed => owed.drop List.nil_suffix

end Moves

end Hella

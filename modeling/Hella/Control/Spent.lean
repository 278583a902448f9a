import Hella.Control.History
import Hella.Control.Rows
import Hella.Control.Rules

/-!
# Transitions of a row

Control leaves an action node only in the call that completes it, and the row it is
completed for is noted then. The rows this was noted for are spent. Whatever else a call
does, it adds rows, writes rows that are not spent and turns running rows into failed ones,
so that no spent row is ever running again.
-/
namespace Hella

open Exec Text ForkJoin Relation

theorem Workflow.isAction_any {wf : Workflow} {name : String} :
    (wf.getNode name).any (·.type = .action) = true ↔ wf.IsAction name := by
  unfold Workflow.IsAction
  cases wf.getNode name <;> simp

instance (wf : Workflow) (name : String) : Decidable (wf.IsAction name) := decidable_of_iff _ Workflow.isAction_any

/-- The entry takes control out of an action for the row. -/
def Act.spends (wf : Workflow) (id : Nat) : Act → Nat
  | .passed name xjobStateID _ => tick (wf.IsAction name ∧ xjobStateID = id)
  | _ => 0

/-- How often control was taken out of an action for the row. -/
def transitions (wf : Workflow) (id : Nat) (trace : List Act) : Nat := total (Act.spends wf id) trace

@[simp] theorem transitions_nil (wf : Workflow) (id : Nat) : transitions wf id [] = 0 := rfl

@[simp] theorem transitions_append (wf : Workflow) (id : Nat) (trace : List Act) (act : Act) :
    transitions wf id (trace ++ [act]) = transitions wf id trace + act.spends wf id := by simp [transitions]

theorem Workflow.isAction_iff {wf : Workflow} {name : String} {node : JobPlanNode}
    (found : wf.getNode name = some node) : wf.IsAction name ↔ node.type = .action := by
  constructor
  · rintro ⟨other, same, type⟩
    cases found.symm.trans same
    exact type
  · exact fun type => ⟨node, found, type⟩

/-! ### Going on from a node -/

/-- Control is to leave an action. -/
def Due.LeavesAction (wf : Workflow) : Due → Prop
  | .leave name _ => wf.IsAction name
  | .answering name _ => wf.IsAction name
  | _ => False

/-- No action is to be left. -/
def Passing (wf : Workflow) (due : List Due) : Prop := ∀ one ∈ due, ¬ one.LeavesAction wf

section Going

variable {env : Env} {wf : Workflow} {due rest : List Due} {x y : Agenda}

theorem Passing.of_suffix (passing : Passing wf due) (outer : rest <:+ due) : Passing wf rest :=
  fun one member => passing one (outer.subset member)

theorem Passing.enters (passing : Passing wf rest) (targets : List (Option String)) :
    Passing wf (targets.reduceOption.map .enter ++ rest) := by
  intro one member
  rcases List.mem_append.mp member with next | later
  · obtain ⟨name, -, rfl⟩ := List.mem_map.mp next
    exact id
  · exact passing one later

/-- As long as no call is made, no move takes control out of an action. -/
theorem Move.passing (move : Move env wf (fun _ _ _ => False) x y) (passing : Passing wf x.due) :
    Passing wf y.due ∧ ∀ id, transitions wf id y.trace = transitions wf id x.trace := by
  -- the rest of the agenda is passing, and the duty put in front is about another kind of node
  have rest {one : Due} {others : List Due} (all : Passing wf (one :: others)) : Passing wf others :=
    all.of_suffix (List.suffix_cons _ _)
  have before {one : Due} {others : List Due} (first : ¬ one.LeavesAction wf) (all : Passing wf others) :
      Passing wf (one :: others) := List.forall_mem_cons.mpr ⟨first, all⟩
  have other {name : String} {node : JobPlanNode} {type : JobPlanNodeType} (found : wf.getNode name = some node)
      (same : node.type = type) (ne : type ≠ .action) : ¬ wf.IsAction name :=
    fun action => ne (same.symm.trans ((Workflow.isAction_iff found).mp action))
  cases move with
  | starts => exact ⟨before id passing, fun _ => by simp [Act.spends]⟩
  | startsNowhere => exact ⟨passing, fun _ => by simp [Act.spends]⟩
  | completes allows => exact allows.elim
  | skips => exact ⟨rest passing, fun _ => rfl⟩
  | absent => exact ⟨rest passing, fun _ => rfl⟩
  | enters => exact ⟨before id (rest passing), fun _ => by simp [Act.spends]⟩
  | saves => exact ⟨passing, fun _ => by simp [Act.spends]⟩
  | dispatches => exact ⟨rest passing, fun _ => by simp [Act.spends]⟩
  | dispatchesLast => exact ⟨passing, fun _ => by simp [Act.spends]⟩
  | stalls => exact ⟨rest passing, fun _ => rfl⟩
  | begins found type => exact ⟨before (other found type (by decide)) (rest passing), fun _ => rfl⟩
  | forks found type =>
    exact ⟨before (other found type (by decide)) (rest passing), fun _ => by simp [Act.spends]⟩
  | peeks => exact ⟨passing, fun _ => by simp [Act.spends]⟩
  | arrives => exact ⟨rest passing, fun _ => by simp [Act.spends]⟩
  | underflows => exact ⟨rest passing, fun _ => rfl⟩
  | releases found type =>
    refine ⟨(rest passing).enters _, fun id => ?_⟩
    rw [transitions_append, transitions_append]
    simp [Act.spends, other found type (by decide)]
  | passes =>
    refine ⟨(rest passing).enters _, fun id => ?_⟩
    have away := passing _ List.mem_cons_self
    simp only [Due.LeavesAction] at away
    simp [Act.spends, away]
  | stops => exact ⟨rest passing, fun _ => rfl⟩
  | succeeds => exact ⟨rest passing, fun _ => by simp [Act.spends]⟩
  | givesUp => exact ⟨rest passing, fun _ => by simp [Act.spends]⟩
  | fails outer => exact ⟨passing.of_suffix outer, fun _ => by simp [Act.spends]⟩
  | answers found type => exact absurd ((Workflow.isAction_iff found).mpr type) (passing _ List.mem_cons_self)
  | answersFail found type => exact ⟨before (other found type (by decide)) (rest passing), fun _ => rfl⟩
  | answersEnd => exact ⟨rest passing, fun _ => rfl⟩
  | answersStart found type => exact ⟨before (other found type (by decide)) (rest passing), fun _ => rfl⟩
  | answersFork => exact ⟨before id (rest passing), fun _ => rfl⟩
  | answersJoin found type =>
    exact ⟨before (other found type (by decide)) (rest passing), fun _ => by simp [Act.spends]⟩

theorem Moves.passing (moves : Moves env wf (fun _ _ _ => False) x y) (passing : Passing wf x.due) :
    Passing wf y.due ∧ ∀ id, transitions wf id y.trace = transitions wf id x.trace := by
  induction moves with
  | refl => exact ⟨passing, fun _ => rfl⟩
  | tail _ move ih =>
    obtain ⟨still, same⟩ := move.passing ih.1
    exact ⟨still, fun id => (same id).trans (ih.2 id)⟩

/-- The instance has left no further action since. -/
def Unmoved (wf : Workflow) (s t : Run) : Prop := ∀ id, transitions wf id t.trace = transitions wf id s.trace

theorem At.unmoved {s t : Run} (at_ : At env wf (fun _ _ _ => False) (s.agenda due) rest t) (passing : Passing wf due) :
    Unmoved wf s t := (Moves.passing at_ passing).2

theorem Lost.unmoved {s t : Run} (lost : Lost env wf (fun _ _ _ => False) (s.agenda due) rest t)
    (passing : Passing wf due) : Unmoved wf s t := by
  obtain ⟨more, -, at_⟩ := lost
  exact At.unmoved at_ passing

/-- `start` goes through start, fork and join nodes. -/
theorem start_unmoved (env : Env) (wf : Workflow) (s : Run) :
    Triple (· = s) (start env wf) (fun _ => Unmoved wf s) fun _ => Unmoved wf s := by
  have started : Triple (At env wf (fun _ _ _ => False) (s.agenda []) []) (start env wf)
    (fun _ => At env wf (fun _ _ _ => False) (s.agenda []) []) fun _ =>
      Lost env wf (fun _ _ _ => False) (s.agenda []) [] :=
    start_at
  refine started.conseq ?_ (fun _ _ at_ => At.unmoved at_ (by simp [Passing])) fun _ _ lost =>
    lost.unmoved (by simp [Passing])
  rintro _ rfl
  exact At.refl _ _

/-- So does the loop over the successors of a node. -/
theorem nexts_unmoved (env : Env) (wf : Workflow) (targets : List (Option String)) (s : Run) :
    Triple (· = s) (targets.forM (processNextNode env wf (signal env wf env.stackDepth))) (fun _ => Unmoved wf s)
      fun _ => Unmoved wf s := by
  have passing : Passing wf (targets.reduceOption.map .enter ++ []) := Passing.enters (by simp [Passing]) targets
  let from_ : Agenda := s.agenda (targets.reduceOption.map .enter ++ [])
  have turn (target : Option String) (names : List (Option String)) :
      Triple (At env wf (fun _ _ _ => False) from_ ((target :: names).reduceOption.map .enter ++ []))
        (processNextNode env wf (signal env wf env.stackDepth) target)
        (fun _ => At env wf (fun _ _ _ => False) from_ (names.reduceOption.map .enter ++ []))
        fun _ => Lost env wf (fun _ _ _ => False) from_ [] := by
    cases target with
    | none => exact Triple.pure fun s at_ => by simpa [List.reduceOption_cons_of_none] using at_
    | some next =>
      rw [List.reduceOption_cons_of_some, List.map_cons, List.cons_append]
      exact (processNextNode_at (signal_at env.stackDepth) next).conseq (fun _ at_ => at_) (fun _ _ at_ => at_)
        fun _ _ lost => lost.mono (List.nil_suffix)
  have loop :=
    Triple.forM (I := fun names => At env wf (fun _ _ _ => False) from_ (names.reduceOption.map .enter ++ []))
    turn targets
  refine loop.conseq ?_ (fun _ _ at_ => At.unmoved at_ passing) fun _ _ lost => lost.unmoved passing
  rintro _ rfl
  exact At.refl _ _

end Going

/-! ### Rows that are spent -/

namespace Store

variable {spent : Nat → Prop} {s t : Store}

/-- No spent row is running, and the spent ids have been given out. -/
structure Unspent (spent : Nat → Prop) (s : Store) : Prop where
  numbered : s.Numbered
  running : ∀ row ∈ s.xjobStates, row.jobPlanNodeState.isRunningState = true → ¬ spent row.id
  known : ∀ id, spent id → id ≤ s.lastXjobStateID

/-- The stored row, if there is one, is running. -/
def Running (s : Store) (id : Nat) : Prop :=
  ∀ row ∈ s.xjobStates, row.id = id → row.jobPlanNodeState.isRunningState = true

instance (s : Store) (id : Nat) : Decidable (s.Running id) := inferInstanceAs (Decidable (∀ row ∈ s.xjobStates, _))

/-- The row is not running any more. -/
def Closed (s : Store) (id : Nat) : Prop :=
  ∀ row ∈ s.xjobStates, row.id = id → row.jobPlanNodeState.isRunningState = false

namespace Unspent

theorem of_same (unspent : s.Unspent spent) (rows : t.xjobStates = s.xjobStates)
    (last : t.lastXjobStateID = s.lastXjobStateID) : t.Unspent spent where
  numbered :=
    ⟨⟨rows ▸ unspent.numbered.distinct, rows ▸ last ▸ unspent.numbered.known⟩, rows ▸ unspent.numbered.positive⟩
  running := rows ▸ unspent.running
  known := last ▸ unspent.known

theorem insert (unspent : s.Unspent spent) (x : XjobState) : (s.insertXjobState x).Unspent spent where
  numbered := unspent.numbered.insert x
  running row member running := by
    obtain old | rfl := by simpa [insertXjobState] using member
    · exact unspent.running row old running
    -- the generated id is past every spent one
    · intro among
      have := unspent.known _ among
      dsimp only at this
      omega
  known id among := (unspent.known id among).trans (Nat.le_succ _)

theorem fresh (unspent : s.Unspent spent) : ¬ spent (s.lastXjobStateID + 1) :=
  fun among => absurd (unspent.known _ among) (by omega)

/-- A write is harmless if it closes its row or the row it hits is not spent. -/
theorem update (unspent : s.Unspent spent) {x : XjobState}
    (harmless : x.jobPlanNodeState.isRunningState = true → ∀ row ∈ s.xjobStates, row.id = x.id → ¬ spent row.id) :
    (s.updateXjobState x).Unspent spent where
  numbered := unspent.numbered.update x
  running row member running := by
    obtain ⟨old, inside, rfl⟩ := List.mem_map.mp member
    split at running
    next hit =>
      rw [if_pos hit]
      exact harmless running old inside hit
    next other =>
      rw [if_neg other]
      exact unspent.running old inside running
  known := unspent.known

/-- A row that is running is not spent, and neither is one that is not there. -/
theorem spend (unspent : s.Unspent spent) {id : Nat} (closed : s.Closed id) (below : id ≤ s.lastXjobStateID) :
    s.Unspent fun other => spent other ∨ other = id where
  numbered := unspent.numbered
  running row member running := by
    rintro (among | same)
    · exact unspent.running row member running among
    · cases (closed row member same).symm.trans running
  known other := by
    rintro (among | rfl)
    · exact unspent.known other among
    · exact below

end Unspent

theorem closed_update (x : XjobState) (closes : x.jobPlanNodeState.isRunningState = false) :
    (s.updateXjobState x).Closed x.id := by
  intro row member same
  obtain ⟨old, -, rfl⟩ := List.mem_map.mp member
  split at same
  next hit =>
    rw [if_pos hit]
    exact closes
  next other => exact absurd same other

end Store

section Calls

variable {env : Env} {wf : Workflow} {spent : Nat → Prop} {α : Type}

/-- A run that moves on writes no spent row. -/
theorem footprint_unspent (env : Env) (wf : Workflow) (unsaved : ¬ spent 0) :
    Footprint env wf (·.Unspent spent) (¬ spent ·) (¬ spent ·.id) fun _ => True where
  unsaved := unsaved
  leads _ _ _ _ _ _ _ := trivial
  asks _ holds := holds.of_same rfl rfl
  inserts _ x holds _ := ⟨holds.insert x, holds.fresh⟩
  updates _ _ holds fresh := holds.update fun _ _ _ same => same ▸ fresh
  reads _ _ holds member running := holds.running _ (List.mem_of_mem_filter member) running
  fails _ _ _ holds known _ := holds.update fun _ _ _ same => same ▸ known
  marks _ _ _ _ holds := holds.of_same rfl rfl
  dispatches _ _ _ _ holds := holds.of_same rfl rfl
  produces _ _ _ holds _ _ _ _ := holds.of_same rfl rfl
  ends _ holds := holds.of_same rfl rfl

/-! ### Leaving the completed node -/

theorem unspent_updJobState {x : XjobState} (closes : x.jobPlanNodeState.isRunningState = false) :
    Keeps (On (·.Unspent spent)) (onStore (Store.updJobState env x)) := by
  apply Tread.onStore
  refine Keeps.bind ?_ fun _ => Keeps.modifying fun s holds => holds.update fun running => ?_
  · apply Keeps.of_after
    intro s holds
    rw [Store.daoCall_apply]
    split <;> exact holds.of_same rfl rfl
  · cases closes.symm.trans running

section Exits

variable (unsaved : ¬ spent 0)
include unsaved

theorem unspent_loadXjobState (wf : Workflow) (id : Nat) : Keeps (On (·.Unspent spent)) (loadXjobState env id) :=
  ((footprint_unspent env wf unsaved).loadXjobState id).conseq (fun _ holds => holds)
    (fun _ _ post => post.1) fun _ _ post => post

/-- The guards and the row every `exit` starts with. -/
theorem unspent_loading (context : NodeContext) {rest : JobProgress → XjobState → RunM α}
    (goes : ∀ progress row, Keeps (On (·.Unspent spent)) (rest progress row)) :
    Keeps (On (·.Unspent spent)) (do
      let progress ← checkJobProgress wf context
      let row ← loadXjobState env progress.xjobStateID
      rest progress row) := by
  refine (StoreFree.checkJobProgress wf context).bind fun progress => ?_
  exact (unspent_loadXjobState unsaved wf _).bind fun row => goes progress row

theorem unspent_startExit (node : JobPlanNode) (context : NodeContext) :
    Keeps (On (·.Unspent spent)) (StartNodeHandler.exit env wf node context) := by
  have rule := footprint_unspent env wf unsaved
  refine unspent_loading unsaved context fun progress row => ?_
  refine rule.newDate.bind fun date => Keeps.bind (Tread.attempt ?_ ()) fun _ => Keeps.pure _
  refine Keeps.bind (unspent_updJobState ?_) fun _ => rule.changeJobExecutionPlanCurrentXjobState _ _
  dsimp only
  split <;> rfl

theorem unspent_actionExit (node : JobPlanNode) (context : NodeContext) :
    Keeps (On (·.Unspent spent)) (ActionNodeHandler.exit env wf { jobPlanNode := node } context) := by
  refine (StoreFree.checkJobProgress wf context).bind fun progress => ?_
  split
  · exact Keeps.throw _
  next state valued =>
    split
    · exact Keeps.throw _
    next result =>
      have closes := JobPlanNodeState.not_running_of_result (by simpa using result : state.isResultState = true)
      refine (unspent_loadXjobState unsaved wf _).bind fun row => ?_
      refine Keeps.bind (Tread.attempt (unspent_updJobState (by exact closes)) ()) fun _ => ?_
      split
      · exact Keeps.pure _
      · split
        · split
          -- the retry fails on the handler's missing context
          · exact Keeps.bind (Keeps.throw _) fun _ => Keeps.pure _
          · exact Keeps.pure _
        · exact Keeps.pure _

theorem unspent_failExit (context : NodeContext) :
    Keeps (On (·.Unspent spent)) (FailNodeHandler.exit env wf context) := by
  have rule := footprint_unspent env wf unsaved
  refine unspent_loading unsaved context fun progress row => ?_
  refine rule.newDate.bind fun date => Keeps.bind (Tread.attempt ?_ ()) fun _ => Keeps.pure _
  refine Keeps.bind (unspent_updJobState (by rfl)) fun _ => ?_
  refine Keeps.bind (rule.changeJobExecutionPlanCurrentXjobState _ _) fun _ => ?_
  refine Keeps.bind (Tread.onStore (rule.daoCall.bind fun _ => Keeps.getting.bind fun _ => Keeps.pure _)) fun rows => ?_
  refine Keeps.forM fun x _ => ?_
  unfold FailNodeHandler.failRunning
  split
  · exact rule.newDate.bind fun _ => unspent_updJobState (by rfl)
  · exact Keeps.pure _

/-- Every exit leaves the completed row in a state that is not running, spent or not. -/
theorem unspent_multiExit (node : JobPlanNode) (context : NodeContext) :
    Keeps (On (·.Unspent spent)) (NodeHandler.multiExit env wf { jobPlanNode := node } context) := by
  unfold NodeHandler.multiExit
  dsimp only
  split
  · exact Keeps.bind (unspent_startExit unsaved _ _) fun _ => Keeps.pure _
  · exact Keeps.bind (unspent_actionExit unsaved _ _) fun _ => Keeps.pure _
  · exact Keeps.bind (Tread.forkExit _) fun _ => Keeps.pure _
  · exact Keeps.bind (Tread.joinExit _) fun _ => Keeps.pure _
  · exact Keeps.bind (unspent_failExit unsaved _) fun _ => Keeps.pure _
  · exact Keeps.pure _

end Exits

/-- The guards of `exit` change nothing and let no row without an id through. -/
theorem checkJobProgress_real (P : Run → Prop) (context : NodeContext) :
    Triple P (checkJobProgress wf context)
      (fun progress s => P s ∧ progress.xjobStateID = context.xjobStateID ∧ context.xjobStateID ≠ 0) fun _ => P := by
  refine Triple.bind (StoreFree.checkCurrentExecutorKey wf) fun _ => ?_
  split
  · exact Triple.throw fun _ holds => holds
  next progress given =>
    have same : context.xjobStateID = progress.xjobStateID := by simp [NodeContext.xjobStateID, given]
    split
    · exact Triple.throw fun _ holds => holds
    next real => exact Triple.pure fun _ holds => ⟨holds, same.symm, same ▸ real⟩

/-- The row that is found is a stored one, so that what is said of the stored row holds. -/
theorem loadXjobState_known {id : Nat} {known : Prop} :
    Triple (fun s : Run => (s.store.Numbered ∧ ∀ row ∈ s.store.xjobStates, row.id = id → known) ∧
        env.daoSucceeds (s.store.tick + 1) = true)
      (loadXjobState env id)
      (fun row t => (row.id = id ∧ known) ∧ id ≤ t.store.lastXjobStateID ∧ env.daoSucceeds t.store.tick = true)
      fun _ _ => True := by
  rintro s ⟨⟨numbered, upheld⟩, writes⟩
  rw [loadXjobState, bind_apply, onStore_apply, Store.queryXjobState, bind_apply, Store.daoCall_apply]
  by_cases reads : env.daoSucceeds s.store.tick = true
  · simp only [reads, if_true, bind_apply, get_apply, pure_apply]
    cases found : Store.xjobState? { s.store with tick := s.store.tick + 1 } id with
    | none => trivial
    | some row =>
      have stored : row ∈ s.store.xjobStates := List.mem_of_find?_eq_some found
      have same : row.id = id := by simpa using List.find?_some found
      exact ⟨⟨same, upheld row stored same⟩, same ▸ numbered.known row stored, writes⟩
  · simp only [reads]
    trivial

/-- The write of a state that is not running closes the row. -/
theorem updJobState_closes {x : XjobState} (closes : x.jobPlanNodeState.isRunningState = false) :
    Triple (fun s : Run => x.id ≤ s.store.lastXjobStateID ∧ env.daoSucceeds s.store.tick = true)
      (attempt (onStore (Store.updJobState env x)) ())
      (fun _ t => x.id ≤ t.store.lastXjobStateID ∧ t.store.Closed x.id) fun _ _ => True := by
  rintro s ⟨below, writes⟩
  have returned : onStore (Store.updJobState env x) s =
      .ok () { s with store := Store.updateXjobState { s.store with tick := s.store.tick + 1 } x } := by
    simp only [onStore_apply, Store.updJobState, bind_apply, Store.daoCall_apply, writes, if_true, modify_apply]
  rw [attempt, catching_ok returned]
  exact ⟨below, Store.closed_update x closes⟩

/-- An action that is left has closed the row it was completed for, once the write succeeds. -/
theorem actionExit_closes (node : JobPlanNode) (context : NodeContext) {known : Prop} :
    Triple (fun s => (s.store.Numbered ∧ ∀ row ∈ s.store.xjobStates, row.id = context.xjobStateID → known) ∧
        env.daoSucceeds (s.store.tick + 1) = true)
      (ActionNodeHandler.exit env wf { jobPlanNode := node } context)
      (fun _ t => (context.xjobStateID ≠ 0 ∧ known) ∧ context.xjobStateID ≤ t.store.lastXjobStateID ∧
        t.store.Closed context.xjobStateID)
      fun _ _ => True := by
  refine Triple.bind ((checkJobProgress_real _ context).conseq (fun _ pre => pre) (fun _ _ post => post)
    fun _ _ _ => trivial)
    fun progress => ?_
  apply Triple.of_imp (p := progress.xjobStateID = context.xjobStateID ∧ context.xjobStateID ≠ 0)
  · rintro ⟨same, real⟩
    rw [← same] at real ⊢
    split
    · exact Triple.throw fun _ _ => trivial
    next state valued =>
      split
      · exact Triple.throw fun _ _ => trivial
      next result =>
        have closes := JobPlanNodeState.not_running_of_result (by simpa using result : state.isResultState = true)
        refine Triple.bind (loadXjobState_known.conseq (fun _ pre => pre.1) (fun _ _ post => post) fun _ _ post => post)
          fun row => ?_
        apply Triple.of_imp (p := row.id = progress.xjobStateID ∧ known)
        · rintro ⟨found, holds⟩
          let written : XjobState := { row with
            runTime := progress.runTime
            runInfo := progress.runInfo
            finishedPercent := progress.progress
            jobPlanNodeState := state }
          have writes := @updJobState_closes env written closes
          refine Triple.bind (Q := fun _ t => progress.xjobStateID ≤ t.store.lastXjobStateID ∧
            t.store.Closed progress.xjobStateID) ?_ fun _ => ?_
          · refine writes.conseq (fun t post => ?_) (fun _ t post => ?_) fun _ _ post => post
            · exact ⟨by exact found ▸ post.2.1, post.2.2⟩
            · exact found ▸ post
          · split
            · exact Triple.pure fun _ post => ⟨⟨real, holds⟩, post⟩
            · split
              · split
                · exact Triple.bind (Q := fun _ _ => False) (Triple.throw fun _ _ => trivial) fun _ => Triple.of_false
                · exact Triple.pure fun _ post => ⟨⟨real, holds⟩, post⟩
              · exact Triple.pure fun _ post => ⟨⟨real, holds⟩, post⟩
        · exact fun _ post => post.1
  · exact fun _ post => post.2

/-! ### Calls -/

variable (wf) in
/-- Counted with the transitions of the other instances, no row has seen more than one, no
running row has seen any, and neither has the id of rows that were not saved. -/
structure Run.Single (others : Nat → Nat) (s : Run) : Prop where
  store : s.store.Unspent fun id => 0 < others id + transitions wf id s.trace
  once : ∀ id, others id + transitions wf id s.trace ≤ 1
  saved : others 0 + transitions wf 0 s.trace = 0

namespace Run.Single

variable {others : Nat → Nat} {s t : Run}

theorem unmoved (single : s.Single wf others) (unmoved : Unmoved wf s t)
    (store : t.store.Unspent fun id => 0 < others id + transitions wf id s.trace) : t.Single wf others where
  store := by simpa only [unmoved _] using store
  once id := by simpa only [unmoved _] using single.once id
  saved := by simpa only [unmoved _] using single.saved

/-- The run moves on from what has been spent so far. -/
theorem footprint (env : Env) (single : s.Single wf others) :
    Footprint env wf (·.Unspent fun id => 0 < others id + transitions wf id s.trace)
      (fun id => ¬ 0 < others id + transitions wf id s.trace) (fun x => ¬ 0 < others x.id + transitions wf x.id s.trace)
        fun _ => True := by
  apply footprint_unspent
  have := single.saved
  omega

/-- Another entry that takes control out of no action. -/
theorem note (single : s.Single wf others) {act : Act} (other : ∀ id, act.spends wf id = 0) :
    Run.Single wf others { s with trace := s.trace ++ [act] } :=
  single.unmoved (fun id => by simp [other id]) single.store

theorem setStatus (single : s.Single wf others) (status : WorkflowStatus) :
    Run.Single wf others { s with status := status, trace := s.trace ++ [.assigned status] } :=
  single.unmoved (fun id => by simp [Act.spends]) single.store

/-- The transition itself, for a row that is closed and was not spent. -/
theorem pass (single : s.Single wf others) {name : String} {id : Nat} (targets : List (Option String)) (saved : id ≠ 0)
    (known : id ≤ s.store.lastXjobStateID) (closed : s.store.Closed id)
    (unspent : wf.IsAction name → others id + transitions wf id s.trace = 0) :
    Run.Single wf others { s with trace := s.trace ++ [.passed name id targets] } := by
  by_cases action : wf.IsAction name
  · have count (other : Nat) : others other + transitions wf other (s.trace ++ [.passed name id targets]) =
        others other + transitions wf other s.trace + tick (id = other) := by
      rw [transitions_append, ← Nat.add_assoc]
      simp [Act.spends, action]
    have spends := single.store.spend closed known
    constructor
    · have same : (fun other => 0 < others other + transitions wf other (s.trace ++ [.passed name id targets])) =
          fun other => 0 < others other + transitions wf other s.trace ∨ other = id := by
        funext other
        rw [count]
        by_cases hit : id = other
        · simp [hit]
        · simp [hit, Ne.symm hit]
      rw [same]
      exact spends
    · intro other
      have bound := single.once other
      rw [count]
      by_cases hit : id = other
      · have fresh := unspent action
        subst hit
        rw [tick_true rfl]
        omega
      · rw [tick_false hit]
        exact bound
    · rw [count, tick_false saved]
      exact single.saved
  · exact single.note fun _ => by simp [Act.spends, action]

end Run.Single

variable {others : Nat → Nat}

/-- The instance goes on from a node. -/
theorem single_nexts (env : Env) (wf : Workflow) (targets : List (Option String)) :
    Keeps (Run.Single wf others) (targets.forM (processNextNode env wf (signal env wf env.stackDepth))) := by
  refine Triple.pointwise fun s single => ?_
  have rule := single.footprint env
  have stores : Keeps (On (·.Unspent fun id => 0 < others id + transitions wf id s.trace))
      (targets.forM (processNextNode env wf (signal env wf env.stackDepth))) :=
    Keeps.forM fun name _ => rule.processNextNode (fun _ _ comes found passing => rule.signal _ comes found passing)
      fun _ _ => trivial
  refine (stores.and (nexts_unmoved env wf targets s)).conseq ?_ (fun _ _ post => single.unmoved post.2 post.1)
    fun _ _ post => single.unmoved post.2 post.1
  rintro _ rfl
  exact ⟨single.store, rfl⟩

theorem single_start (env : Env) (wf : Workflow) : Keeps (Run.Single wf others) (start env wf) := by
  refine Triple.pointwise fun s single => ?_
  have rule := single.footprint env
  have stores := rule.start fun _ _ => trivial
  refine (Triple.and stores (start_unmoved env wf s)).conseq ?_
    (fun _ _ post => single.unmoved post.2 post.1) fun _ _ post => single.unmoved post.2 post.1
  rintro _ rfl
  exact ⟨single.store, rfl⟩

/-- Completing the row moves nothing on, or it finds the row running and writes its result. -/
def Run.Clear (env : Env) (id : Nat) (s : Run) : Prop :=
  s.status.isEndState = true ∨ s.store.Running id ∧ env.daoSucceeds (s.store.tick + 1) = true

/-- What the exit of the completed node leaves of the instance. -/
theorem exit_unmoved (env : Env) (wf : Workflow) (node : JobPlanNode) (context : NodeContext) (s : Run) :
    Keeps (fun t : Run => t.status = s.status ∧ Unmoved wf s t)
      (NodeHandler.multiExit env wf { jobPlanNode := node } context) := by
  apply keeps_multiExit
  · exact fun _ _ holds => holds
  · constructor
    · exact fun t vars fork join paths holds => ⟨holds.1, fun id => by simpa [Act.spends] using holds.2 id⟩
    · exact fun t vars fork join holds => ⟨holds.1, fun id => by simpa [Act.spends] using holds.2 id⟩

/-- The completed row is not spent and will be closed. -/
def Run.Ready (wf : Workflow) (others : Nat → Nat) (id : Nat) (t : Run) : Prop :=
  (id ≠ 0 ∧ others id + transitions wf id t.trace = 0) ∧ id ≤ t.store.lastXjobStateID ∧ t.store.Closed id

theorem single_exit {name : String} {node : JobPlanNode} (found : wf.getNode name = some node) (context : NodeContext) :
    Triple (fun s : Run => s.Single wf others ∧ s.Clear env context.xjobStateID)
      (NodeHandler.multiExit env wf { jobPlanNode := node } context)
      (fun _ t => t.Single wf others ∧
        (t.status.isEndState = false → wf.IsAction name → t.Ready wf others context.xjobStateID))
      fun _ t => t.Single wf others := by
  refine Triple.pointwise fun s pre => ?_
  obtain ⟨single, clear⟩ := pre
  have stores := @unspent_multiExit env wf (fun id => 0 < others id + transitions wf id s.trace)
    (by have := single.saved; omega) node context
  have both := Triple.and stores (exit_unmoved env wf node context s)
  -- whatever happens, the store stays as it is said and nothing has moved
  have keeps : Triple (· = s) (NodeHandler.multiExit env wf { jobPlanNode := node } context)
      (fun _ t => t.Single wf others ∧ t.status = s.status ∧ Unmoved wf s t) fun _ t => t.Single wf others := by
    refine both.conseq ?_ (fun _ _ post => ⟨single.unmoved post.2.2 post.1, post.2⟩)
      fun _ _ post => single.unmoved post.2.2 post.1
    rintro _ rfl
    exact ⟨single.store, rfl, fun _ => rfl⟩
  by_cases live : s.status.isEndState = false ∧ wf.IsAction name
  · obtain ⟨live, action⟩ := live
    have type := (Workflow.isAction_iff found).mp action
    obtain ended | ⟨running, writes⟩ := clear
    · cases live.symm.trans ended
    -- a running row that is stored is not spent
    have upheld : ∀ row ∈ s.store.xjobStates, row.id = context.xjobStateID →
        others context.xjobStateID + transitions wf context.xjobStateID s.trace = 0 := by
      rintro row member same
      have fresh := single.store.running row member (running row member same)
      rw [same] at fresh
      omega
    have exits := @actionExit_closes env wf node context
      (others context.xjobStateID + transitions wf context.xjobStateID s.trace = 0)
    have closes : Triple (· = s) (NodeHandler.multiExit env wf { jobPlanNode := node } context)
        (fun _ t => (context.xjobStateID ≠ 0 ∧
          others context.xjobStateID + transitions wf context.xjobStateID s.trace = 0) ∧
          context.xjobStateID ≤ t.store.lastXjobStateID ∧ t.store.Closed context.xjobStateID) fun _ _ => True := by
      simp only [NodeHandler.multiExit, type]
      refine Triple.bind (exits.conseq ?_ (fun _ _ post => post) fun _ _ post => post) fun _ =>
        Triple.pure fun _ post => post
      rintro _ rfl
      exact ⟨⟨single.store.numbered, upheld⟩, writes⟩
    refine (keeps.and closes).conseq (fun _ same => ⟨same, same⟩) (fun _ t post => ?_) fun _ _ post => post.1
    obtain ⟨⟨after_, -, unmoved⟩, ⟨real, fresh⟩, closed⟩ := post
    exact ⟨after_, fun _ _ => ⟨⟨real, by rw [unmoved]; exact fresh⟩, closed⟩⟩
  · refine keeps.conseq (fun _ same => same) (fun _ t post => ⟨post.1, fun going action => ?_⟩) fun _ _ post => post
    exact absurd ⟨post.2.1 ▸ going, action⟩ live

/-- The transition is noted once, and the loop goes on to other nodes. -/
theorem single_processNextNodes (env : Env) (wf : Workflow) (name : String) (id : Nat)
    (exits : Option (List (Option String))) :
    Triple (fun s : Run => s.Single wf others ∧ (s.status.isEndState = false → wf.IsAction name → s.Ready wf others id))
      (processNextNodes env wf (signal env wf env.stackDepth) name id exits) (fun _ => Run.Single wf others)
      fun _ => Run.Single wf others := by
  refine Triple.bind (Q := fun s t => t.Single wf others ∧
    (s.status.isEndState = false → wf.IsAction name → t.Ready wf others id)) (Triple.getting fun s pre => pre)
      fun s => ?_
  split
  · exact Triple.pure fun _ pre => pre.1
  next going =>
    split
    · exact Triple.throw fun _ pre => pre.1
    next targets =>
      refine Triple.bind (Triple.modifying fun t pre => ?_) fun _ => single_nexts env wf targets
      obtain ⟨single, ready⟩ := pre
      by_cases action : wf.IsAction name
      · obtain ⟨⟨real, fresh⟩, below, closed⟩ := ready (by simpa using going) action
        exact single.pass targets real below closed fun _ => fresh
      · exact single.note fun _ => by simp [Act.spends, action]

/-- Completing a node moves on from an action once, and only if the row was running. -/
theorem single_completeJobPlanNode (env : Env) (wf : Workflow) (name : String) (context : NodeContext) :
    Triple (fun s : Run => s.Single wf others ∧ s.Clear env context.xjobStateID)
      (completeJobPlanNode env wf name context)
      (fun _ => Run.Single wf others) fun _ => Run.Single wf others := by
  refine Triple.bind (Q := fun _ s => s.Single wf others ∧ s.Clear env context.xjobStateID) ?_ fun _ => ?_
  · exact Triple.modifying fun s pre => ⟨pre.1.note fun _ => rfl, pre.2⟩
  refine Triple.bind (Q := fun _ => Run.Single wf others) ?_ fun _ => ?_
  · refine Triple.catching (F := fun _ => Run.Single wf others) ?_
      (fun _ _ => Triple.modifying fun s single => single.setStatus _) fun _ _ _ single => single
    refine createNodeHandler_bind _ _ (fun _ _ pre => pre.1) fun node found => ?_
    exact (single_exit found context).bind fun exits => single_processNextNodes env wf name _ exits
  · refine Keeps.getting.bind fun s => ?_
    split
    · apply Keeps.of_after
      intro t single
      exact Run.Single.unmoved single (fun _ => rfl) (single.store.of_same rfl rfl)
    · exact Keeps.pure _

end Calls

end Hella

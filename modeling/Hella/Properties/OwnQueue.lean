import Hella.Control.Footprint
import Hella.Control.Reports
import Hella.Engine.Consumer

/-!
# The consumer and its own queue

A plan the consumer starts pushes from the consumer's thread if control comes to the end
node without an action in between and the plan declares an event. As long as no such plan
is started for an event, the consumer never waits for room; otherwise the other threads can
fill the storehouse first, and then nobody is left to pop.
-/
namespace Hella

open Exec Runs Text

/-- Control can come to the node from the start node with no action in between. -/
inductive JobExecutionPlan.Straight (plan : JobExecutionPlan) : String → Prop where
  | start {node : JobPlanNode} (first : plan.jobPlanNodeList.find? (·.type = .start) = some node) :
    Straight plan node.name
  | next {name next : String} {node : JobPlanNode} (before : Straight plan name)
      (found : plan.jobPlanNodeList.find? (·.name = name) = some node) (passing : node.type.isFinalType = false)
      (leads : Leads node next) : Straight plan next

/-- No end node that control comes to without an action belongs to a plan with an event. -/
def JobExecutionPlan.Quiet (s : Store) (plan : JobExecutionPlan) : Prop :=
  ∀ node ∈ plan.jobPlanNodeList, node.type = .end_ → plan.Straight node.name → s.eventOf node.jobExecutionPlanID = []

/-! ### What a quiet plan pushes -/

/-- The store has produced these events and still holds the events of the plans. -/
def Silent (s₀ : Store) (events : List String) (s : Store) : Prop :=
  s.producedEvents = events ∧ ∀ id, s.eventOf id = s₀.eventOf id

section Starts

variable {env : Env} {wf : Workflow} {s₀ : Store} {events : List String}

theorem footprint_silent (env : Env) (wf : Workflow) (events : List String) (quiet : wf.jobExecutionPlan.Quiet s₀) :
    Footprint env wf (Silent s₀ events) (fun _ => True) (fun _ => True) wf.jobExecutionPlan.Straight where
  unsaved := trivial
  leads _ _ before found passing _ leads := .next before found passing leads
  asks _ silent := silent
  inserts _ _ silent _ := ⟨silent, trivial⟩
  updates _ _ silent _ := silent
  reads _ _ _ _ _ := trivial
  fails _ _ _ silent _ _ := silent
  marks s id state date silent := by
    refine ⟨silent.1, fun other => (Store.eventOf_modify other id ?_).trans (silent.2 other)⟩
    exact fun _ => ⟨rfl, rfl⟩
  dispatches _ _ _ _ silent := silent
  produces s node event silent comes found type member := by
    rw [silent.2, quiet node (Workflow.getNode_mem found) type comes] at member
    cases member
  ends _ silent := silent

theorem start_silent (quiet : wf.jobExecutionPlan.Quiet s₀) : Keeps (On (Silent s₀ events)) (start env wf) := by
  apply (footprint_silent env wf events quiet).start
  intro name given
  obtain ⟨node, first, rfl⟩ := Option.map_eq_some_iff.mp given
  exact .start first

end Starts

theorem JobEventStorehouse.pop_shrinks {h t : JobEventStorehouse} {product : Option ChainedEvent}
    (there : h.pop = some (product, t)) : t.products.length = h.products.length ∧ h.top = t.top + 1 := by
  obtain ⟨products, top⟩ := h
  cases top with
  | zero => simp [pop] at there
  | succ top =>
    simp only [pop, Option.some.injEq, Prod.mk.injEq] at there
    obtain ⟨-, rfl⟩ := there
    simp

namespace EventScheduling

variable {env : EventEnv} {e : Engine} {id : Nat}

/-- The tables and the produced events are those of the first store. -/
def Unread (s₀ s : Store) : Prop := s.jobPlans = s₀.jobPlans ∧ s.producedEvents = s₀.producedEvents

/-- What does not depend on the count of requests is kept by a DAO call. -/
theorem keeps_daoCall {P : Store → Prop} (env : Env) (asks : ∀ s, P s → P { s with tick := s.tick + 1 }) :
    Keeps P (Store.daoCall env) := by
  apply Keeps.of_after
  intro s holds
  rw [Store.daoCall_apply]
  split <;> exact asks s holds

theorem keeps_queryJobPlan {P : Store → Prop} (env : Env)
    (asks : ∀ s, P s → P { s with tick := s.tick + 1 }) (id : Nat) : Keeps P (Store.queryJobPlan env id) := by
  unfold Store.queryJobPlan
  split
  · exact Keeps.pure _
  · exact (keeps_daoCall env asks).bind fun _ => Keeps.getting.bind fun _ => Keeps.pure _

/-- The plan that is started is the one in the tables. -/
theorem loadJobExecutionPlan_unread (s₀ : Store) (env : Env) (id : Nat) :
    Triple (Unread s₀) (Store.loadJobExecutionPlan env id)
      (fun found s => Unread s₀ s ∧ ∀ plan, found = some plan → s₀.jobPlan? id = some plan) fun _ => Unread s₀ := by
  -- the plan row comes without its nodes
  have read : Triple (Unread s₀) (Store.queryJobPlan env id)
      (fun found s => Unread s₀ s ∧ ∀ row, found = some row →
        ∃ plan, s₀.jobPlan? id = some plan ∧ row = { plan with jobPlanNodeList := [] }) fun _ => Unread s₀ := by
    unfold Store.queryJobPlan
    split
    · exact Triple.pure fun s unread => ⟨unread, fun _ absent => by cases absent⟩
    · apply Triple.bind (keeps_daoCall env fun _ unread => unread)
      intro _ s unread
      refine ⟨unread, fun row given => ?_⟩
      obtain ⟨plan, found, rfl⟩ := Option.map_eq_some_iff.mp given
      rw [Store.jobPlan?, unread.1] at found
      exact ⟨plan, found, rfl⟩
  apply Triple.bind read
  intro found
  cases found with
  | none => exact Triple.pure fun s holds => ⟨holds.1, fun _ absent => by cases absent⟩
  -- the nodes are read from the same table, which the calls have left alone
  | some row =>
    apply Triple.of_imp (p := ∃ plan, s₀.jobPlan? id = some plan ∧ row = { plan with jobPlanNodeList := [] })
    · rintro ⟨plan, stored, rfl⟩
      have calls : Triple (Unread s₀) (Store.daoCall env) (fun _ => Unread s₀) fun _ => Unread s₀ :=
        keeps_daoCall env fun _ unread => unread
      refine Triple.bind (calls.conseq (fun _ holds => holds.1) (fun _ _ post => post) fun _ _ post => post) fun _ => ?_
      refine Triple.bind calls fun _ => ?_
      intro s unread
      refine ⟨unread, ?_⟩
      rintro _ ⟨rfl⟩
      have same : s.jobPlan? id = some plan := by rw [Store.jobPlan?, unread.1, ← Store.jobPlan?, stored]
      rw [same]
      exact stored
    · exact fun _ holds => holds.2 row rfl

theorem triple_onShared {α : Type} {body : StoreM α} {P : Store → Prop} {Q : α → Store → Prop}
    {R : Throwable → Store → Prop} (triple : Triple P body Q R) :
    Triple (fun e => P e.store) (Engine.onShared body) (fun a e => Q a e.store) fun t e => R t e.store := by
  intro e holds
  have result := triple e.store holds
  rw [Engine.onShared_apply]
  cases same : body e.store <;> simp only [same] at result ⊢ <;> exact result

/-- An instance of a quiet plan is started and pushes nothing. -/
theorem started_silent {s₀ : Store} {env : Env} {n : Nat} {i : Instance}
    (quiet : i.workflow.jobExecutionPlan.Quiet s₀) :
    Triple (fun e => Unread s₀ e.store ∧ e.instances[n]? = some i) (Engine.onInstance n (start env))
      (fun _ e => e.store.producedEvents = s₀.producedEvents) fun _ e =>
        e.store.producedEvents = s₀.producedEvents := by
  rintro e ⟨unread, there⟩
  have events (id : Nat) : e.store.eventOf id = s₀.eventOf id := by
    simp only [Store.eventOf, Store.jobPlan?, unread.1]
  have silent : On (Silent s₀ s₀.producedEvents) (i.run e.store) := ⟨unread.2, events⟩
  have kept : Keeps (On (Silent s₀ s₀.producedEvents)) (start env i.workflow) := start_silent quiet
  have after_ := kept.after silent
  rw [Engine.onInstance_apply there]
  cases same : start env i.workflow (i.run e.store) <;> simp only [same, after_ok, after_error] at after_ ⊢
  · exact after_.1
  · exact after_.1

/-- Starting a quiet plan pushes nothing. -/
theorem startJobPlan_silent {s₀ : Store} (quiet : ∀ plan, s₀.jobPlan? id = some plan → plan.Quiet s₀) (env : Env)
    (args : Option String) :
    Triple (fun e => Unread s₀ e.store) (Engine.startJobPlan env id args)
      (fun _ e => e.store.producedEvents = s₀.producedEvents) fun _ e =>
        e.store.producedEvents = s₀.producedEvents := by
  have loads := (triple_onShared (loadJobExecutionPlan_unread s₀ env id)).conseq (fun _ holds => holds)
    (fun _ _ post => post) fun _ e (unread : Unread s₀ e.store) => unread.2
  apply Triple.bind loads
  intro found
  cases found with
  | none => exact Triple.pure fun e holds => holds.1.2
  | some plan =>
    apply Triple.of_imp (p := s₀.jobPlan? id = some plan)
    · intro stored
      dsimp only
      split
      · exact Triple.throw fun e holds => holds.1.2
      next accepted =>
        refine Triple.bind (Q := fun _ (e : Engine) => Unread s₀ e.store) (fun e holds => holds.1) fun key => ?_
        generalize same : ({ workflowManager := ⟨plan, accepted⟩, engineRunKey := key, args := args } : Workflow) =
          workflow
        have quietly : workflow.jobExecutionPlan.Quiet s₀ := by
          rw [← same]
          exact quiet plan stored
        -- the new instance is the last one
        refine Triple.bind (Q := fun n e => Unread s₀ e.store ∧ e.instances[n]? = some { workflow := workflow })
          (fun e unread => ⟨unread, by simp⟩) fun n => ?_
        apply Triple.bind (started_silent (i := { workflow := workflow }) quietly)
        exact fun _ e silent => silent
    · exact fun e holds => holds.2 plan rfl

theorem disable_silent (events : List String) (id : Nat) :
    Keeps (fun s => s.producedEvents = events) (disableJobExecutionPlans env id) := by
  refine Keeps.catching ((keeps_queryJobPlan _ (fun _ same => same) _).bind fun found => ?_) fun _ _ => Keeps.throw _
  split
  · exact Keeps.pure _
  · refine Keeps.bind (fun _ same => same) fun n => ?_
    split
    · exact (keeps_daoCall _ fun _ same => same).bind fun _ => Keeps.modifying fun _ same => same
    · exact Keeps.pure _

theorem publishEvent_silent (quiet : ∀ plan, e.store.jobPlan? id = some plan → plan.Quiet e.store) :
    (after (publishEvent env id e)).store.producedEvents = e.store.producedEvents := by
  have silent : Triple (fun t => Unread e.store t.store) (publishEvent env id)
      (fun _ t => t.store.producedEvents = e.store.producedEvents) fun _ t =>
        t.store.producedEvents = e.store.producedEvents := by
    have reads := triple_onShared (keeps_queryJobPlan (P := Unread e.store) env.toEnv (fun _ unread => unread) id)
    refine Triple.bind (reads.conseq (fun _ unread => unread) (fun _ _ post => post) fun _ _ post => post.2)
      fun found => ?_
    split
    · exact (triple_onShared (disable_silent e.store.producedEvents id)).conseq (fun _ unread => unread.2)
        (fun _ _ post => post) fun _ _ post => post
    · exact (startJobPlan_silent quiet env.toEnv none).catching (fun _ _ => Triple.pure fun _ same => same)
        fun _ _ _ same => same
  have result := silent e ⟨rfl, rfl⟩
  cases same : publishEvent env id e <;> simp only [same] at result ⊢ <;> exact result

/-! ### Whole runs -/

/-- A plan the consumer starts for an event is quiet. -/
def Quietly (s : EventScheduling) : Action → Prop
  | .publishEvent => ∀ id plans, s.consumer = .publishing (id :: plans) →
      ∀ plan, s.engine.store.jobPlan? id = some plan → plan.Quiet s.engine.store
  | _ => True

/-- The consumer has nothing to push, now and after what it does next. -/
def PushesNothing : JobEventConsumer → Prop
  | .pushing events next => events = [] ∧ PushesNothing next
  | _ => True

variable {s t : EventScheduling} {a : Action}

theorem pushesNothing_afterwards (plans : List Nat) (result : EStateM.Result Throwable Engine Unit) :
    PushesNothing (afterwards plans result) := by
  cases result with
  | ok => trivial
  | error t _ =>
    simp only [afterwards]
    split <;> trivial

theorem pushesNothing_consume (product : Option ChainedEvent) : PushesNothing (consume env e product).2 := by
  cases product with
  | none => trivial
  | some event =>
    simp only [consume]
    split <;> trivial

theorem Step.pushesNothing (step : Step env s a t) (quietly : s.Quietly a) (before : PushesNothing s.consumer) :
    PushesNothing t.consumer := by
  cases step with
  | produces | stops | elsewhere => exact before
  | pops => exact pushesNothing_consume _
  | @publishes id plans at_ =>
    refine ⟨?_, pushesNothing_afterwards _ _⟩
    rw [eventsOf, publishEvent_silent (quietly id plans at_), List.drop_length]
  | pushes at_ =>
    rw [at_] at before
    cases before.1
  | pushed at_ =>
    rw [at_] at before
    exact before.2
  | executed => trivial
  | wakes =>
    dsimp only
    split <;> trivial

/-- As long as the plans that are started for an event are quiet, the consumer never waits
in `push`. -/
theorem never_waits (reachable : Reachable (system env) Quietly s) : ¬ s.Waits := by
  have nothing : PushesNothing s.consumer := by
    apply reachable.invariant (I := fun s => PushesNothing s.consumer)
    · intro s initial
      rw [initial.consumer]
      trivial
    · exact fun s a t before quietly step => step.pushesNothing quietly before
  rintro ⟨event, events, next, at_, -⟩
  rw [at_] at nothing
  cases nothing.1

/-! ### Where another plan leads -/

/-- The storehouse never holds more than it has slots. -/
theorem top_le (reachable : Reachable (system env) (fun _ _ => True) s) :
    s.storeHouse.top ≤ s.storeHouse.products.length := by
  apply reachable.invariant (I := fun s => s.storeHouse.top ≤ s.storeHouse.products.length)
  · intro s initial
    rw [initial.storeHouse]
    exact Nat.zero_le _
  · intro s a t bound _ step
    have pushed (event : ChainedEvent) (room : s.storeHouse.isFull = false) :
        (s.storeHouse.push event).top ≤ (s.storeHouse.push event).products.length := by
      have notFull : s.storeHouse.top ≠ s.storeHouse.products.length := by simpa [JobEventStorehouse.isFull] using room
      simp only [JobEventStorehouse.push, List.length_set]
      omega
    cases step with
    | produces room => exact pushed _ room
    | pushes _ room => exact pushed _ room
    | stops => exact Nat.zero_le _
    | @pops product h at_ there =>
      obtain ⟨slots, top⟩ := JobEventStorehouse.pop_shrinks there
      dsimp only
      omega
    | publishes | pushed | executed | wakes | elsewhere => exact bound

/-- As soon as the consumer has an event to push, the other threads can fill the storehouse
before it. -/
theorem waits_of_pushing {event : String} {events : List String} {next : JobEventConsumer} (room : Nat)
    (reachable : Reachable (system env) (fun _ _ => True) s) (at_ : s.consumer = .pushing (event :: events) next)
    (left : s.storeHouse.products.length = s.storeHouse.top + room) :
    ∃ t, Reachable (system env) (fun _ _ => True) t ∧ t.Waits := by
  induction room generalizing s with
  | zero => exact ⟨s, reachable, event, events, next, at_, by simp [JobEventStorehouse.isFull, left]⟩
  | succ room ih =>
    have free : s.storeHouse.isFull = false := by simp [JobEventStorehouse.isFull, left]
    apply ih (reachable.next (a := .produceJobEvent ⟨none, 0⟩) trivial (.produces free)) at_
    simp only [JobEventStorehouse.push, List.length_set, left]
    omega

/-- Nobody but a shutdown makes room for the consumer. -/
theorem Step.waits (step : Step env s a t) (running : a ≠ .setShouldRun) (waits : s.Waits) : t.Waits := by
  obtain ⟨event, events, next, at_, full⟩ := waits
  cases step with
  | produces room => cases full.symm.trans room
  | stops => exact absurd rfl running
  | pops now => cases at_.symm.trans now
  | publishes now => cases at_.symm.trans now
  | pushes _ room => cases full.symm.trans room
  | pushed now => cases at_.symm.trans now
  | executed now => cases at_.symm.trans now
  | wakes now => cases at_.symm.trans now
  | elsewhere => exact ⟨event, events, next, at_, full⟩

/-! ### An empty plan with an event -/

/-- The plan waits for the event `go` and declares one of its own. -/
def relay : JobExecutionPlan where
  id := 1
  event := some "done"
  jobPlanNodeList := [{ Diamond.node 1 .start "start" with toNode := some "end" }, Diamond.node 2 .end_ "end"]

def relayEnv : EventEnv where
  toEnv := Env.calm
  subscribes event _ := event = some "go"
  deleteJobPlan _ := true

/-- The plan is stored, and no event has been produced yet. -/
def relaying : EventScheduling where
  engine := { store := { jobPlans := [relay] } }
  storeHouse := .construct 0

def go : ChainedEvent := ⟨some "go", 0⟩

/-- The event has been popped, and the plan has been started for it. -/
def relayed : EventScheduling :=
  let popped := (consume relayEnv relaying.engine (some go)).1
  let started := publishEvent relayEnv 1 popped
  { engine := after started
    storeHouse := .construct 0
    consumer := .pushing (eventsOf popped (after started)) (afterwards [] started) }

theorem relayed_reachable : Reachable (system relayEnv) (fun _ _ => True) relayed := by
  have on {s t : EventScheduling} {a : Action} (before : Reachable (system relayEnv) (fun _ _ => True) s)
      (step : Step relayEnv s a t) : Reachable (system relayEnv) (fun _ _ => True) t := before.next trivial step
  have start : Reachable (system relayEnv) (fun _ _ => True) relaying := .start ⟨rfl, rfl⟩
  have produces : Step relayEnv relaying (.produceJobEvent go) _ := .produces rfl
  have popped := on (on start produces) (.pops rfl rfl)
  have plans : (consume relayEnv relaying.engine (some go)).2 = .publishing [1] := by decide +kernel
  exact on popped (.publishes plans)

theorem relayed_pushing : relayed.consumer = .pushing ["done"] (.publishing []) := by decide +kernel

/-- The plan pushes its event from the consumer's thread. After three events that come in
between the consumer waits for itself, and only a shutdown would end that. -/
theorem relayed_waits : ∃ s, Reachable (system relayEnv) (fun _ _ => True) s ∧ s.Waits ∧
    ∀ a t, Step relayEnv s a t → a ≠ .setShouldRun → t.Waits := by
  obtain ⟨s, reachable, waits⟩ := waits_of_pushing 3 relayed_reachable relayed_pushing rfl
  exact ⟨s, reachable, waits, fun a t step running => step.waits running waits⟩

/-! ### A plan with an action before its end -/

theorem diamond_straight {name : String} (straight : Diamond.plan.Straight name) : name = "start" ∨ name = "a" := by
  induction straight with
  | start first =>
    cases first.symm.trans (by rfl : _ = some { Diamond.node 1 .start "start" with toNode := some "a" })
    exact .inl rfl
  | next _ found passing leads ih =>
    rcases ih with rfl | rfl
    · cases found.symm.trans (by rfl : _ = some { Diamond.node 1 .start "start" with toNode := some "a" })
      exact .inr (Option.some.inj (leads.2 (by decide))).symm
    · cases found.symm.trans (by rfl : _ = some (Diamond.action 2 "a" "f"))
      cases passing

theorem diamond_quiet (s : Store) : Diamond.plan.Quiet s := by
  intro node member end_ straight
  rcases diamond_straight straight with same | same
  · have others : ∀ node ∈ Diamond.plan.jobPlanNodeList, node.type = .end_ → node.name ≠ "start" := by decide
    exact absurd same (others node member end_)
  · have others : ∀ node ∈ Diamond.plan.jobPlanNodeList, node.type = .end_ → node.name ≠ "a" := by decide
    exact absurd same (others node member end_)

/-- The consumer starts the plan for the event and goes on to the next one. -/
theorem never_waits_diamond : ∃ s, Reachable (system relayEnv) Quietly s ∧
    s.consumer = .pushing [] (.publishing []) ∧ s.engine.store.xjobStates.length = 2 ∧ ¬ s.Waits := by
  let waiting : EventScheduling := { engine := { store := Diamond.store }, storeHouse := .construct 0 }
  have on {s t : EventScheduling} {a : Action} (before : Reachable (system relayEnv) Quietly s)
    (step : Step relayEnv s a t)
      (quietly : s.Quietly a) : Reachable (system relayEnv) Quietly t := before.next quietly step
  have start : Reachable (system relayEnv) Quietly waiting := .start ⟨rfl, rfl⟩
  have produces : Step relayEnv waiting (.produceJobEvent go) _ := .produces rfl
  have popped := on (on start produces trivial) (.pops rfl rfl) trivial
  have plans : (consume relayEnv waiting.engine (some go)).2 = .publishing [1] := by decide +kernel
  have published := on popped (.publishes plans) ?_
  · exact ⟨_, published, by decide +kernel, by decide +kernel, never_waits published⟩
  · intro id others at_ plan stored
    cases plans.symm.trans at_
    have only : (consume relayEnv waiting.engine (some go)).1.store.jobPlan? 1 = some Diamond.plan := by decide +kernel
    obtain rfl := Option.some.inj (only.symm.trans stored)
    exact diamond_quiet _

end EventScheduling

end Hella

import Hella.Engine.JobEvents
import Hella.Engine.Managers

/-!
# The consumer of chained events

`JobEventConsumer` pops an event and starts the plans that wait for it, all on its own
thread. A plan that comes to its end node on the way pushes its own event from there, into
the storehouse the consumer pops from. The other threads push, pop nothing, and do to the
engine what they like.
-/
namespace Hella

open Exec Runs

/-- `Env` with the answers the event threads get besides. -/
structure EventEnv extends Env where
  /-- whether the columns `cronType` and `cronExpression` of a plan row ask for the event -/
  subscribes : Option String → Nat → Bool
  /-- whether Quartz deletes the job of a plan -/
  deleteJobPlan : Nat → Bool

/-- Where the thread is in `JobEventConsumer.run`. -/
inductive JobEventConsumer where
  /-- in `pop` -/
  | popping
  /-- in `EventJob.execute`, with the plans still to publish -/
  | publishing (plans : List Nat)
  /-- in `push`, called by the end node of a plan it has started, with the events to push and
  what comes after -/
  | pushing (events : List String) (next : JobEventConsumer)
  | sleeping
  | ended
  deriving DecidableEq, Repr

structure EventScheduling where
  engine : Engine := {}
  storeHouse : JobEventStorehouse
  shouldRun : Bool := true
  consumer : JobEventConsumer := .popping

namespace EventScheduling

section Calls

variable (env : EventEnv)

/-- `DefaultJobEventManager.queryJobPlanByEvent`. -/
def queryJobPlanByEvent (event : Option String) : StoreM (List Nat) := do
  Store.daoCall env.toEnv
  return ((← get).jobPlans.filter fun plan => plan.state = .able ∧ env.subscribes event plan.id).map (·.id)

def disableJobExecutionPlans (id : Nat) : StoreM Unit :=
  catching Throwable.isException
    (do
      match ← Store.queryJobPlan env.toEnv id with
      | none => pure ()
      | some plan =>
        if env.deleteJobPlan (← Store.request) then Store.updateJobPlanState env.toEnv plan.id .disable)
    fun _ => throw (.exception ("fail  to  deleteJobPlan  by jobPlanBuilder! jobExecutionPlanID:" ++ toString id))

/-- `SystemJob.publishEvent`. A plan that is disabled is not started. -/
def publishEvent (id : Nat) : EngineM Unit := do
  let plan ← Engine.onShared (Store.queryJobPlan env.toEnv id)
  if plan.map (·.state) = some .disable then Engine.onShared (disableJobExecutionPlans env id)
  else catching Throwable.isException (Engine.startJobPlan env.toEnv id none) fun _ => pure ()

/-- The events a call has produced. -/
def eventsOf (e e' : Engine) : List String := e'.store.producedEvents.drop e.store.producedEvents.length

/-- What the thread does after `publishEvent`: an exception ends `execute`, anything else
the thread. -/
def afterwards (plans : List Nat) : EStateM.Result Throwable Engine Unit → JobEventConsumer
  | .ok _ _ => .publishing plans
  | .error t _ => if t.isException then .sleeping else .ended

/-- What the thread does with a popped event. A null one ends it. -/
def consume (e : Engine) : Option ChainedEvent → Engine × JobEventConsumer
  | none => (e, .ended)
  | some event =>
    match Engine.onShared (queryJobPlanByEvent env event.name) e with
    | .ok plans e' => (e', .publishing plans)
    | .error _ e' => (e', .sleeping)

end Calls

inductive Action where
  | produceJobEvent (event : ChainedEvent)
  | setShouldRun
  | pop
  | publishEvent
  | push
  /-- the consumer goes on without a call -/
  | proceed
  | elsewhere (e : Engine)

inductive Step (env : EventEnv) : EventScheduling → Action → EventScheduling → Prop where
  /-- a producer, or an instance that is told of a result, on a thread of its own -/
  | produces {s event} (room : s.storeHouse.isFull = false) :
    Step env s (.produceJobEvent event) { s with storeHouse := s.storeHouse.push event }
  /-- `setShouldRun(false)` -/
  | stops {s} : Step env s .setShouldRun { s with shouldRun := false, storeHouse := s.storeHouse.popAll.2 }
  | pops {s product h} (at_ : s.consumer = .popping) (there : s.storeHouse.pop = some (product, h)) :
    Step env s .pop { s with
      engine := (consume env s.engine product).1
      storeHouse := h
      consumer := (consume env s.engine product).2 }
  /-- the pushes of the call come right after it -/
  | publishes {s id plans} (at_ : s.consumer = .publishing (id :: plans)) :
    Step env s .publishEvent { s with
      engine := after (publishEvent env id s.engine)
      consumer := .pushing (eventsOf s.engine (after (publishEvent env id s.engine)))
        (afterwards plans (publishEvent env id s.engine)) }
  | pushes {s event events next} (at_ : s.consumer = .pushing (event :: events) next)
    (room : s.storeHouse.isFull = false) :
    Step env s .push { s with storeHouse := s.storeHouse.push ⟨some event, 0⟩, consumer := .pushing events next }
  | pushed {s next} (at_ : s.consumer = .pushing [] next) : Step env s .proceed { s with consumer := next }
  | executed {s} (at_ : s.consumer = .publishing []) : Step env s .proceed { s with consumer := .sleeping }
  | wakes {s} (at_ : s.consumer = .sleeping) :
    Step env s .proceed { s with consumer := if s.shouldRun then .popping else .ended }
  | elsewhere {s e} : Step env s (.elsewhere e) { s with engine := e }

/-- The storehouse is empty and the consumer waits for an event. -/
structure Initial (s : EventScheduling) : Prop where
  storeHouse : s.storeHouse = .construct 0
  consumer : s.consumer = .popping

def system (env : EventEnv) : System EventScheduling Action := ⟨Initial, Step env⟩

/-- The consumer itself waits in `push` for room. -/
def Waits (s : EventScheduling) : Prop :=
  ∃ event events next, s.consumer = .pushing (event :: events) next ∧ s.storeHouse.isFull = true

end EventScheduling

end Hella

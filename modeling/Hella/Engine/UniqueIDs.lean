import Hella.Control.Writes
import Hella.Lib.Runs
import Hella.Lib.Stutter
import Mathlib.Algebra.Group.Nat.Defs

/-!
# `UniqueIDGenerator`

The generator over the readings of the system clock, and who is given its IDs: the runs of
workflows, the executor keys of single jobs, and the events. `WorkflowContext` keeps a run
under its key and the job of an event under the event's ID. The calls may come in any order
from any threads.
-/
namespace Hella

open Exec Runs

namespace UniqueIDGenerator

/-- The ID and the readings that are still to come. `none`: after all of them the loop is
still asleep. -/
def generateID (lastID : Int) : List Int → Option (Int × List Int)
  | [] => none
  | id :: readings => if id = lastID then generateID lastID readings else some (id, readings)

/-- The IDs of successive calls are the readings that differ from the one before. -/
theorem generateID_changes {lastID id : Int} {readings rest : List Int}
    (drawn : generateID lastID readings = some (id, rest)) :
    Stutter.changes lastID readings = id :: Stutter.changes id rest := by
  induction readings with
  | nil => cases drawn
  | cons reading readings ih =>
    unfold generateID at drawn
    split at drawn
    next same =>
      rw [same, Stutter.changes_same]
      exact ih drawn
    next other =>
      obtain ⟨rfl, rfl⟩ := Prod.mk.inj (Option.some.inj drawn)
      exact Stutter.changes_other other

/-- The loop is left as soon as there is a reading to leave it with. -/
theorem generateID_isSome {lastID id : Int} {readings ids : List Int}
    (next : Stutter.changes lastID readings = id :: ids) : ∃ rest, generateID lastID readings = some (id, rest) := by
  induction readings with
  | nil => cases next
  | cons reading readings ih =>
    by_cases same : reading = lastID
    · rw [same, Stutter.changes_same] at next
      obtain ⟨rest, drawn⟩ := ih next
      exact ⟨rest, by rw [generateID, if_pos same, drawn]⟩
    · rw [Stutter.changes_other same] at next
      obtain ⟨rfl, -⟩ := List.cons.inj next
      exact ⟨readings, by rw [generateID, if_neg same]⟩

end UniqueIDGenerator

/-- `LiteWorkflowInstance.getWorkflowKey`. -/
def workflowKey (engineRunKey : Int) (jobExecutionPlanID : Nat) : String :=
  toString engineRunKey ++ toString jobExecutionPlanID

theorem workflowKey_natCast (wf : Workflow) : workflowKey wf.engineRunKey wf.jobExecutionPlan.id = wf.getWorkflowKey :=
  rfl

/-- The IDs of one engine process and where they are used. -/
structure IDs where
  lastID : Int
  /-- the readings of the clock that are still to come -/
  readings : List Int
  /-- what `generateID` has returned so far -/
  ids : List Int := []
  store : Store
  /-- the events that were built, dispatched or not -/
  events : List JobEvent := []
  /-- the entries of events that were not removed since -/
  liveEvents : List (String × JobNodeRuningInfo) := []
  /-- run key and plan of each instance -/
  workflows : List (Int × Nat) := []
  /-- the entries of runs that were not removed since -/
  liveRuns : List (String × Nat) := []

namespace IDs

open UniqueIDGenerator

def eventID (idPrefix : String) (id : Int) : String := idPrefix ++ toString id

theorem eventID_natCast (env : Env) (n : Nat) : eventID env.idPrefix (env.generateID n) = Store.eventIDAt env n := rfl

def draw (w : IDs) (id : Int) (readings : List Int) : IDs :=
  { w with lastID := id, readings := readings, ids := w.ids ++ [id] }

inductive Action where
  /-- for a key that neither a run nor an event has -/
  | generateID
  /-- `LiteWorkflowInstance.initialize` -/
  | initializeInstance (jobExecutionPlanID : Nat)
  /-- of the instance of that number -/
  | addWorkflow (n : Nat)
  | removeWorkflow (workflowRunKey : String)
  | executeXJob (workflowRunKey : String) (jobPlanNode : JobPlanNode) (xjobStateID : Nat) (type : XjobExecutorType)
      (args : Option String)
  | removeJobNodeRuningInfo (eventID : String)
  /-- the rest of the store may become anything -/
  | elsewhere (store : Store)

inductive Step (idPrefix : String) : IDs → Action → IDs → Prop where
  | draws {w : IDs} {id rest} (drawn : generateID w.lastID w.readings = some (id, rest)) :
    Step idPrefix w .generateID (w.draw id rest)
  /-- the ids of plans are positive and of the type `int` -/
  | initializes {w : IDs} {id rest plan} (drawn : generateID w.lastID w.readings = some (id, rest))
      (int : 0 < plan ∧ plan < 2 ^ 31) :
    Step idPrefix w (.initializeInstance plan) { w.draw id rest with workflows := w.workflows ++ [(id, plan)] }
  | adds {w : IDs} {n id plan} (there : w.workflows[n]? = some (id, plan)) :
    Step idPrefix w (.addWorkflow n)
      { w with
        store := after (Store.addWorkflow (workflowKey id plan) n w.store)
        liveRuns := w.liveRuns ++ [(workflowKey id plan, n)] }
  | removes {w : IDs} {key} :
    Step idPrefix w (.removeWorkflow key)
      { w with
        store := after (Store.removeWorkflow key w.store)
        liveRuns := w.liveRuns.filter fun entry => entry.1 ≠ key }
  | executes {w : IDs} {id rest key node xjobStateID type args xjobMeta event}
      (drawn : generateID w.lastID w.readings = some (id, rest)) (given : node.xjobMeta = some xjobMeta)
      (built : event = Store.executeEvent (eventID idPrefix id) node xjobMeta type args) :
    Step idPrefix w (.executeXJob key node xjobStateID type args)
      { w.draw id rest with
        store := w.store.dispatch event ⟨node.name, xjobStateID, key⟩
        events := w.events ++ [event]
        liveEvents := w.liveEvents ++ [(event.eventID, ⟨node.name, xjobStateID, key⟩)] }
  /-- a node without a job: the ID is drawn and not used -/
  | throws {w : IDs} {id rest key node xjobStateID type args}
      (drawn : generateID w.lastID w.readings = some (id, rest)) (without : node.xjobMeta = none) :
    Step idPrefix w (.executeXJob key node xjobStateID type args) (w.draw id rest)
  | forgets {w : IDs} {eventID} :
    Step idPrefix w (.removeJobNodeRuningInfo eventID)
      { w with
        store := after (Store.removeJobNodeRuningInfo eventID w.store)
        liveEvents := w.liveEvents.filter fun entry => entry.1 ≠ eventID }
  | elsewhere {w : IDs} {store : Store} (runs : store.workflowsMap = w.store.workflowsMap)
      (infos : store.jobNodeRuningInfosMap = w.store.jobNodeRuningInfosMap) :
    Step idPrefix w (.elsewhere store) { w with store := store }

/-- The class has been loaded with the first reading, and no key has been given away. -/
structure Initial (first : Int) (readings : List Int) (w : IDs) : Prop where
  clock : w.lastID = first ∧ w.readings = readings
  ids : w.ids = []
  maps : w.store.workflowsMap = ∅ ∧ w.store.jobNodeRuningInfosMap = ∅
  events : w.events = [] ∧ w.liveEvents = []
  runs : w.workflows = [] ∧ w.liveRuns = []

def system (idPrefix : String) (first : Int) (readings : List Int) : System IDs Action :=
  ⟨Initial first readings, Step idPrefix⟩

/-- No ID has been returned twice, no two events have one ID, and what is live is found under
its own key. -/
structure Unique (w : IDs) : Prop where
  ids : w.ids.Nodup
  events : (w.events.map (·.eventID)).Nodup
  infos : ∀ entry ∈ w.liveEvents, w.store.jobNodeRuningInfosMap.lookup entry.1 = some entry.2
  runs : ∀ entry ∈ w.liveRuns, w.store.workflowsMap.lookup entry.1 = some entry.2

end IDs

end Hella

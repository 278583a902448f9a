import Hella.Lib.Runs
import Hella.Lib.Text

/-!
# Chained job events

`JobEventStorehouse`, the bounded stack between `JobEventProducer` and
`JobEventConsumer`, and the table a shutdown stores what is left in and a load reads
back. A wait for room or for an event is a step that is not yet possible. The DAO calls
succeed.
-/
namespace Hella

open Runs Text

/-- `Event`. The number is not in the source: it tells events of one name apart and
follows an event through the table. -/
structure ChainedEvent where
  name : Option String
  number : Nat
  deriving DecidableEq, Repr

/-- A `NoConsumptionJobEvent` row; its name column is not null. -/
structure NoConsumptionJobEvent where
  id : Nat
  name : String
  number : Nat
  deriving DecidableEq, Repr

namespace NoConsumptionJobEvent

def event (row : NoConsumptionJobEvent) : ChainedEvent := ⟨some row.name, row.number⟩

/-- `none` is null, for a blank name. -/
def getEvent (row : NoConsumptionJobEvent) : Option ChainedEvent :=
  if isBlank (some row.name) then none else some row.event

end NoConsumptionJobEvent

/-- `JobEventStorehouse`. -/
structure JobEventStorehouse where
  products : List (Option ChainedEvent)
  top : Nat := 0

namespace JobEventStorehouse

def defaultSize : Nat := 3

def construct (resourceSize : Int) : JobEventStorehouse :=
  { products := List.replicate (if resourceSize > 0 then resourceSize.toNat else defaultSize) none }

def isFull (h : JobEventStorehouse) : Bool := h.top == h.products.length

def push (h : JobEventStorehouse) (product : ChainedEvent) : JobEventStorehouse :=
  { products := h.products.set h.top (some product), top := h.top + 1 }

/-- `none` when there is nothing to pop yet. -/
def pop (h : JobEventStorehouse) : Option (Option ChainedEvent × JobEventStorehouse) :=
  match h.top with
  | 0 => none
  | top + 1 => some ((h.products[top]?).join, { products := h.products.set top none, top := top })

/-- The events with a name, from the bottom. An event without one stays in its slot. -/
def popAll (h : JobEventStorehouse) : List ChainedEvent × JobEventStorehouse :=
  (h.products.reduceOption.filter (·.name.isSome),
    { products := h.products.map fun product => product.filter (·.name.isNone), top := 0 })

end JobEventStorehouse

/-- A `loadJobEvent` that has read the table. -/
structure JobEventLoad where
  list : List NoConsumptionJobEvent
  /-- what it has still to push -/
  rest : List NoConsumptionJobEvent

structure JobEvents where
  storeHouse : JobEventStorehouse
  table : List NoConsumptionJobEvent
  lastID : Nat
  loads : List JobEventLoad := []
  /-- what `setShouldRun(false)` has popped and still to store -/
  saving : List ChainedEvent := []
  /-- all events that were ever produced -/
  produced : List ChainedEvent
  /-- the events the consumer has popped -/
  popped : List ChainedEvent := []

namespace JobEvents

inductive Action where
  | produceJobEvent (event : ChainedEvent)
  | pop
  | findAll
  /-- the load of that number goes on to its next row -/
  | load (n : Nat)
  | delAllNoConsumptionJobEvent (n : Nat)
  | popAll
  | saveJobEvent

inductive Step : JobEvents → Action → JobEvents → Prop where
  | produces {s event} (room : s.storeHouse.isFull = false) (fresh : event ∉ s.produced) :
    Step s (.produceJobEvent event)
      { s with storeHouse := s.storeHouse.push event, produced := s.produced ++ [event] }
  | pops {s product h} (there : s.storeHouse.pop = some (product, h)) :
    Step s .pop { s with storeHouse := h, popped := s.popped ++ product.toList }
  /-- a load that finds nothing returns at once -/
  | reads {s} (stored : s.table ≠ []) : Step s .findAll { s with loads := s.loads ++ [⟨s.table, s.table⟩] }
  | pushes {s n l row rest event} (there : s.loads[n]? = some l) (next : l.rest = row :: rest)
      (some_ : row.getEvent = some event) (room : s.storeHouse.isFull = false) :
    Step s (.load n)
      { s with storeHouse := s.storeHouse.push event, loads := s.loads.set n { l with rest := rest } }
  /-- a row without an event breaks the load off, and nothing is deleted -/
  | breaks {s n l row rest} (there : s.loads[n]? = some l) (next : l.rest = row :: rest)
      (null : row.getEvent = none) :
    Step s (.load n) { s with loads := s.loads.eraseIdx n }
  | deletes {s n l} (there : s.loads[n]? = some l) (done : l.rest = []) :
    Step s (.delAllNoConsumptionJobEvent n) { s with table := [], loads := s.loads.eraseIdx n }
  | drains {s} :
    Step s .popAll { s with
      storeHouse := s.storeHouse.popAll.2
      saving := s.saving ++ s.storeHouse.popAll.1 }
  | stores {s event rest name} (next : s.saving = event :: rest) (named : event.name = some name)
      (nonblank : isBlank (some name) = false) :
    Step s .saveJobEvent { s with
      table := s.table ++ [⟨s.lastID + 1, name, event.number⟩]
      lastID := s.lastID + 1
      saving := rest }
  | skips {s event rest} (next : s.saving = event :: rest) (blank : isBlank event.name = true) :
    Step s .saveJobEvent { s with saving := rest }

/-- The storehouse is empty, and the table may hold what an earlier shutdown stored in it,
which are names that are not blank. -/
structure Initial (s : JobEvents) : Prop where
  storeHouse : ∃ resourceSize, s.storeHouse = .construct resourceSize
  rows : ∀ row ∈ s.table, isBlank (some row.name) = false ∧ row.id ≤ s.lastID
  loads : s.loads = []
  saving : s.saving = []
  produced : s.produced = s.table.map (·.event)
  popped : s.popped = []

def system : System JobEvents Action := ⟨Initial, Step⟩

end JobEvents

end Hella

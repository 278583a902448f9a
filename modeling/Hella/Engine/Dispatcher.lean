import Hella.Engine.Checker

/-!
# The dispatcher and its lists

`DefaultDispatcher` with the `ArrayList`s as objects: the map holds references to them, and
a list that is handed out is the object itself. The store of the workflow code has the
contents in the map instead; the two agree as long as no two references meet.
-/
namespace Hella

open Exec

variable {E : Type}

/-- `DefaultDispatcher` and the registrations of `DefaultEngineClusterManager`. -/
structure Dispatcher (E : Type) where
  /-- the lists ever created; a reference is an index -/
  lists : List (List E) := []
  jobEventsMap : JMap Nat := ∅
  /-- a `HashMap`, which takes null for a key -/
  executorRegisterDateMap : AList (fun _ : Option String => Option String) := ∅

namespace Dispatcher

/-- What is behind a reference. -/
def list (s : Dispatcher E) (reference : Nat) : List E := s.lists.getD reference []

/-! ### `DefaultEngineClusterManager` -/

def storeExecutorRegisterDate (s : Dispatcher E) (clusterID date : Option String) : Dispatcher E :=
  { s with executorRegisterDateMap := s.executorRegisterDateMap.insert clusterID date }

def removeExecutorRegisterDate (s : Dispatcher E) (clusterID : Option String) : Dispatcher E :=
  { s with executorRegisterDateMap := s.executorRegisterDateMap.erase clusterID }

def isExecutorAlreadyRegister (s : Dispatcher E) : Option String → Bool
  | none => false
  | some clusterID => decide (some clusterID ∈ s.executorRegisterDateMap)

/-! ### `DefaultDispatcher` -/

/-- The list of the cluster, or a new one, with one more event. -/
def add (s : Dispatcher E) (clusterID : String) (jobEvent : E) : Dispatcher E :=
  match s.jobEventsMap.lookup clusterID with
  | some reference =>
    { s with
      lists := s.lists.modify reference (· ++ [jobEvent])
      jobEventsMap := s.jobEventsMap.insert clusterID reference }
  | none =>
    { s with
      lists := s.lists ++ [[jobEvent]]
      jobEventsMap := s.jobEventsMap.insert clusterID s.lists.length }

/-- Without a cluster ID an event is for nobody that is registered. -/
def doDispatch (executorClusterID : E → Option String) (s : Dispatcher E) : Option E → Dispatcher E
  | none => s
  | some jobEvent =>
    match executorClusterID jobEvent with
    | none => s
    | some clusterID => if s.isExecutorAlreadyRegister (some clusterID) then s.add clusterID jobEvent else s

def remove (s : Dispatcher E) (clusterID : String) : Dispatcher E :=
  { s with jobEventsMap := s.jobEventsMap.erase clusterID }

/-- The reference that is taken out of the map, if there is one. A `ConcurrentHashMap` throws
at a null key. -/
def getJobEventsByExecutorClusterID (s : Dispatcher E) : Option String → Except Throwable (Option Nat × Dispatcher E)
  | none => .error .nullPointerException
  | some clusterID => .ok (s.jobEventsMap.lookup clusterID, s.remove clusterID)

/-- The same, and the caller is given nothing. -/
def removeJobEventsByExecutorClusterID (s : Dispatcher E) (clusterID : Option String) :
    Except Throwable (Option Nat × Dispatcher E) :=
  s.getJobEventsByExecutorClusterID clusterID

/-- The current queue of a cluster. -/
def queue (s : Dispatcher E) (clusterID : String) : List E :=
  ((s.jobEventsMap.lookup clusterID).map s.list).getD []

/-! ### References that do not meet -/

/-- The references in the map are to lists that exist, to a different one for each cluster,
and to none of those that are out. -/
structure Separate (out : List Nat) (s : Dispatcher E) : Prop where
  valid : ∀ c reference, s.jobEventsMap.lookup c = some reference → reference < s.lists.length
  inside : ∀ c reference, s.jobEventsMap.lookup c = some reference → reference ∉ out
  own : ∀ c d reference, s.jobEventsMap.lookup c = some reference → s.jobEventsMap.lookup d = some reference → c = d
  past : ∀ reference ∈ out, reference < s.lists.length

section Lists

variable {s t : Dispatcher E} {out : List Nat} {c d : String} {event : E} {reference : Nat}

theorem queue_of_lookup (there : s.jobEventsMap.lookup c = some reference) : s.queue c = s.list reference := by
  rw [queue, there]
  rfl

theorem queue_of_absent (absent : s.jobEventsMap.lookup c = none) : s.queue c = [] := by
  rw [queue, absent]
  rfl

/-- A queue is known by its reference and by what is behind it. -/
theorem queue_congr (lookup : t.jobEventsMap.lookup c = s.jobEventsMap.lookup c)
    (lists : ∀ reference, s.jobEventsMap.lookup c = some reference → t.list reference = s.list reference) :
    t.queue c = s.queue c := by
  cases there : s.jobEventsMap.lookup c with
  | none => rw [queue_of_absent there, queue_of_absent (lookup.trans there)]
  | some reference => rw [queue_of_lookup there, queue_of_lookup (lookup.trans there), lists reference there]

theorem isExecutorAlreadyRegister_add (clusterID : Option String) :
    (s.add c event).isExecutorAlreadyRegister clusterID = s.isExecutorAlreadyRegister clusterID := by
  unfold add
  split <;> rfl

/-- An event comes to the end of the queue of its cluster. -/
theorem queue_add (separate : s.Separate out) : (s.add c event).queue c = s.queue c ++ [event] := by
  unfold add
  cases there : s.jobEventsMap.lookup c with
  | none =>
    rw [queue_of_absent there, queue_of_lookup (AList.lookup_insert _)]
    simp [list]
  | some reference =>
    rw [queue_of_lookup there, queue_of_lookup (AList.lookup_insert _)]
    simp [list, List.getElem?_eq_getElem (separate.valid c reference there)]

/-- The other queues are behind other references, so they stay. -/
theorem queue_add_of_ne (separate : s.Separate out) (other : d ≠ c) : (s.add c event).queue d = s.queue d := by
  unfold add
  cases there : s.jobEventsMap.lookup c with
  | none =>
    apply queue_congr (AList.lookup_insert_ne other)
    intro reference its
    have inside := separate.valid d reference its
    simp [list, List.getElem?_append_left inside]
  | some reference =>
    apply queue_congr (AList.lookup_insert_ne other)
    intro reference' its
    have differ : reference ≠ reference' := fun same => other (separate.own d c reference' its (same ▸ there))
    simp [list, differ]

theorem queue_remove (s : Dispatcher E) (c : String) : (s.remove c).queue c = [] :=
  queue_of_absent (AList.lookup_erase ..)

theorem queue_remove_of_ne (other : d ≠ c) : (s.remove c).queue d = s.queue d :=
  queue_congr (AList.lookup_erase_ne other) fun _ _ => rfl

/-- A new list is behind a reference that nobody has. -/
theorem Separate.create (separate : s.Separate out) (absent : s.jobEventsMap.lookup c = none) (events : List E) :
    ({ s with
      lists := s.lists ++ [events]
      jobEventsMap := s.jobEventsMap.insert c s.lists.length } : Dispatcher E).Separate out := by
  -- the new list has a new reference, and every other client keeps its own
  have lookup (d : String) (reference : Nat) (there :
    (s.jobEventsMap.insert c s.lists.length).lookup d = some reference) :
      (d = c ∧ reference = s.lists.length) ∨ (d ≠ c ∧ s.jobEventsMap.lookup d = some reference) := by
    by_cases own : d = c
    · subst own
      rw [AList.lookup_insert] at there
      exact .inl ⟨rfl, (Option.some.inj there).symm⟩
    · rw [AList.lookup_insert_ne own] at there
      exact .inr ⟨own, there⟩
  have size : (s.lists ++ [events]).length = s.lists.length + 1 := by simp
  constructor
  · intro d reference there
    rw [size]
    rcases lookup d reference there with ⟨-, rfl⟩ | ⟨-, before⟩
    · exact Nat.lt_succ_self _
    · exact Nat.lt_succ_of_lt (separate.valid d reference before)
  · intro d reference there
    rcases lookup d reference there with ⟨-, rfl⟩ | ⟨-, before⟩
    · exact fun gone => absurd (separate.past _ gone) (Nat.lt_irrefl _)
    · exact separate.inside d reference before
  -- two clients with one list would share a reference, but the new one is fresh
  · intro d d' reference there there'
    rcases lookup d reference there with ⟨rfl, rfl⟩ | ⟨-, before⟩ <;>
      rcases lookup d' _ there' with ⟨rfl, same⟩ | ⟨-, before'⟩
    · rfl
    · exact absurd (separate.valid d' _ before') (Nat.lt_irrefl _)
    · subst same
      exact absurd (separate.valid d _ before) (Nat.lt_irrefl _)
    · exact separate.own d d' reference before before'
  · intro reference gone
    rw [size]
    exact Nat.lt_succ_of_lt (separate.past reference gone)

/-- The references stay what they are when the lists change. -/
theorem Separate.of_lookup (separate : s.Separate out) (lookup : ∀ d, t.jobEventsMap.lookup d = s.jobEventsMap.lookup d)
    (size : t.lists.length = s.lists.length) : t.Separate out := by
  constructor
  · intro d reference there
    rw [size]
    exact separate.valid d reference ((lookup d).symm.trans there)
  · intro d reference there
    exact separate.inside d reference ((lookup d).symm.trans there)
  · intro d d' reference there there'
    exact separate.own d d' reference ((lookup d).symm.trans there) ((lookup d').symm.trans there')
  · intro reference gone
    rw [size]
    exact separate.past reference gone

theorem Separate.add (separate : s.Separate out) : (s.add c event).Separate out := by
  unfold Dispatcher.add
  cases there : s.jobEventsMap.lookup c with
  | none => exact separate.create there [event]
  | some reference =>
    apply separate.of_lookup
    · intro d
      by_cases own : d = c
      · subst own
        exact (AList.lookup_insert _).trans there.symm
      · exact AList.lookup_insert_ne own
    · exact List.length_modify ..

/-- A list that leaves the map is out of reach. -/
theorem Separate.remove (separate : s.Separate out) (c : String) :
    (s.remove c).Separate (out ++ (s.jobEventsMap.lookup c).toList) := by
  have lookup (d : String) (reference : Nat) (there : (s.jobEventsMap.erase c).lookup d = some reference) :
      d ≠ c ∧ s.jobEventsMap.lookup d = some reference := by
    by_cases own : d = c
    · subst own
      rw [AList.lookup_erase] at there
      cases there
    · exact ⟨own, (AList.lookup_erase_ne own).symm.trans there⟩
  constructor
  · intro d reference there
    exact separate.valid d reference (lookup d reference there).2
  · intro d reference there gone
    obtain ⟨other, before⟩ := lookup d reference there
    rcases List.mem_append.mp gone with already | now
    · exact separate.inside d reference before already
    · exact other (separate.own d c reference before (Option.mem_toList.mp now))
  · intro d d' reference there there'
    exact separate.own d d' reference (lookup d reference there).2 (lookup d' reference there').2
  · intro reference gone
    rcases List.mem_append.mp gone with already | now
    · exact separate.past reference already
    · exact separate.valid c reference (Option.mem_toList.mp now)

end Lists

/-! ### The store of the workflow code -/

/-- The store has the queues themselves in its map. -/
structure Refines (s : Dispatcher JobEvent) (store : Store) : Prop where
  queues : ∀ c, (store.jobEventsMap.lookup c).getD [] = s.queue c
  registered : ∀ c, c ∈ store.executorRegisterDateMap ↔ s.isExecutorAlreadyRegister (some c) = true

namespace Refines

variable {s : Dispatcher JobEvent} {out : List Nat} {store : Store}

theorem doDispatch (refines : s.Refines store) (separate : s.Separate out) (event : JobEvent) :
    (s.doDispatch (fun jobEvent => some jobEvent.executorClusterID) (some event)).Refines
      (after (Store.doDispatch event store)) := by
  change Refines (if s.isExecutorAlreadyRegister
    (some event.executorClusterID) then s.add event.executorClusterID event else s)
    (if event.executorClusterID ∈ store.executorRegisterDateMap then _ else store)
  by_cases registered : event.executorClusterID ∈ store.executorRegisterDateMap
  · rw [if_pos registered, if_pos ((refines.registered _).mp registered)]
    constructor
    · intro c
      dsimp only
      by_cases own : c = event.executorClusterID
      · subst own
        rw [AList.lookup_insert, queue_add separate, ← refines.queues]
        rfl
      · rw [AList.lookup_insert_ne own, queue_add_of_ne separate own, refines.queues]
    · intro c
      rw [isExecutorAlreadyRegister_add]
      exact refines.registered c
  · rw [if_neg registered, if_neg fun there => registered ((refines.registered _).mpr there)]
    exact refines

theorem remove (refines : s.Refines store) (c : String) :
    (s.remove c).Refines { store with jobEventsMap := store.jobEventsMap.erase c } := by
  constructor
  · intro d
    dsimp only
    by_cases own : d = c
    · subst own
      rw [AList.lookup_erase, queue_remove]
      rfl
    · rw [AList.lookup_erase_ne own, refines.queues, queue_remove_of_ne own]
  · exact refines.registered

/-- Both hand out the same events and keep none of them. -/
theorem getJobEventsByExecutorClusterID (refines : s.Refines store) (c : String) :
    ∃ reference t store', s.getJobEventsByExecutorClusterID (some c) = .ok (reference, t) ∧
      Store.getJobEventsByExecutorClusterID c store = .ok ((reference.map s.list).getD []) store' ∧ t.Refines store' :=
  ⟨_, _, _, rfl, congrArg (fun events => EStateM.Result.ok events _) (refines.queues c), refines.remove c⟩

theorem removeJobEventsByExecutorClusterID (refines : s.Refines store) (c : String) :
    ∃ reference t, s.removeJobEventsByExecutorClusterID (some c) = .ok (reference, t) ∧
      t.Refines (after (Store.removeJobEventsByExecutorClusterID c store)) :=
  ⟨_, _, rfl, refines.remove c⟩

end Refines

end Dispatcher

end Hella

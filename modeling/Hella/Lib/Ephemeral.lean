import Mathlib.Data.List.Basic

/-!
# Ephemeral nodes

A linearizable store of nodes that live as long as the session that created them.
Sessions are numbered in the order they are opened. A watch is left on a path by a
session, fires once, and the event then waits to be delivered to its watcher.
-/
namespace Ephemeral

inductive Change where
  | created | dataChanged | deleted
  /-- the session of the watch has expired -/
  | expired
  deriving DecidableEq, Repr

structure Watch (π ω : Type) where
  path : π
  session : Nat
  watcher : ω

structure Event (ω : Type) where
  watcher : ω
  type : Change
  deriving DecidableEq

/-- `owner` is the session an existing node belongs to. -/
structure Registry (π ω : Type) where
  owner : π → Option Nat := fun _ => none
  /-- sessions opened so far -/
  sessions : Nat := 0
  /-- sessions that have ended -/
  ended : List Nat := []
  watches : List (Watch π ω) := []
  events : List (Event ω) := []

namespace Registry

variable {π ω : Type} [DecidableEq π] {z : Registry π ω} {path other : π} {session : Nat}

def Alive (z : Registry π ω) (session : Nat) : Prop := session < z.sessions ∧ session ∉ z.ended

instance (session : Nat) : Decidable (z.Alive session) := inferInstanceAs (Decidable (_ ∧ _))

/-- The watches a predicate selects fire with an event. -/
def fire (z : Registry π ω) (type : Change) (fires : Watch π ω → Bool) : Registry π ω :=
  { z with
    watches := z.watches.filter fun watch => !fires watch
    events := z.events ++ (z.watches.filter fires).map fun watch => ⟨watch.watcher, type⟩ }

/-- A session is opened; its number is the old `sessions`. -/
def connect (z : Registry π ω) : Registry π ω := { z with sessions := z.sessions + 1 }

def watch (z : Registry π ω) (path : π) (session : Nat) (watcher : ω) : Registry π ω :=
  { z with watches := z.watches ++ [⟨path, session, watcher⟩] }

def create (z : Registry π ω) (path : π) (session : Nat) : Registry π ω :=
  { z with owner := fun other => if other = path then some session else z.owner other }.fire .created (·.path = path)

def setData (z : Registry π ω) (path : π) : Registry π ω := z.fire .dataChanged (·.path = path)

def delete (z : Registry π ω) (path : π) : Registry π ω :=
  { z with owner := fun other => if other = path then none else z.owner other }.fire .deleted (·.path = path)

/-- A session ends: its nodes go, and the watches on them fire. -/
def endSession (z : Registry π ω) (session : Nat) : Registry π ω :=
  { z with
    owner := fun path => if z.owner path = some session then none else z.owner path
    ended := session :: z.ended }.fire .deleted fun watch =>
      z.owner watch.path = some session && watch.session != session

/-- A session expires: it ends, and all of its own watches fire. -/
def expire (z : Registry π ω) (session : Nat) : Registry π ω :=
  (z.endSession session).fire .expired (·.session = session)

/-- A session is closed by its client, which drops its watches. -/
def close (z : Registry π ω) (session : Nat) : Registry π ω :=
  { z.endSession session with watches := (z.endSession session).watches.filter (·.session ≠ session) }

theorem owner_create : (z.create path session).owner other = if other = path then some session else z.owner other := rfl

theorem owner_delete : (z.delete path).owner other = if other = path then none else z.owner other := rfl

omit [DecidableEq π] in
theorem owner_expire : (z.expire session).owner path = if z.owner path = some session then none else z.owner path := rfl

omit [DecidableEq π] in
theorem owner_close : (z.close session).owner path = if z.owner path = some session then none else z.owner path := rfl

/-! ### Watches on nodes that exist -/

section Guards

variable {w : Watch π ω} {event : Event ω} {type : Change} {fires : Watch π ω → Bool}

omit [DecidableEq π] in
theorem mem_fire_watches : w ∈ (z.fire type fires).watches ↔ w ∈ z.watches ∧ fires w = false := by
  simp [fire]

omit [DecidableEq π] in
theorem fire_events (pending : event ∈ z.events) : event ∈ (z.fire type fires).events := List.mem_append_left _ pending

omit [DecidableEq π] in
/-- A watch that is selected fires. -/
theorem fire_tells (armed : w ∈ z.watches) (selected : fires w = true) :
    ⟨w.watcher, type⟩ ∈ (z.fire type fires).events := by
  apply List.mem_append_right
  exact List.mem_map.mpr ⟨w, List.mem_filter.mpr ⟨armed, selected⟩, rfl⟩

omit [DecidableEq π] in
/-- A watch of the session itself is not told of its end by `endSession`. -/
theorem mem_endSession_watches : w ∈ (z.endSession session).watches ↔
    w ∈ z.watches ∧ (z.owner w.path = some session → w.session = session) := by
  rw [endSession, mem_fire_watches]
  simp

/-- The node of the watch exists, and the watch has not fired. -/
structure Guards (z : Registry π ω) (w : Watch π ω) : Prop where
  present : z.owner w.path ≠ none
  armed : w ∈ z.watches

omit [DecidableEq π] in
theorem Guards.connect (guards : z.Guards w) : z.connect.Guards w := ⟨guards.present, guards.armed⟩

omit [DecidableEq π] in
theorem Guards.watch (guards : z.Guards w) {watcher : ω} : (z.watch path session watcher).Guards w :=
  ⟨guards.present, List.mem_append_left _ guards.armed⟩

/-- Only a node that does not exist is created. -/
theorem Guards.create (guards : z.Guards w) (free : z.owner path = none) : (z.create path session).Guards w := by
  have elsewhere : w.path ≠ path := by
    rintro rfl
    exact guards.present free
  constructor
  · rw [owner_create, if_neg elsewhere]
    exact guards.present
  · exact mem_fire_watches.mpr ⟨guards.armed, by simpa using elsewhere⟩

theorem Guards.setData (guards : z.Guards w) (elsewhere : w.path ≠ path) : (z.setData path).Guards w :=
  ⟨guards.present, mem_fire_watches.mpr ⟨guards.armed, by simpa using elsewhere⟩⟩

/-- A watch is told when its node is deleted. -/
theorem Guards.delete (guards : z.Guards w) :
    (z.delete path).Guards w ∨ ⟨w.watcher, .deleted⟩ ∈ (z.delete path).events := by
  by_cases here : w.path = path
  · right
    exact fire_tells guards.armed (by simpa using here)
  · left
    constructor
    · rw [owner_delete, if_neg here]
      exact guards.present
    · exact mem_fire_watches.mpr ⟨guards.armed, by simpa using here⟩

omit [DecidableEq π] in
/-- A watch of another session is told when its node ends with a session. -/
theorem Guards.endSession (guards : z.Guards w) (foreign : w.session ≠ session) :
    (z.endSession session).Guards w ∨ ⟨w.watcher, .deleted⟩ ∈ (z.endSession session).events := by
  by_cases owned : z.owner w.path = some session
  · right
    exact fire_tells guards.armed (by simpa using ⟨owned, foreign⟩)
  · left
    constructor
    · change (if z.owner w.path = some session then none else z.owner w.path) ≠ none
      rw [if_neg owned]
      exact guards.present
    · exact mem_endSession_watches.mpr ⟨guards.armed, fun same => absurd same owned⟩

omit [DecidableEq π] in
theorem Guards.close (guards : z.Guards w) (foreign : w.session ≠ session) :
    (z.close session).Guards w ∨ ⟨w.watcher, .deleted⟩ ∈ (z.close session).events := by
  obtain kept | told := guards.endSession foreign
  · exact .inl ⟨kept.present, List.mem_filter.mpr ⟨kept.armed, by simpa using foreign⟩⟩
  · exact .inr told

omit [DecidableEq π] in
theorem Guards.expire (guards : z.Guards w) (foreign : w.session ≠ session) :
    (z.expire session).Guards w ∨ ⟨w.watcher, .deleted⟩ ∈ (z.expire session).events := by
  obtain kept | told := guards.endSession foreign
  · exact .inl ⟨kept.present, mem_fire_watches.mpr ⟨kept.armed, by simpa using foreign⟩⟩
  · exact .inr (fire_events told)

omit [DecidableEq π] in
/-- A watch of the session is told that the session has expired. -/
theorem Guards.expired (guards : z.Guards w) : ⟨w.watcher, .expired⟩ ∈ (z.expire w.session).events := by
  apply fire_tells
  · exact mem_endSession_watches.mpr ⟨guards.armed, fun _ => rfl⟩
  · simp

end Guards

/-! ### Which watchers there are -/

section Only

variable {P : ω → Prop} {type : Change} {fires : Watch π ω → Bool}

/-- All watchers that wait, and all that are told, satisfy the predicate. -/
structure Only (z : Registry π ω) (P : ω → Prop) : Prop where
  watches : ∀ w ∈ z.watches, P w.watcher
  events : ∀ event ∈ z.events, P event.watcher

omit [DecidableEq π] in
theorem Only.mono {Q : ω → Prop} (only : z.Only P) (weaker : ∀ watcher, P watcher → Q watcher) : z.Only Q :=
  ⟨fun w armed => weaker _ (only.watches w armed), fun event pending => weaker _ (only.events event pending)⟩

omit [DecidableEq π] in
theorem Only.fire {owner : π → Option Nat} {ended : List Nat} (only : z.Only P) :
    Only ({ z with owner := owner, ended := ended }.fire type fires) P where
  watches w armed := only.watches w (List.mem_filter.mp armed).1
  events event pending := by
    rcases List.mem_append.mp pending with old | new
    · exact only.events event old
    · obtain ⟨w, selected, rfl⟩ := List.mem_map.mp new
      exact only.watches w (List.mem_filter.mp selected).1

omit [DecidableEq π] in
theorem Only.connect (only : z.Only P) : z.connect.Only P := ⟨only.watches, only.events⟩

omit [DecidableEq π] in
theorem Only.watch {watcher : ω} (only : z.Only P) (new : P watcher) : (z.watch path session watcher).Only P where
  watches w armed := by
    rcases List.mem_append.mp armed with old | last
    · exact only.watches w old
    · obtain rfl := List.mem_singleton.mp last
      exact new
  events := only.events

omit [DecidableEq π] in
theorem Only.expire (only : z.Only P) : (z.expire session).Only P := by
  have ended : (z.endSession session).Only P := only.fire
  exact ended.fire

omit [DecidableEq π] in
theorem Only.close (only : z.Only P) : (z.close session).Only P := by
  have ended : (z.endSession session).Only P := only.fire
  exact ⟨fun w armed => ended.watches w (List.mem_filter.mp armed).1, ended.events⟩

end Only

end Registry

end Ephemeral

import Hella.Control.Inert
import Hella.Control.Steady
import Hella.Engine.Checker
import Hella.Protocol.World

/-!
# What the two calls of an executor do

One lemma for each outcome of `doRegister` and `sendHeartbeat`, and one for a removal
by the checker, over a server with any clusters.
-/
namespace Hella

open Exec

/-- A value of a `long`. -/
def IsLong (n : Int) : Prop := -2 ^ 63 ≤ n ∧ n < 2 ^ 63

instance (n : Int) : Decidable (IsLong n) := inferInstanceAs (Decidable (_ ∧ _))

theorem elapsed_eq {lastSeen latest : Int} (fits : IsLong (lastSeen - latest)) :
    elapsed lastSeen latest = lastSeen - latest := by
  obtain ⟨low, high⟩ := fits
  exact Int.bmod_eq_of_le (by omega) (by omega)

/-- A difference below the `long`s comes out 2^64 larger. -/
theorem elapsed_wraps {lastSeen latest : Int} (seen : IsLong lastSeen) (stored : IsLong latest)
    (below : lastSeen - latest < -2 ^ 63) : elapsed lastSeen latest = lastSeen - latest + 2 ^ 64 := by
  obtain ⟨low, -⟩ := seen
  obtain ⟨-, high⟩ := stored
  have residue : (lastSeen - latest + 2 ^ 64).bmod (2 ^ 64) = (lastSeen - latest).bmod (2 ^ 64) := by
    have := Int.add_bmod_right (lastSeen - latest) (2 ^ 64)
    exact_mod_cast this
  rw [elapsed, ← residue]
  exact Int.bmod_eq_of_le (by omega) (by omega)

namespace EngineNode

variable {env : Env} {heartbeatMaxTimeout lastSeen latest now : Int} {clusterID other : String}
  {reports : List JobProgress} {s : EngineNode}

/-- `executorRegisterDateMap` has the cluster. -/
def Registered (s : EngineNode) (clusterID : String) : Prop := clusterID ∈ s.engine.store.executorRegisterDateMap

/-- The entry of the cluster in `executorsLatestAccessTimeMap`. -/
def access? (s : EngineNode) (clusterID : String) : Option Int := s.executorsLatestAccessTimeMap.lookup clusterID

/-- The access time after a call that the server accepted. -/
def accessed (s : EngineNode) (clusterID : String) (time : Int) : EngineNode :=
  { s with executorsLatestAccessTimeMap := s.executorsLatestAccessTimeMap.insert clusterID time }

@[simp] theorem accessed_engine (time : Int) : (s.accessed clusterID time).engine = s.engine := rfl

@[simp] theorem access?_accessed (time : Int) : (s.accessed clusterID time).access? clusterID = some time :=
  AList.lookup_insert _

theorem access?_accessed_ne (ne : other ≠ clusterID) (time : Int) :
    (s.accessed clusterID time).access? other = s.access? other := AList.lookup_insert_ne ne

@[simp] theorem access?_unregistered : (s.unregistered clusterID).access? other = s.access? other := rfl

theorem registered_unregistered : (s.unregistered clusterID).Registered other ↔
    s.Registered other ∧ other ≠ clusterID := by
  simp [Registered, unregistered]

/-! ### `doRegister` -/

theorem doRegister_refused (already : s.Registered clusterID) : doRegister clusterID now s = .ok none s := by
  have listed : s.isExecutorAlreadyRegister clusterID = true := List.contains_iff_mem.mpr already
  rw [doRegister, bind_apply, get_apply]
  simp only [listed, if_true, pure_apply]

/-- The server after an accepted registration. -/
def registered (s : EngineNode) (clusterID : String) (now : Int) : EngineNode :=
  after (onEngine (Engine.onShared (storeExecutorRegisterDate clusterID)) (s.accessed clusterID now))

theorem doRegister_accepted (fresh : ¬ s.Registered clusterID) :
    doRegister clusterID now s = .ok (some ()) (s.registered clusterID now) := by
  have unlisted : s.isExecutorAlreadyRegister clusterID = false := by
    cases same : s.isExecutorAlreadyRegister clusterID with
    | false => rfl
    | true => exact (fresh (List.contains_iff_mem.mp same)).elim
  rw [doRegister, bind_apply, get_apply]
  simp only [unlisted, Bool.false_eq_true, if_false]
  rfl

@[simp] theorem access?_registered : (s.registered clusterID now).access? other =
    (s.accessed clusterID now).access? other :=
  rfl

theorem registered_registered (fresh : ¬ s.Registered clusterID) :
    (s.registered clusterID now).Registered other ↔ other = clusterID ∨ s.Registered other := by
  -- the list has no entry that the erasure could take
  have unchanged : s.engine.store.executorRegisterDateMap.erase clusterID = s.engine.store.executorRegisterDateMap :=
    List.erase_of_not_mem fresh
  change other ∈ clusterID :: s.engine.store.executorRegisterDateMap.erase clusterID ↔ _
  rw [unchanged, List.mem_cons]
  rfl

/-! ### `sendHeartbeat` -/

theorem sendHeartbeat_unregister (unknown : s.access? clusterID = none) :
    sendHeartbeat env heartbeatMaxTimeout clusterID reports lastSeen s = .ok { executorStatus := .unregister } s := by
  rw [sendHeartbeat, bind_apply, get_apply]
  dsimp only
  rw [show s.executorsLatestAccessTimeMap.lookup clusterID = none from unknown]
  rfl

theorem sendHeartbeat_timeout (found : s.access? clusterID = some latest)
    (late : elapsed lastSeen latest > heartbeatMaxTimeout) :
    sendHeartbeat env heartbeatMaxTimeout clusterID reports lastSeen s =
      .ok { executorStatus := .heartbeatTimeout } (s.unregistered clusterID) := by
  rw [sendHeartbeat, bind_apply, get_apply]
  dsimp only
  rw [show s.executorsLatestAccessTimeMap.lookup clusterID = some latest from found]
  dsimp only
  rw [if_pos late]
  rfl

/-- The heartbeat is accepted: its reports are handled and the answer takes the queue. -/
theorem sendHeartbeat_normal (found : s.access? clusterID = some latest)
    (inTime : elapsed lastSeen latest ≤ heartbeatMaxTimeout) :
    sendHeartbeat env heartbeatMaxTimeout clusterID reports lastSeen s =
      match Engine.processJobProgress env clusterID reports s.engine with
      | .ok () e => .ok { executorStatus := .normal, jobEvents := e.queued clusterID }
          (taken { s.accessed clusterID lastSeen with engine := e } clusterID)
      | .error thrown e => .error thrown { s.accessed clusterID lastSeen with engine := e } := by
  have notLate : ¬ elapsed lastSeen latest > heartbeatMaxTimeout := Int.not_lt.mpr inTime
  rw [sendHeartbeat, bind_apply, get_apply]
  dsimp only
  rw [show s.executorsLatestAccessTimeMap.lookup clusterID = some latest from found]
  simp only [if_neg notLate, bind_apply, modify_apply, onEngine, zoom]
  cases Engine.processJobProgress env clusterID reports s.engine <;> rfl

/-- Nothing but an error of the virtual machine leaves the handling of the reports. -/
theorem processJobProgress_throws {thrown : Throwable} {e t : Engine}
    (failed : Engine.processJobProgress env clusterID reports e = .error thrown t) : thrown = .stackOverflowError := by
  have guarded : Guarded (fun _ : Engine => True) (fun thrown => thrown.isException = false)
      (Engine.processJobProgress env clusterID reports) := by
    apply Guarded.forM
    intro report _
    apply Guarded.catching (A := fun _ => True)
    · exact Triple.trivial.conseq (fun _ _ => trivial) (fun _ _ _ => trivial) fun _ _ _ => ⟨trivial, trivial⟩
    · exact fun _ _ => Guarded.pure _
    · exact fun _ _ outside => outside
  have outside := (guarded.error trivial failed).2
  cases thrown <;> first | rfl | cases outside

/-- Handling reports registers and unregisters nobody. -/
theorem processJobProgress_registers (env : Env) (clusterID : String) (reports : List JobProgress) (e : Engine) :
    (after (Engine.processJobProgress env clusterID reports e)).store.executorRegisterDateMap =
      e.store.executorRegisterDateMap := by
  have steady : Engine.Steady env fun t => t.store.executorRegisterDateMap = e.store.executorRegisterDateMap := by
    apply Engine.steady_of_store (P := fun t => t.executorRegisterDateMap = e.store.executorRegisterDateMap)
    intro s t change same
    rw [← same]
    cases change with
    | writes write => cases write <;> rfl
    | notices noticed => rw [noticed.rest]
    | _ => rfl
  exact (steady.lasting.enduring.processJobProgress clusterID reports).after rfl

/-! ### The checker -/

/-- The server after the three removals for a cluster. -/
def removed (s : EngineNode) (clusterID : String) : EngineNode := after (removeExecutor clusterID s)

theorem removeExecutor_apply (clusterID : String) (s : EngineNode) :
    removeExecutor clusterID s = .ok () (s.removed clusterID) := rfl

theorem access?_removed_self : (s.removed clusterID).access? clusterID = none := AList.lookup_erase _ _

theorem access?_removed_ne (ne : other ≠ clusterID) : (s.removed clusterID).access? other = s.access? other :=
  AList.lookup_erase_ne ne

theorem registered_removed : (s.removed clusterID).Registered other ↔ s.Registered other ∧ other ≠ clusterID := by
  change other ∈ List.filter _ _ ↔ _
  simp [Registered]

theorem queued_removed_self : (s.removed clusterID).engine.queued clusterID = [] := by
  change ((s.engine.store.jobEventsMap.erase clusterID).lookup clusterID).getD [] = []
  rw [AList.lookup_erase]
  rfl

theorem queued_removed_ne (ne : other ≠ clusterID) :
    (s.removed clusterID).engine.queued other = s.engine.queued other := by
  change ((s.engine.store.jobEventsMap.erase clusterID).lookup other).getD [] = _
  rw [AList.lookup_erase_ne ne]
  rfl

end EngineNode

end Hella

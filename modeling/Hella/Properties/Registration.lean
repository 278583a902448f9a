import Hella.Protocol.Calls

/-!
# Registration never locks an executor out

The registration of a cluster is in two maps of two classes. A registered cluster
always has an access time, so that the answer to its next heartbeat is decided by the
timestamps, and an executor that is told to register again can do so. The timestamps
are subtracted as `long`s: a stamp that is 2^63 or more before the access time counts
as a late one.
-/
namespace Hella

open Exec Runs

namespace EngineNode

/-- What happens to the server. The checker removes one cluster after another. -/
inductive ServerAction where
  | doRegister (clusterID : String) (now : Int)
  | sendHeartbeat (clusterID : String) (progressList : List JobProgress) (lastSeen : Int)
  | removeExecutor (clusterID : String)
  | work (e : Engine)

/-- The managers, which run besides, do not touch the registrations. -/
inductive ServerStep (env : Env) (heartbeatMaxTimeout : Int) : EngineNode → ServerAction → EngineNode → Prop where
  | registers {s clusterID now} :
    ServerStep env heartbeatMaxTimeout s (.doRegister clusterID now) (after (doRegister clusterID now s))
  | beats {s clusterID progressList lastSeen} :
    ServerStep env heartbeatMaxTimeout s (.sendHeartbeat clusterID progressList lastSeen)
      (after (sendHeartbeat env heartbeatMaxTimeout clusterID progressList lastSeen s))
  | removes {s clusterID} :
    ServerStep env heartbeatMaxTimeout s (.removeExecutor clusterID) (after (removeExecutor clusterID s))
  | works {s} {e : Engine} (same : e.store.executorRegisterDateMap = s.engine.store.executorRegisterDateMap) :
    ServerStep env heartbeatMaxTimeout s (.work e) { s with engine := e }

/-- Clocks and executors give `long`s. -/
def ServerAction.Stamped : ServerAction → Prop
  | doRegister _ now => IsLong now
  | sendHeartbeat _ _ lastSeen => IsLong lastSeen
  | _ => True

/-- The runs of the server from the states described. -/
def serverSystem (env : Env) (heartbeatMaxTimeout : Int) (initial : EngineNode → Prop) :
    System EngineNode ServerAction :=
  ⟨initial, ServerStep env heartbeatMaxTimeout⟩

/-- A server that nobody has called yet. -/
def Fresh (s : EngineNode) : Prop :=
  s.executorsLatestAccessTimeMap = ∅ ∧ s.engine.store.executorRegisterDateMap = []

/-- The access times are `long`s. -/
def Timed (s : EngineNode) : Prop := ∀ clusterID latest, s.access? clusterID = some latest → IsLong latest

/-- Every registered cluster has an access time. -/
def Known (s : EngineNode) : Prop := ∀ clusterID, s.Registered clusterID → (s.access? clusterID).isSome = true

variable {env : Env} {heartbeatMaxTimeout lastSeen latest now : Int} {clusterID other : String}
  {reports : List JobProgress} {s t u : EngineNode} {a : ServerAction}

/-! ### One step -/

theorem registered_doRegister :
    (after (doRegister clusterID now s)).Registered other ↔ other = clusterID ∨ s.Registered other := by
  by_cases already : s.Registered clusterID
  · rw [doRegister_refused already, after_ok]
    constructor
    · exact .inr
    · rintro (rfl | listed)
      · exact already
      · exact listed
  · rw [doRegister_accepted already, after_ok]
    exact registered_registered already

/-- An accepted registration writes the access time of its own cluster only. -/
theorem access?_doRegister_ne (ne : other ≠ clusterID) :
    (after (doRegister clusterID now s)).access? other = s.access? other := by
  by_cases already : s.Registered clusterID
  · rw [doRegister_refused already, after_ok]
  · rw [doRegister_accepted already, after_ok]
    exact access?_accessed_ne ne now

/-- What a heartbeat does to the two maps. -/
inductive HeartbeatEffect (s : EngineNode) (clusterID : String) (lastSeen : Int) (t : EngineNode) : Prop
  | unknown (same : t = s)
  | late (same : t = s.unregistered clusterID)
  | accepted (known : (s.access? clusterID).isSome = true)
      (map : t.executorsLatestAccessTimeMap = (s.accessed clusterID lastSeen).executorsLatestAccessTimeMap)
      (registers : t.engine.store.executorRegisterDateMap = s.engine.store.executorRegisterDateMap)

theorem sendHeartbeat_effect (env : Env) (heartbeatMaxTimeout : Int) (clusterID : String) (reports : List JobProgress)
    (lastSeen : Int) (s : EngineNode) :
    HeartbeatEffect s clusterID lastSeen
      (after (sendHeartbeat env heartbeatMaxTimeout clusterID reports lastSeen s)) := by
  cases found : s.access? clusterID with
  | none => exact .unknown (by rw [sendHeartbeat_unregister found, after_ok])
  | some latest =>
    by_cases late : elapsed lastSeen latest > heartbeatMaxTimeout
    · exact .late (by rw [sendHeartbeat_timeout found late, after_ok])
    · have registers := processJobProgress_registers env clusterID reports s.engine
      rw [sendHeartbeat_normal found (Int.not_lt.mp late)]
      cases handled : Engine.processJobProgress env clusterID reports s.engine with
      | ok answer e =>
        rw [handled] at registers
        exact .accepted (by simp [found]) rfl registers
      | error thrown e =>
        rw [handled] at registers
        exact .accepted (by simp [found]) rfl registers

theorem HeartbeatEffect.access?_isSome (effect : HeartbeatEffect s clusterID lastSeen t)
    (known : (s.access? other).isSome = true) : (t.access? other).isSome = true := by
  cases effect with
  | unknown same => rwa [same]
  | late same => rwa [same, access?_unregistered]
  | accepted _ map _ =>
    rw [access?, map]
    change ((s.accessed clusterID lastSeen).access? other).isSome = true
    by_cases same : other = clusterID
    · rw [same, access?_accessed]
      rfl
    · rwa [access?_accessed_ne same]

theorem HeartbeatEffect.registered (effect : HeartbeatEffect s clusterID lastSeen t) (listed : t.Registered other) :
    s.Registered other := by
  cases effect with
  | unknown same => rwa [same] at listed
  | late same =>
    rw [same] at listed
    exact (registered_unregistered.mp listed).1
  | accepted _ _ registers =>
    unfold Registered at listed
    rwa [registers] at listed

/-- Only the checker takes the access time of a cluster away. -/
theorem ServerStep.access?_isSome (step : ServerStep env heartbeatMaxTimeout s a t)
    (stays : a ≠ .removeExecutor other) (known : (s.access? other).isSome = true) :
    (t.access? other).isSome = true := by
  cases step with
  | @registers clusterID now =>
    by_cases same : other = clusterID
    · subst same
      by_cases already : s.Registered other
      · rwa [doRegister_refused already, after_ok]
      · rw [doRegister_accepted already, after_ok, access?_registered, access?_accessed]
        rfl
    · rwa [access?_doRegister_ne same]
  | beats => exact (sendHeartbeat_effect _ _ _ _ _ _).access?_isSome known
  | @removes clusterID =>
    have ne : other ≠ clusterID := fun same => stays (by rw [same])
    rw [removeExecutor_apply, after_ok, access?_removed_ne ne]
    exact known
  | works => exact known

theorem ServerStep.known (step : ServerStep env heartbeatMaxTimeout s a t) (known : s.Known) : t.Known := by
  intro clusterID listed
  cases step with
  | @registers registering now =>
    by_cases same : clusterID = registering
    · subst same
      by_cases already : s.Registered clusterID
      · rw [doRegister_refused already, after_ok]
        exact known clusterID already
      · -- an accepted registration writes both maps
        rw [doRegister_accepted already, after_ok, access?_registered, access?_accessed]
        rfl
    · rw [access?_doRegister_ne same]
      exact known clusterID ((registered_doRegister.mp listed).resolve_left same)
  | beats =>
    have effect := sendHeartbeat_effect env heartbeatMaxTimeout ‹_› ‹_› ‹_› s
    exact effect.access?_isSome (known clusterID (effect.registered listed))
  | @removes removing =>
    -- a removed cluster is registered in neither sense
    rw [removeExecutor_apply, after_ok] at listed ⊢
    obtain ⟨before, ne⟩ := registered_removed.mp listed
    rw [access?_removed_ne ne]
    exact known clusterID before
  | works same =>
    unfold Registered at listed
    rw [same] at listed
    exact known clusterID listed

theorem Timed.accessed (timed : s.Timed) (stamp : IsLong now) : (s.accessed clusterID now).Timed := by
  intro other latest found
  by_cases same : other = clusterID
  · rw [same, access?_accessed] at found
    exact Option.some.inj found ▸ stamp
  · rw [access?_accessed_ne same] at found
    exact timed other latest found

/-- The access times come from the stamps. -/
theorem ServerStep.timed (step : ServerStep env heartbeatMaxTimeout s a t) (stamped : a.Stamped) (timed : s.Timed) :
    t.Timed := by
  cases step with
  | @registers clusterID now =>
    by_cases already : s.Registered clusterID
    · rwa [doRegister_refused already, after_ok]
    · rw [doRegister_accepted already, after_ok]
      exact Timed.accessed timed stamped
  | @beats clusterID progressList lastSeen =>
    cases sendHeartbeat_effect env heartbeatMaxTimeout clusterID progressList lastSeen s with
    | unknown same => rwa [same]
    | late same => rwa [same]
    | accepted _ map _ =>
      unfold Timed access?
      rw [map]
      exact Timed.accessed timed stamped
  | @removes clusterID =>
    rw [removeExecutor_apply, after_ok]
    intro other latest found
    by_cases same : other = clusterID
    · rw [same, access?_removed_self] at found
      cases found
    · rw [access?_removed_ne same] at found
      exact timed other latest found
  | works => exact timed

/-! ### Whole runs -/

theorem known_of_reachable {guard : EngineNode → ServerAction → Prop}
    (reachable : Reachable (serverSystem env heartbeatMaxTimeout Fresh) guard s) : s.Known := by
  apply Reachable.invariant (I := Known) _ _ reachable
  · rintro s ⟨-, none⟩ clusterID listed
    rw [Registered, none] at listed
    cases listed
  · intro s a t known _ step
    exact step.known known

theorem timed_of_reachable
    (reachable : Reachable (serverSystem env heartbeatMaxTimeout Fresh) (fun _ a => a.Stamped) s) : s.Timed := by
  apply Reachable.invariant (I := Timed) _ _ reachable
  · rintro s ⟨none, -⟩ clusterID latest found
    rw [access?, none] at found
    cases found
  · intro s a t timed stamped step
    exact step.timed stamped timed

/-- The server after some calls, in which the checker did not remove the cluster. -/
def Later (env : Env) (heartbeatMaxTimeout : Int) (clusterID : String) (s t : EngineNode) : Prop :=
  Reachable (serverSystem env heartbeatMaxTimeout (· = s))
    (fun _ a => a.Stamped ∧ a ≠ .removeExecutor clusterID) t

theorem Later.access?_isSome (later : Later env heartbeatMaxTimeout clusterID s t)
    (known : (s.access? clusterID).isSome = true) : (t.access? clusterID).isSome = true := by
  apply Reachable.invariant (I := fun t => (t.access? clusterID).isSome = true) _ _ later
  · rintro t rfl
    exact known
  · intro s a t inside stays step
    exact step.access?_isSome stays.2 inside

theorem Later.timed (later : Later env heartbeatMaxTimeout clusterID s t) (timed : s.Timed) : t.Timed := by
  apply Reachable.invariant (I := Timed) _ _ later
  · rintro t rfl
    exact timed
  · intro s a t inside stays step
    exact step.timed stays.1 inside

/-- A refused heartbeat leaves the cluster unregistered. -/
theorem unregistered_of_refusal {answer : HeartbeatResponse} (known : s.Known)
    (served : sendHeartbeat env heartbeatMaxTimeout clusterID reports lastSeen s = .ok answer t)
    (refusal : answer.executorStatus ≠ .normal) : ¬ t.Registered clusterID := by
  intro listed
  cases found : s.access? clusterID with
  | none =>
    -- without an access time there is no registration
    rw [sendHeartbeat_unregister found] at served
    cases served
    have entry := known clusterID listed
    rw [found] at entry
    cases entry
  | some latest =>
    by_cases late : elapsed lastSeen latest > heartbeatMaxTimeout
    · rw [sendHeartbeat_timeout found late] at served
      cases served
      exact (registered_unregistered.mp listed).2 rfl
    · rw [sendHeartbeat_normal found (Int.not_lt.mp late)] at served
      split at served <;> cases served
      exact refusal rfl

/-- The heartbeat is answered EXECUTOR_NORMAL: its timestamp is the new access time, its
reports are handled and the answer carries the queue. Only an error of the virtual machine
in the handling can take the answer away. -/
structure Processed (env : Env) (heartbeatMaxTimeout : Int) (clusterID : String) (reports : List JobProgress)
    (lastSeen : Int) (s : EngineNode) : Prop where
  answered : ∀ e, Engine.processJobProgress env clusterID reports s.engine = .ok () e →
    sendHeartbeat env heartbeatMaxTimeout clusterID reports lastSeen s =
      .ok { executorStatus := .normal, jobEvents := e.queued clusterID }
        (taken { s.accessed clusterID lastSeen with engine := e } clusterID)
  broken : ∀ thrown e, Engine.processJobProgress env clusterID reports s.engine = .error thrown e →
    sendHeartbeat env heartbeatMaxTimeout clusterID reports lastSeen s =
      .error thrown { s.accessed clusterID lastSeen with engine := e }
  thrown : ∀ error t, sendHeartbeat env heartbeatMaxTimeout clusterID reports lastSeen s = .error error t →
    error = .stackOverflowError

theorem processed_of_inTime (found : s.access? clusterID = some latest)
    (inTime : elapsed lastSeen latest ≤ heartbeatMaxTimeout) :
    Processed env heartbeatMaxTimeout clusterID reports lastSeen s := by
  refine ⟨fun e handled => ?_, fun thrown e handled => ?_, fun error t failed => ?_⟩
  · rw [sendHeartbeat_normal found inTime, handled]
  · rw [sendHeartbeat_normal found inTime, handled]
  · rw [sendHeartbeat_normal found inTime] at failed
    split at failed
    · cases failed
    next handled =>
      cases failed
      exact processJobProgress_throws handled

/-- A heartbeat that counts as late is answered with a timeout, whatever its reports. -/
theorem not_processed_of_late (found : s.access? clusterID = some latest)
    (late : elapsed lastSeen latest > heartbeatMaxTimeout) :
    ¬ Processed env heartbeatMaxTimeout clusterID reports lastSeen s := by
  intro processed
  have timeout : sendHeartbeat env heartbeatMaxTimeout clusterID reports lastSeen s = _ :=
    sendHeartbeat_timeout found late
  cases handled : Engine.processJobProgress env clusterID reports s.engine with
  | ok _ e => cases timeout.symm.trans (processed.answered e handled)
  | error thrown e => cases timeout.symm.trans (processed.broken thrown e handled)

theorem processed_iff (found : s.access? clusterID = some latest) :
    Processed env heartbeatMaxTimeout clusterID reports lastSeen s ↔ elapsed lastSeen latest ≤ heartbeatMaxTimeout :=
  ⟨fun processed => Int.not_lt.mp fun late => not_processed_of_late found late processed, processed_of_inTime found⟩

/-- The stamp is not so far before the access time that the difference comes out as more
than the longest timeout. -/
def Near (heartbeatMaxTimeout lastSeen latest : Int) : Prop :=
  -2 ^ 63 ≤ lastSeen - latest ∨ lastSeen - latest + 2 ^ 64 ≤ heartbeatMaxTimeout

theorem elapsed_le_iff_near (seen : IsLong lastSeen) (stored : IsLong latest)
    (inTime : lastSeen - latest ≤ heartbeatMaxTimeout) :
    elapsed lastSeen latest ≤ heartbeatMaxTimeout ↔ Near heartbeatMaxTimeout lastSeen latest := by
  unfold Near
  by_cases low : -2 ^ 63 ≤ lastSeen - latest
  · refine iff_of_true ?_ (.inl low)
    by_cases high : lastSeen - latest < 2 ^ 63
    · rwa [elapsed_eq ⟨low, high⟩]
    · have bound : elapsed lastSeen latest < (2 ^ 64 + 1) / 2 := Int.bmod_lt (by decide)
      omega
  · rw [elapsed_wraps seen stored (Int.not_le.mp low), or_iff_right low]

/-- When registration locks no executor out. In every reachable state a registered cluster
has an access time. An executor that is refused can register at once, and from then on,
until the checker removes it, it has an access time. A heartbeat in time is processed
exactly if its stamp is near that time. -/
theorem registration_never_locks_out
    (reachable : Reachable (serverSystem env heartbeatMaxTimeout Fresh) (fun _ a => a.Stamped) s) :
    s.Known ∧
      ∀ clusterID reports lastSeen answer t,
        sendHeartbeat env heartbeatMaxTimeout clusterID reports lastSeen s = .ok answer t → IsLong lastSeen →
        answer.executorStatus ≠ .normal →
        ∀ now, IsLong now → ∃ u, doRegister clusterID now t = .ok (some ()) u ∧ u.access? clusterID = some now ∧
          ∀ v, Later env heartbeatMaxTimeout clusterID u v → ∃ latest, v.access? clusterID = some latest ∧
            ∀ reports lastSeen, IsLong lastSeen → lastSeen - latest ≤ heartbeatMaxTimeout →
              (Processed env heartbeatMaxTimeout clusterID reports lastSeen v ↔
                Near heartbeatMaxTimeout lastSeen latest) := by
  have known := known_of_reachable reachable
  constructor
  · exact known
  · intro clusterID reports lastSeen answer t served stamp refusal now clock
    have unlisted : ¬ t.Registered clusterID := unregistered_of_refusal known served refusal
    have written : (t.registered clusterID now).access? clusterID = some now := by
      rw [access?_registered, access?_accessed]
    have timed : (t.registered clusterID now).Timed := by
      have beats : ServerStep env heartbeatMaxTimeout s (.sendHeartbeat clusterID reports lastSeen) t := by
        have step := @ServerStep.beats env heartbeatMaxTimeout s clusterID reports lastSeen
        rwa [served, after_ok] at step
      exact Timed.accessed (beats.timed stamp (timed_of_reachable reachable)) clock
    refine ⟨t.registered clusterID now, doRegister_accepted unlisted, written, fun v later => ?_⟩
    have entry := later.access?_isSome (by rw [written]; rfl)
    obtain ⟨latest, found⟩ := Option.isSome_iff_exists.mp entry
    refine ⟨latest, found, fun reports lastSeen seen inTime => ?_⟩
    rw [processed_iff found, elapsed_le_iff_near seen (later.timed timed clusterID latest found) inTime]

/-- A first heartbeat is answered EXECUTOR_UNREGISTER; the executor registers, and its next
heartbeat is processed. -/
theorem registration_never_locks_out_fresh :
    sendHeartbeat Env.calm 300000 "c" [] 7 {} = .ok { executorStatus := .unregister } {} ∧
      ∃ u, doRegister "c" 10 {} = .ok (some ()) u ∧ Processed Env.calm 300000 "c" [] 20 u := by
  have start : Reachable (serverSystem Env.calm 300000 Fresh) (fun _ a => a.Stamped) ({} : EngineNode) :=
    .start ⟨rfl, rfl⟩
  have refused : sendHeartbeat Env.calm 300000 "c" [] 7 {} = .ok { executorStatus := .unregister } {} :=
    sendHeartbeat_unregister rfl
  obtain ⟨u, accepted, written, onwards⟩ :=
    (registration_never_locks_out start).2 "c" [] 7 _ _ refused (by decide) (by simp) 10 (by decide)
  obtain ⟨latest, found, inTime⟩ := onwards u (.start rfl)
  -- the access time is the one that was written
  have same : latest = 10 := by simpa [written] using found.symm
  subst same
  exact ⟨refused, u, accepted, (inTime [] 20 (by decide) (by decide)).mpr (.inl (by decide))⟩

/-- The executor is refused, it registers, and a stamp long before its registration is answered
with a timeout. -/
theorem earlyStamp_times_out :
    sendHeartbeat Env.calm 300000 "c" [] 7 {} = .ok { executorStatus := .unregister } {} ∧
    ∃ u, doRegister "c" 10 {} = .ok (some ()) u ∧ u.access? "c" = some 10 ∧ (-2 ^ 63 : Int) - 10 ≤ 300000 ∧
      sendHeartbeat Env.calm 300000 "c" [] (-2 ^ 63) u =
        .ok { executorStatus := .heartbeatTimeout } (u.unregistered "c") ∧
      ¬ Processed Env.calm 300000 "c" [] (-2 ^ 63) u := by
  have fresh : ¬ ({} : EngineNode).Registered "c" := List.not_mem_nil
  have written : (({} : EngineNode).registered "c" 10).access? "c" = some 10 := by
    rw [access?_registered, access?_accessed]
  have late : elapsed (-2 ^ 63) 10 > 300000 := by decide
  exact ⟨sendHeartbeat_unregister rfl, _, doRegister_accepted fresh, written, by decide,
    sendHeartbeat_timeout written late, not_processed_of_late written late⟩

end EngineNode

end Hella

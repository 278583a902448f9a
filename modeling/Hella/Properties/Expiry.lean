import Hella.Protocol.Calls

/-!
# Which executors the checker removes

A walk compares each access time itself with the longest time without access, and no
walk takes place: the checker ends with its first test, because nothing ever sets
`isRunning`.
-/
namespace Hella

open Exec Runs Relation

namespace EngineNode

variable {executorDownExpireTime now : Int} {clusterID : String} {s : EngineNode}

/-! ### One walk over the map -/

/-- One turn of the walk. -/
def checkEntry (executorDownExpireTime : Int) (me : Sigma fun _ : String => Int) (s : EngineNode) : EngineNode :=
  if me.2 > executorDownExpireTime then s.removed me.1 else s

theorem checkEntries_apply (entries : List (Sigma fun _ : String => Int)) (s : EngineNode) :
    (entries.forM fun me => if me.2 > executorDownExpireTime then removeExecutor me.1 else pure () :
      ServerM Unit) s = .ok () (entries.foldl (fun s me => checkEntry executorDownExpireTime me s) s) := by
  induction entries generalizing s with
  | nil => rfl
  | cons me entries ih =>
    change ((if me.2 > executorDownExpireTime then removeExecutor me.1 else pure ()) >>= fun _ =>
      entries.forM fun me => if me.2 > executorDownExpireTime then removeExecutor me.1 else pure ()) s = _
    rw [List.foldl_cons, ← ih]
    unfold checkEntry
    split
    · exact bind_ok (removeExecutor_apply me.1 s)
    · exact bind_ok (pure_apply () s)

/-- The server after a walk. -/
def checked (executorDownExpireTime : Int) (s : EngineNode) : EngineNode :=
  after (checkExecutors executorDownExpireTime s)

theorem checked_eq : checked executorDownExpireTime s =
    s.executorsLatestAccessTimeMap.entries.foldl (fun s me => checkEntry executorDownExpireTime me s) s := by
  rw [checked, checkExecutors, bind_apply, get_apply]
  dsimp only
  rw [checkEntries_apply, after_ok]

/-- The walk comes to an entry of the cluster that it takes for dead. -/
def Removes (executorDownExpireTime : Int) (entries : List (Sigma fun _ : String => Int)) (clusterID : String) : Prop :=
  ∃ me ∈ entries, me.1 = clusterID ∧ me.2 > executorDownExpireTime

/-- What the server stores of a cluster. -/
structure Forgotten (s : EngineNode) (clusterID : String) : Prop where
  access : s.access? clusterID = none
  queue : s.engine.queued clusterID = []
  registration : ¬ s.Registered clusterID

structure Kept (s t : EngineNode) (clusterID : String) : Prop where
  access : t.access? clusterID = s.access? clusterID
  queue : t.engine.queued clusterID = s.engine.queued clusterID
  registration : t.Registered clusterID ↔ s.Registered clusterID

theorem forgotten_removed (s : EngineNode) (clusterID : String) : (s.removed clusterID).Forgotten clusterID where
  access := access?_removed_self
  queue := queued_removed_self
  registration listed := (registered_removed.mp listed).2 rfl

theorem kept_removed {other : String} (ne : clusterID ≠ other) : Kept s (s.removed other) clusterID where
  access := access?_removed_ne ne
  queue := queued_removed_ne ne
  registration := by rw [registered_removed, and_iff_left ne]

theorem Kept.trans {t u : EngineNode} (first : Kept s t clusterID) (second : Kept t u clusterID) :
    Kept s u clusterID where
  access := second.access.trans first.access
  queue := second.queue.trans first.queue
  registration := second.registration.trans first.registration

theorem Kept.forgotten {t : EngineNode} (kept : Kept s t clusterID) (gone : s.Forgotten clusterID) :
    t.Forgotten clusterID where
  access := kept.access.trans gone.access
  queue := kept.queue.trans gone.queue
  registration listed := gone.registration (kept.registration.mp listed)

theorem kept_checkEntry {me : Sigma fun _ : String => Int}
    (stays : ¬ (me.1 = clusterID ∧ me.2 > executorDownExpireTime)) :
    Kept s (checkEntry executorDownExpireTime me s) clusterID := by
  unfold checkEntry
  split
  next dead => exact kept_removed fun same => stays ⟨same.symm, dead⟩
  · exact ⟨rfl, rfl, Iff.rfl⟩

theorem forgotten_checkEntry {me : Sigma fun _ : String => Int} (gone : s.Forgotten clusterID) :
    (checkEntry executorDownExpireTime me s).Forgotten clusterID := by
  by_cases again : me.1 = clusterID ∧ me.2 > executorDownExpireTime
  · rw [checkEntry, if_pos again.2, again.1]
    exact forgotten_removed s clusterID
  · exact (kept_checkEntry again).forgotten gone

/-- A cluster without a dead entry is left alone. -/
theorem kept_walk {entries : List (Sigma fun _ : String => Int)}
    (stays : ¬ Removes executorDownExpireTime entries clusterID) (s : EngineNode) :
    Kept s (entries.foldl (fun s me => checkEntry executorDownExpireTime me s) s) clusterID := by
  induction entries generalizing s with
  | nil => exact ⟨rfl, rfl, Iff.rfl⟩
  | cons me entries ih =>
    rw [List.foldl_cons]
    apply Kept.trans (kept_checkEntry fun dead => stays ⟨me, by simp, dead⟩)
    exact ih (fun ⟨other, member, dead⟩ => stays ⟨other, by simp [member], dead⟩) _

/-- A cluster with a dead entry is forgotten, and nothing brings it back. -/
theorem forgotten_walk {entries : List (Sigma fun _ : String => Int)} {s : EngineNode}
    (removes : s.Forgotten clusterID ∨ Removes executorDownExpireTime entries clusterID) :
    (entries.foldl (fun s me => checkEntry executorDownExpireTime me s) s).Forgotten clusterID := by
  induction entries generalizing s with
  | nil => exact removes.resolve_right fun ⟨_, member, _⟩ => by cases member
  | cons me entries ih =>
    rw [List.foldl_cons]
    apply ih
    rcases removes with gone | ⟨dead, member, same, expired⟩
    · exact .inl (forgotten_checkEntry gone)
    · rcases List.mem_cons.mp member with rfl | later
      · left
        rw [checkEntry, if_pos expired, same]
        exact forgotten_removed s clusterID
      · exact .inr ⟨dead, later, same, expired⟩

theorem removes_iff : Removes executorDownExpireTime s.executorsLatestAccessTimeMap.entries clusterID ↔
    ∃ latest, s.access? clusterID = some latest ∧ latest > executorDownExpireTime := by
  constructor
  · rintro ⟨⟨_, latest⟩, member, rfl, expired⟩
    exact ⟨latest, AList.mem_lookup_iff.mpr member, expired⟩
  · rintro ⟨latest, found, expired⟩
    exact ⟨⟨clusterID, latest⟩, AList.mem_lookup_iff.mp found, rfl, expired⟩

/-- The walk forgets the clusters whose access time, read as a duration, is too long. -/
theorem forgotten_checked {latest : Int} (found : s.access? clusterID = some latest)
    (expired : latest > executorDownExpireTime) : (checked executorDownExpireTime s).Forgotten clusterID := by
  rw [checked_eq]
  exact forgotten_walk (.inr (removes_iff.mpr ⟨latest, found, expired⟩))

theorem kept_checked (stays : ∀ latest, s.access? clusterID = some latest → ¬ latest > executorDownExpireTime) :
    Kept s (checked executorDownExpireTime s) clusterID := by
  rw [checked_eq]
  apply kept_walk
  intro removes
  obtain ⟨latest, found, expired⟩ := removes_iff.mp removes
  exact stays latest found expired

/-! ### What a walk should do -/

/-- The last access is too long ago. -/
def Dead (s : EngineNode) (executorDownExpireTime now : Int) (clusterID : String) : Prop :=
  ∃ latest, s.access? clusterID = some latest ∧ now - latest > executorDownExpireTime

/-- A walk at this time removes the dead clusters and leaves the others alone. -/
def RemovesExactlyDead (s : EngineNode) (executorDownExpireTime now : Int) : Prop :=
  ∀ clusterID, (s.Dead executorDownExpireTime now clusterID → (checked executorDownExpireTime s).Forgotten clusterID) ∧
    (¬ s.Dead executorDownExpireTime now clusterID → Kept s (checked executorDownExpireTime s) clusterID)

/-- A walk is right where every access time and its distance from now lie on the same
side of the bound. -/
theorem removesExactlyDead_iff : s.RemovesExactlyDead executorDownExpireTime now ↔
    ∀ clusterID latest, s.access? clusterID = some latest →
      (latest > executorDownExpireTime ↔ now - latest > executorDownExpireTime) := by
  -- the check compares the time of the last access itself with the limit, not the time since then
  constructor
  · intro exact_ clusterID latest found
    by_cases dead : now - latest > executorDownExpireTime
    · refine iff_of_true ?_ dead
      by_contra short
      have gone := (exact_ clusterID).1 ⟨latest, found, dead⟩
      have kept : Kept s (checked executorDownExpireTime s) clusterID := by
        apply kept_checked
        intro other same
        obtain rfl : latest = other := Option.some.inj (found.symm.trans same)
        exact short
      rw [← kept.access, gone.access] at found
      cases found
    · refine iff_of_false (fun expired => ?_) dead
      have alive : ¬ s.Dead executorDownExpireTime now clusterID := by
        rintro ⟨other, same, dead'⟩
        obtain rfl : latest = other := Option.some.inj (found.symm.trans same)
        exact dead dead'
      have kept := (exact_ clusterID).2 alive
      have gone := forgotten_checked found expired
      rw [← kept.access, gone.access] at found
      cases found
  -- so it is right where the two comparisons agree
  · intro same clusterID
    constructor
    · rintro ⟨latest, found, dead⟩
      exact forgotten_checked found ((same clusterID latest found).mpr dead)
    · intro alive
      apply kept_checked
      intro latest found expired
      exact alive ⟨latest, found, (same clusterID latest found).mp expired⟩

end EngineNode

/-! ### The thread -/

namespace DefaultEngineNodeServer

variable {env : Env} {conf : Configuration} {guard : DefaultEngineNodeServer → Action → Prop}
  {s t : DefaultEngineNodeServer} {a : Action}

/-- `isRunning` has its initial value and the checker has not slept. -/
structure Idle (s : DefaultEngineNodeServer) : Prop where
  stopped : s.isRunning = false
  awake : s.executorChecker ≠ .sleeping

theorem Step.idle (step : Step env s a t) (idle : s.Idle) : t.Idle := by
  obtain ⟨stopped, awake⟩ := idle
  cases step with
  | continues _ running =>
    rw [stopped] at running
    cases running
  | ends => exact ⟨stopped, by simp⟩
  | passes turn => exact (awake turn).elim
  | closes => exact ⟨rfl, awake⟩
  | registers | beats | works => exact ⟨stopped, awake⟩

/-- The field is false when the thread starts, and nothing sets it. -/
theorem idle_of_reachable (reachable : Reachable (system env conf) guard s) : s.Idle := by
  apply Reachable.invariant (I := Idle) _ _ reachable
  · rintro s rfl
    exact ⟨rfl, by simp [construct]⟩
  · intro s a t idle _ step
    exact step.idle idle

/-- The checker does something by itself. -/
def Checks (env : Env) (s t : DefaultEngineNodeServer) : Prop := Step env s .test t ∨ Step env s .pass t

/-- As long as nobody has called `close`, the checker comes to another walk. -/
def PassesUntilClosed (env : Env) (conf : Configuration) : Prop :=
  ∀ s, Reachable (system env conf) (fun _ a => a ≠ .close) s →
    ∃ t u, ReflTransGen (Checks env) s t ∧ Step env t .pass u

/-- Dead executors, and only they, are removed, and the walks take place. -/
def RemovesTheDead (env : Env) (conf : Configuration) (node : EngineNode) (now : Int) : Prop :=
  node.RemovesExactlyDead (construct conf).executorDownExpireTime now ∧ PassesUntilClosed env conf

/-- The checker gains nothing by going on alone. -/
theorem idle_of_checks (checks : ReflTransGen (Checks env) s t) (idle : s.Idle) : t.Idle := by
  induction checks with
  | refl => exact idle
  | tail _ check ih =>
    rcases check with step | step
    · exact step.idle ih
    · exact step.idle ih

/-- No server ever makes a walk, so none removes the dead executors; and a walk would
remove them and no others only where access times and distances happen to agree. -/
theorem checker_never_passes (env : Env) (conf : Configuration) :
    (∀ s guard, Reachable (system env conf) guard s → ∀ t, ¬ Step env s .pass t) ∧
      (∀ (node : EngineNode) now, node.RemovesExactlyDead (construct conf).executorDownExpireTime now ↔
        ∀ clusterID latest, node.access? clusterID = some latest →
          (latest > (construct conf).executorDownExpireTime ↔
            now - latest > (construct conf).executorDownExpireTime)) ∧
      ∀ (node : EngineNode) now, ¬ RemovesTheDead env conf node now := by
  refine ⟨fun s guard reachable t pass => ?_, fun node now => EngineNode.removesExactlyDead_iff, ?_⟩
  · cases pass with
    | passes turn => exact (idle_of_reachable reachable).awake turn
  · rintro node now ⟨-, passes⟩
    obtain ⟨t, u, checks, pass⟩ := passes _ (.start rfl)
    have idle : t.Idle := idle_of_checks checks ⟨rfl, by simp [construct]⟩
    cases pass with
    | passes turn => exact idle.awake turn

/-! ### A live executor -/

/-- The configuration sets nothing. -/
def defaults : Configuration := ⟨fun _ defaultValue => defaultValue⟩

/-- An executor whose heartbeat of January 2014 has just been accepted. -/
def alive : EngineNode :=
  { engine := { store := { executorRegisterDateMap := ["c"] } }
    executorsLatestAccessTimeMap := AList.singleton "c" 1390990000000 }

theorem defaults_expireTime : (construct defaults).executorDownExpireTime = 900000 := by decide

/-- One second after its heartbeat the executor is not dead, yet a walk would remove it;
and the checker has ended before the first interval is over. -/
theorem alive_removed_unless_idle :
    (¬ alive.Dead (construct defaults).executorDownExpireTime 1390990001000 "c" ∧
      (EngineNode.checked (construct defaults).executorDownExpireTime alive).Forgotten "c") ∧
    (∃ s, Step Env.calm (construct defaults) .test s ∧ s.executorChecker = .ended) ∧
      ¬ RemovesTheDead Env.calm defaults alive 1390990001000 := by
  have ended : Step Env.calm (construct defaults) .test { construct defaults with executorChecker := .ended } :=
    .ends rfl rfl
  have found : alive.access? "c" = some 1390990000000 := by decide
  rw [defaults_expireTime]
  refine ⟨⟨?_, ?_⟩, ⟨_, ended, rfl⟩, ?_⟩
  · rintro ⟨latest, same, dead⟩
    obtain rfl : latest = 1390990000000 := Option.some.inj (same.symm.trans found)
    revert dead
    decide
  · exact EngineNode.forgotten_checked found (by decide)
  · rintro ⟨-, passes⟩
    have reached : Reachable (system Env.calm defaults) (fun _ a => a ≠ .close)
        { construct defaults with executorChecker := .ended } := .next (.start rfl) (by simp) ended
    obtain ⟨t, u, checks, pass⟩ := passes _ reached
    cases pass with
    | passes turn => exact (idle_of_checks checks (idle_of_reachable reached)).awake turn

end DefaultEngineNodeServer

end Hella

import Hella.Cluster.Manager

/-!
# Election of the engine's master

`createZNode` overwrites a node that somebody else has created, and a master that loses
its session goes on as master. Where neither happens, the master znode belongs to the
session of the one process that is master.
-/
namespace Hella

open Ephemeral Runs

/-! ### Threads on their way to mastership -/

/-- The operations set the master status without creating the master znode first. -/
def Entitled : List Op → Prop
  | [] => False
  | .setMasterStatus true :: _ => True
  | .createZNode .master :: _ => False
  | .create .master :: _ => False
  | _ :: rest => Entitled rest

/-- The operations do not touch a master znode that exists. -/
def Clean (ops : List Op) : Prop := .setData .master ∉ ops ∧ .delete .master ∉ ops

structure Thread.Sound (thread : Thread) : Prop where
  clean : Clean thread.ops
  retries : ∀ again, thread.recovery = .retry again → Clean again ∧ ¬ Entitled again

namespace Cluster

variable {c d : Cluster} {a : ClusterAction} {p q : Nat} {M N : Member}

/-- The master znode's session is not lost by a live process, and `createZNode` does not
find the master znode. -/
def Orderly (c : Cluster) : ClusterAction → Prop
  | .expire session => c.zookeeper.owner .master = some session → ∀ M ∈ c.members, M.live = true → M.session ≠ session
  | .call p .reconnect _ session =>
    ∀ M, c.members[p]? = some M → c.zookeeper.owner .master = some M.session → session = M.session
  | .call _ (.createZNode .master) outcome _ => outcome ≠ .returns [.setData .master]
  | _ => True

/-- The process is master, or one of its threads will make it so without another look. -/
def Claims (M : Member) : Prop := M.isMasterStatus = true ∨ ∃ thread ∈ M.threads, Entitled thread.ops

structure Held (c : Cluster) : Prop where
  opened : ∀ (p : Nat) (M : Member), c.members[p]? = some M → M.session < c.zookeeper.sessions
  distinct : ∀ (p q : Nat) (M N : Member), c.members[p]? = some M → c.members[q]? = some N →
    M.session = N.session → p = q
  sound : ∀ (p : Nat) (M : Member), c.members[p]? = some M → ∀ thread ∈ M.threads, thread.Sound
  owns : ∀ (p : Nat) (M : Member), c.members[p]? = some M → M.live = true → Claims M →
    c.zookeeper.owner .master = some M.session

/-! ### What one call can do -/

/-- A call keeps the master znode, creates it, or renews a session that does not own it. -/
inductive Effect (z : Zookeeper) (M : Member) (y : Zookeeper) (N : Member) : Prop where
  | keeps (owner : y.owner .master = z.owner .master) (sessions : y.sessions = z.sessions)
    (same : N.session = M.session)
  | creates (free : z.owner .master = none) (owner : y.owner .master = some M.session)
      (sessions : y.sessions = z.sessions) (same : N.session = M.session)
  | renews (other : z.owner .master ≠ some M.session) (owner : y.owner .master = z.owner .master)
      (sessions : y.sessions = z.sessions + 1) (new : N.session = z.sessions)

variable {y z : Zookeeper} {op : Op} {outcome : Outcome} {rest : List Op} {recovery : Recovery} {i : Nat}

theorem call_effect {m : Manager} (call : Call m p z M op y N outcome) (undeleted : op ≠ .delete .master)
    (keeps : op = .reconnect → z.owner .master = some M.session → N.session = M.session)
    (opened : M.session < z.sessions) : Effect z M y N := by
  cases call with
  | @creates path _ alive free ends =>
    cases path with
    -- `create` fails on a path that exists, so the znode was free
    | master => exact .creates free rfl rfl rfl
    | slave => exact .keeps rfl rfl rfl
  | @deletes path =>
    cases path with
    | master => exact absurd rfl undeleted
    | slave => exact .keeps rfl rfl rfl
  | reconnects =>
    -- the new session cannot be the old one, so an owner would have kept its session
    have other : z.owner .master ≠ some M.session := fun owner => by
      have same : z.sessions = M.session := keeps rfl owner
      omega
    exact .renews other (by simp [Registry.connect, Registry.owner_close, other]) rfl rfl
  | _ => exact .keeps rfl rfl rfl

theorem Effect.session (effect : Effect z M y N) : (N.session = M.session ∧ y.sessions = z.sessions) ∨
    (N.session = z.sessions ∧ y.sessions = z.sessions + 1) := by
  cases effect with
  | keeps _ sessions same => exact .inl ⟨same, sessions⟩
  | creates _ _ sessions same => exact .inl ⟨same, sessions⟩
  | renews _ _ sessions new => exact .inr ⟨new, sessions⟩

theorem call_threads {m : Manager} (call : Call m p z M op y N outcome) : N.threads = M.threads ∧ N.live = M.live := by
  cases call <;> exact ⟨rfl, rfl⟩

/-- Only the creation of the master znode brings a thread closer to mastership. -/
theorem call_entitled {ops : List Op} (call : Call .engine p z M op y N (.returns ops))
    (overwrites : op = .createZNode .master → ops ≠ [.setData .master]) (clean : Clean (op :: rest))
    (entitled : Entitled (ops ++ rest)) : Entitled (op :: rest) ∨ y.owner .master = some M.session := by
  cases call with
  | initializesMaster => exact entitled.elim
  | initializesSlave => exact .inl entitled
  | @findsNode path =>
    cases path with
    | master => exact absurd rfl (overwrites rfl)
    | slave => exact .inl entitled
  | @findsNone path =>
    cases path with
    | master => exact entitled.elim
    | slave => exact .inl entitled
  | @setsData path =>
    cases path with
    -- only `createZNode` on an existing znode leads here, and such threads are not clean
    | master => exact absurd List.mem_cons_self clean.1
    | slave => simp_all [Entitled]
  | @creates path =>
    cases path with
    -- the one call that makes a thread entitled also makes its session the owner
    | master => exact .inr rfl
    | slave => simp_all [Entitled]
  | @setsMasterStatus status => cases status <;> exact .inl (by simp_all [Entitled])
  | _ => exact .inl (by simp_all [Entitled])

theorem call_clean {ops : List Op} (call : Call .engine p z M op y N (.returns ops))
    (overwrites : op = .createZNode .master → ops ≠ [.setData .master]) (clean : Clean (op :: rest)) :
    Clean (ops ++ rest) := by
  have kept : Clean rest := ⟨fun member => clean.1 (.tail _ member), fun member => clean.2 (.tail _ member)⟩
  have fresh : Clean ops := by
    cases call with
    | @findsNode path =>
      cases path with
      | master => exact absurd rfl (overwrites rfl)
      | slave => exact ⟨by decide, by decide⟩
    | @findsNone path => cases path <;> exact ⟨by decide, by decide⟩
    | setsData _ _ ends | creates _ _ ends | deletes _ _ ends | startsScheduler ends | startsMaster _ ends =>
      obtain rfl : ops = [] := by simpa using ends
      exact ⟨by decide, by decide⟩
    | _ => exact ⟨by decide, by decide⟩
  simp only [Clean, List.mem_append, not_or] at kept fresh ⊢
  exact ⟨⟨fresh.1, kept.1⟩, fresh.2, kept.2⟩

/-- The threads after one operation: the thread goes on, or starts over. -/
theorem proceed_cases {thread : Thread} (member : thread ∈ (N.proceed i ⟨op :: rest, recovery⟩ rest outcome).threads) :
    thread ∈ N.threads ∨ (∃ ops, outcome = .returns ops ∧ thread = ⟨ops ++ rest, recovery⟩) ∨
      ∃ again, recovery = .retry again ∧ thread = ⟨again, recovery⟩ := by
  unfold Member.proceed at member
  cases outcome with
  | returns ops => exact (List.mem_or_eq_of_mem_set member).imp_right fun same => .inl ⟨ops, rfl, same⟩
  | throws =>
    cases recovery with
    | exit => exact .inl member
    | retry again => exact (List.mem_or_eq_of_mem_set member).imp_right fun same => .inr ⟨again, rfl, same⟩

theorem proceed_same {thread : Thread} : (N.proceed i thread rest outcome).session = N.session ∧
    (N.proceed i thread rest outcome).isMasterStatus = N.isMasterStatus := by
  unfold Member.proceed
  split
  · exact ⟨rfl, rfl⟩
  · split <;> exact ⟨rfl, rfl⟩

theorem proceed_sound (call : Call .engine p z M op y N outcome)
    (overwrites : op = .createZNode .master → outcome ≠ .returns [.setData .master])
    (sound : ∀ thread ∈ M.threads, thread.Sound) (next : M.threads[i]? = some ⟨op :: rest, recovery⟩) :
    ∀ thread ∈ (N.proceed i ⟨op :: rest, recovery⟩ rest outcome).threads, thread.Sound := by
  have mine := sound _ (List.mem_of_getElem? next)
  intro thread member
  obtain old | ⟨ops, rfl, rfl⟩ | ⟨again, rfl, rfl⟩ := proceed_cases member
  · exact sound thread ((call_threads call).1 ▸ old)
  · exact ⟨call_clean call (fun same => by simpa using overwrites same) mine.clean, mine.retries⟩
  · exact ⟨(mine.retries again rfl).1, mine.retries⟩

/-- Mastership is claimed anew only by the thread that creates the master znode. -/
theorem proceed_claims (call : Call .engine p z M op y N outcome)
    (overwrites : op = .createZNode .master → outcome ≠ .returns [.setData .master])
    (sound : ∀ thread ∈ M.threads, thread.Sound) (next : M.threads[i]? = some ⟨op :: rest, recovery⟩)
    (claims : Claims (N.proceed i ⟨op :: rest, recovery⟩ rest outcome)) :
    Claims M ∨ y.owner .master = some M.session := by
  have here := List.mem_of_getElem? next
  obtain master | ⟨thread, member, ready⟩ := claims
  · rw [proceed_same.2] at master
    cases call with
    | @setsMasterStatus status =>
      cases status with
      | true => exact .inl (.inr ⟨_, here, trivial⟩)
      | false => cases master
    | _ => exact .inl (.inl master)
  · obtain old | ⟨ops, rfl, rfl⟩ | ⟨again, rfl, rfl⟩ := proceed_cases member
    · exact .inl (.inr ⟨thread, (call_threads call).1 ▸ old, ready⟩)
    -- the thread went on: it was entitled before, or it has just created the znode
    · have before := call_entitled call (fun same => by simpa using overwrites same) (sound _ here).clean ready
      exact before.imp_left fun entitled => .inr ⟨_, here, entitled⟩
    -- a thread that starts over begins with `createZNode` or `reconnect`
    · exact absurd ready ((sound _ here).retries again rfl).2

/-! ### Runs -/

theorem set_cases {members : List Member} {K : Member} (there : (members.set p N)[q]? = some K) :
    (q = p ∧ K = N) ∨ (q ≠ p ∧ members[q]? = some K) := by
  by_cases same : p = q
  · subst same
    obtain bound | bound := Nat.lt_or_ge p members.length
    · rw [List.getElem?_set_self bound] at there
      exact .inl ⟨rfl, (Option.some.inj there).symm⟩
    · simp [bound] at there
  · exact .inr ⟨Ne.symm same, by rwa [List.getElem?_set_ne same] at there⟩

/-- A process of the extended list is an old one or the one that starts. -/
theorem join_cases {K : Member} (there : (c.members ++ [N])[q]? = some K) :
    c.members[q]? = some K ∨ (q = c.members.length ∧ K = N) := by
  rw [List.getElem?_append] at there
  split at there
  · exact .inl there
  · rw [List.getElem?_singleton] at there
    split at there
    · exact .inr ⟨by omega, (Option.some.inj there).symm⟩
    · cases there

/-- An expired session starts a thread in its process, and that is all. -/
theorem expire_cases {session : Nat} {K : Member} (there : (c.members.map fun M =>
    if M.session = session then { M with threads := M.threads ++ [reconnectionWatcher] } else M)[q]? = some K) :
    ∃ M, c.members[q]? = some M ∧ K.session = M.session ∧ K.live = M.live ∧ K.isMasterStatus = M.isMasterStatus ∧
      (K.threads = M.threads ∨ K.threads = M.threads ++ [reconnectionWatcher]) := by
  rw [List.getElem?_map, Option.map_eq_some_iff] at there
  obtain ⟨M, there, rfl⟩ := there
  refine ⟨M, there, ?_⟩
  split
  · exact ⟨rfl, rfl, rfl, .inr rfl⟩
  · exact ⟨rfl, rfl, rfl, .inl rfl⟩

theorem expired_thread {K : Member} {thread : Thread}
    (threads : K.threads = M.threads ∨ K.threads = M.threads ++ [reconnectionWatcher])
    (member : thread ∈ K.threads) : thread ∈ M.threads ∨ thread = reconnectionWatcher := by
  rcases threads with same | more
  · exact .inl (same ▸ member)
  · rw [more] at member
    simpa using member

/-- No session is shared, and the next one is new. -/
structure Apart (c : Cluster) : Prop where
  opened : ∀ (p : Nat) (M : Member), c.members[p]? = some M → M.session < c.zookeeper.sessions
  distinct : ∀ (p q : Nat) (M N : Member), c.members[p]? = some M → c.members[q]? = some N →
    M.session = N.session → p = q

/-- One process keeps its session or gets the next one. -/
theorem Apart.update (apart : Apart c) (there : c.members[p]? = some M)
    (session : (N.session = M.session ∧ z.sessions = c.zookeeper.sessions) ∨
      (N.session = c.zookeeper.sessions ∧ z.sessions = c.zookeeper.sessions + 1)) : Apart ⟨z, c.members.set p N⟩ where
  -- sessions are numbered as they open, so a new one is after all that are known
  opened q K after := by
    have old := apart.opened p M there
    obtain ⟨rfl, rfl⟩ | ⟨-, after⟩ := set_cases after
    · dsimp only
      omega
    · have other := apart.opened q K after
      dsimp only
      omega
  distinct q r K L first second same := by
    obtain ⟨rfl, rfl⟩ | ⟨-, one⟩ := set_cases first
    · obtain ⟨rfl, -⟩ | ⟨-, second⟩ := set_cases second
      · rfl
      · have old := apart.opened r L second
        rcases session with ⟨kept, -⟩ | ⟨new, -⟩
        · exact apart.distinct q r M L there second (kept.symm.trans same)
        · omega
    · obtain ⟨rfl, rfl⟩ | ⟨-, second⟩ := set_cases second
      · have old := apart.opened q K one
        rcases session with ⟨kept, -⟩ | ⟨new, -⟩
        · exact apart.distinct q r K M one there (same.trans kept)
        · omega
      · exact apart.distinct q r K L one second same

theorem Apart.join (apart : Apart c) : Apart { c with
    zookeeper := c.zookeeper.connect
    members := c.members ++ [.new c.zookeeper.sessions] } where
  opened q K after := by
    obtain old | ⟨-, rfl⟩ := join_cases after
    · exact Nat.lt_succ_of_lt (apart.opened q K old)
    · exact Nat.lt_succ_self _
  distinct q r K L first second same := by
    obtain one | ⟨rfl, rfl⟩ := join_cases first
    · obtain two | ⟨rfl, rfl⟩ := join_cases second
      · exact apart.distinct q r K L one two same
      · exact absurd same (Nat.ne_of_lt (apart.opened q K one))
    · obtain two | ⟨rfl, rfl⟩ := join_cases second
      · exact absurd same.symm (Nat.ne_of_lt (apart.opened r L two))
      · rfl

theorem Apart.expire {session : Nat} (apart : Apart c) : Apart { c with
    zookeeper := c.zookeeper.expire session
    members := c.members.map fun M =>
      if M.session = session then { M with threads := M.threads ++ [reconnectionWatcher] } else M } where
  opened q K after := by
    obtain ⟨M, there, kept, -⟩ := expire_cases after
    rw [kept]
    exact apart.opened q M there
  distinct q r K L first second same := by
    obtain ⟨M, one, kept, -⟩ := expire_cases first
    obtain ⟨N, two, also, -⟩ := expire_cases second
    exact apart.distinct q r M N one two (kept.symm.trans (same.trans also))

theorem Held.apart (held : Held c) : Apart c := ⟨held.opened, held.distinct⟩

/-- One process changes, with one of the effects a call can have. -/
theorem Held.update (held : Held c) (there : c.members[p]? = some M) (effect : Effect c.zookeeper M z N)
    (sound : ∀ thread ∈ N.threads, thread.Sound)
    (claims : N.live = true → Claims N → (M.live = true ∧ Claims M) ∨ z.owner .master = some M.session) :
    Held ⟨z, c.members.set p N⟩ where
  opened := (held.apart.update there effect.session).opened
  distinct := (held.apart.update there effect.session).distinct
  sound q K after := by
    obtain ⟨rfl, rfl⟩ | ⟨-, after⟩ := set_cases after
    · exact sound
    · exact held.sound q K after
  owns q K after live claim := by
    obtain ⟨rfl, rfl⟩ | ⟨-, after⟩ := set_cases after
    · have mine : c.zookeeper.owner .master = some M.session ∨ z.owner .master = some M.session :=
        (claims live claim).imp_left fun before => held.owns q M there before.1 before.2
      cases effect with
      | keeps owner _ kept => rw [kept, owner]; exact mine.elim id (owner ▸ ·)
      | creates _ owner _ kept => rw [kept, owner]
      | renews other owner => exact absurd (mine.elim id (owner ▸ ·)) other
    · have theirs := held.owns q K after live claim
      cases effect with
      | keeps owner => rw [← theirs, ← owner]
      -- the znode was free, so nobody else claimed mastership
      | creates free => cases free.symm.trans theirs
      | renews _ owner => rw [← theirs, ← owner]

theorem process_sound {watcher : Watcher} {type : Change} {thread : Thread}
    (starts : thread ∈ (watcher.process .engine type).toList) : thread.Sound ∧ ¬ Entitled thread.ops := by
  have again {ops : List Op} (clean : Clean ops) (idle : ¬ Entitled ops) :
      (⟨ops, .retry ops⟩ : Thread).Sound ∧ ¬ Entitled ops :=
    ⟨⟨clean, fun again same => by cases same; exact ⟨clean, idle⟩⟩, idle⟩
  cases watcher with
  | node path =>
    cases type with
    | expired =>
      obtain rfl := List.mem_singleton.mp starts
      exact again (by simp [Clean]) (by cases path <;> simp [Entitled])
    | _ => simp [Watcher.process] at starts
  | statusSwitch path =>
    cases type with
    | expired =>
      obtain rfl := List.mem_singleton.mp starts
      exact again (by simp [Clean]) (by simp [Entitled])
    | deleted =>
      obtain rfl := List.mem_singleton.mp starts
      -- the upgrade begins with `createZNode`, so it entitles to nothing yet
      refine ⟨⟨by simp [Clean, Manager.engine, initializeMaster], fun again same => by cases same⟩, ?_⟩
      simp [Manager.engine, initializeMaster, Entitled]
    | _ => simp [Watcher.process] at starts

/-- A process starts with a session of its own. -/
theorem Held.join (held : Held c) : Held { c with
    zookeeper := c.zookeeper.connect
    members := c.members ++ [.new c.zookeeper.sessions] } where
  opened := held.apart.join.opened
  distinct := held.apart.join.distinct
  sound q K after := by
    obtain old | ⟨-, rfl⟩ := join_cases after
    · exact held.sound q K old
    · simp only [Member.new, List.mem_singleton, forall_eq]
      exact ⟨by simp [Clean], fun again same => by cases same⟩
  owns q K after live claim := by
    obtain old | ⟨-, rfl⟩ := join_cases after
    · exact held.owns q K old live claim
    · simp [Claims, Member.new, Entitled] at claim

theorem Held.expire {session : Nat} (held : Held c) (orderly : Orderly c (.expire session)) : Held { c with
    zookeeper := c.zookeeper.expire session
    members := c.members.map fun M =>
      if M.session = session then { M with threads := M.threads ++ [reconnectionWatcher] } else M } where
  opened := held.apart.expire.opened
  distinct := held.apart.expire.distinct
  sound q K after := by
    obtain ⟨M, there, -, -, -, threads⟩ := expire_cases after
    intro thread member
    obtain old | rfl := expired_thread threads member
    · exact held.sound q M there thread old
    · refine ⟨by simp [Clean, reconnectionWatcher], fun again same => ?_⟩
      cases same
      exact ⟨by simp [Clean], by simp [Entitled]⟩
  owns q K after live claim := by
    obtain ⟨M, there, kept, lives, status, threads⟩ := expire_cases after
    rw [lives] at live
    -- the thread that is added only reconnects, so the claim is an old one
    have claimed : Claims M := by
      obtain master | ⟨thread, member, ready⟩ := claim
      · exact .inl (status ▸ master)
      · obtain old | rfl := expired_thread threads member
        · exact .inr ⟨thread, old, ready⟩
        · simp [reconnectionWatcher, Entitled] at ready
    have owner := held.owns q M there live claimed
    have other : M.session ≠ session := by
      rintro rfl
      exact orderly owner M (List.mem_of_getElem? there) live rfl
    have unlike : c.zookeeper.owner .master ≠ some session := by rw [owner]; simpa using other
    dsimp only
    rw [Registry.owner_expire, if_neg unlike, kept, owner]

theorem Step.held (step : Step .engine c a d) (orderly : Orderly c a) (held : Held c) : Held d := by
  cases step with
  | starts => exact held.join
  | @crashes p M there =>
    exact held.update there (.keeps rfl rfl rfl) (held.sound p M there) fun live => by cases live
  | expires => exact held.expire orderly
  | @delivers p watcher type M there live fired =>
    refine held.update (z := { c.zookeeper with events := c.zookeeper.events.erase ⟨(p, watcher), type⟩ }) there
      (.keeps rfl rfl rfl) ?_ fun _ claim => .inl ⟨live, ?_⟩
    · intro thread member
      obtain old | new := List.mem_append.mp member
      · exact held.sound p M there thread old
      · exact (process_sound new).1
    · obtain master | ⟨thread, member, ready⟩ := claim
      · exact .inl master
      · obtain old | new := List.mem_append.mp member
        · exact .inr ⟨thread, old, ready⟩
        · exact absurd ready (process_sound new).2
  | @calls p i op rest recovery z outcome M N there live next call =>
    have sound := held.sound p M there
    have clean := (sound _ (List.mem_of_getElem? next)).clean
    -- the two conditions on the run, for the call at hand
    have overwrites : op = .createZNode .master → outcome ≠ .returns [.setData .master] := by
      rintro rfl
      exact orderly
    have keeps : op = .reconnect → c.zookeeper.owner .master = some M.session → N.session = M.session := by
      rintro rfl
      exact orderly M there
    have effect := call_effect call (fun same => clean.2 (by simp [same])) keeps (held.opened p M there)
    have renamed : Effect c.zookeeper M z (N.proceed i ⟨op :: rest, recovery⟩ rest outcome) := by
      cases effect with
      | keeps owner sessions same => exact .keeps owner sessions (proceed_same.1.trans same)
      | creates free owner sessions same => exact .creates free owner sessions (proceed_same.1.trans same)
      | renews other owner sessions new => exact .renews other owner sessions (proceed_same.1.trans new)
    refine held.update there renamed (proceed_sound call overwrites sound next) fun _ claim => ?_
    exact (proceed_claims call overwrites sound next claim).imp_left fun claims => ⟨live, claims⟩

theorem held (reachable : Reachable (system .engine) Orderly c) : Held c := by
  refine reachable.invariant ?_ fun _ _ _ held orderly step => Step.held step orderly held
  rintro _ rfl
  refine ⟨fun q K after => ?_, fun q r K L after => ?_, fun q K after => ?_, fun q K after => ?_⟩ <;> simp at after

/-- In a run in which the master znode is created by one process at a time and its
session lasts while its process lives, at most one live engine is master. -/
theorem one_master (reachable : Reachable (system .engine) Orderly c) (first : c.members[p]? = some M)
    (second : c.members[q]? = some N) (lives : M.live = true) (liveToo : N.live = true)
    (master : M.isMasterStatus = true) (masterToo : N.isMasterStatus = true) : p = q := by
  have one := (held reachable).owns p M first lives (.inl master)
  have two := (held reachable).owns q N second liveToo (.inl masterToo)
  exact (held reachable).distinct p q M N first second (Option.some.inj (one.symm.trans two))

end Cluster

/-! ### Two engines that start together -/

namespace TwoEngines

/-- Both engines have found no master. -/
def started : Cluster where
  zookeeper := { sessions := 2 }
  members :=
    let main : Thread := ⟨initializeMaster ++ [.setMasterStatus true, .startEngine], .exit⟩
    [{ session := 0, threads := [main] }, { session := 1, threads := [main] }]

theorem started_reachable : Reachable (Cluster.system .engine) Cluster.Orderly started := by
  have empty : Reachable (Cluster.system .engine) Cluster.Orderly {} := .start rfl
  have one := empty.next (by trivial) .starts
  have two := one.next (by trivial) .starts
  have first := two.next (by trivial) (.calls (p := 0) (i := 0) rfl rfl rfl (.initializesMaster (by decide) rfl))
  have second := first.next (by trivial) (.calls (p := 1) (i := 0) rfl rfl rfl (.initializesMaster (by decide) rfl))
  exact second

/-- The first engine is master. -/
def elected : Cluster where
  zookeeper :=
    { owner := fun path => if path = .master then some 0 else none
      sessions := 2
      watches := [⟨.master, 0, (0, .node .master)⟩] }
  members :=
    [{ session := 0, threads := [⟨[.startEngine], .exit⟩], isMasterStatus := true },
      { session := 1, threads := [⟨initializeMaster ++ [.setMasterStatus true, .startEngine], .exit⟩] }]

theorem elected_reachable : Reachable (Cluster.system .engine) Cluster.Orderly elected := by
  have finds := started_reachable.next (by simp [Cluster.Orderly])
    (.calls (p := 0) (i := 0) rfl rfl rfl (.findsNone (by decide) rfl))
  have creates := finds.next (by trivial) (.calls (p := 0) (i := 0) rfl rfl rfl (.creates (by decide) rfl (.inl rfl)))
  have watches := creates.next (by trivial) (.calls (p := 0) (i := 0) rfl rfl rfl (.addsWatcher (by decide)))
  have sets := watches.next (by trivial) (.calls (p := 0) (i := 0) rfl rfl rfl .setsMasterStatus)
  exact sets

end TwoEngines

theorem one_master_elected :
    ∃ M, Reachable (Cluster.system .engine) Cluster.Orderly TwoEngines.elected ∧
      TwoEngines.elected.members[0]? = some M ∧ M.live = true ∧ M.isMasterStatus = true ∧
        ∀ q N, TwoEngines.elected.members[q]? = some N → N.live = true → N.isMasterStatus = true → 0 = q := by
  refine ⟨_, TwoEngines.elected_reachable, rfl, rfl, rfl, fun q N there live master => ?_⟩
  exact Cluster.one_master TwoEngines.elected_reachable rfl there rfl live rfl master

/-- The second engine finds the master znode when it comes to create it, writes its own
data there and is master too. -/
theorem twoEngines_masters :
    ∃ (c : Cluster) (p q : Nat) (M N : Member), Reachable (Cluster.system .engine) (fun _ _ => True) c ∧ p ≠ q ∧
      c.members[p]? = some M ∧ c.members[q]? = some N ∧ M.live = true ∧ N.live = true ∧
        M.isMasterStatus = true ∧ N.isMasterStatus = true := by
  have elected : Reachable (Cluster.system .engine) (fun _ _ => True) TwoEngines.elected :=
    TwoEngines.elected_reachable.mono fun _ _ _ => trivial
  have finds := elected.next trivial (.calls (p := 1) (i := 0) rfl rfl rfl (.findsNode (by decide) (by decide)))
  have sets := finds.next trivial (.calls (p := 1) (i := 0) rfl rfl rfl (.setsData (by decide) (by decide) (.inl rfl)))
  have watches := sets.next trivial (.calls (p := 1) (i := 0) rfl rfl rfl (.addsWatcher (by decide)))
  have both := watches.next trivial (.calls (p := 1) (i := 0) rfl rfl rfl .setsMasterStatus)
  exact ⟨_, 0, 1, _, _, both, by decide, rfl, rfl, rfl, rfl, rfl, rfl⟩

end Hella

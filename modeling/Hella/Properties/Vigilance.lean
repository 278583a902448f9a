import Hella.Properties.Election

/-!
# Slaves that watch their master

A slave is told of the end of its master by one watch, which fires once and for any change.
The engine's slave loses it in four ways, and the executor's slave never has it. Where none
of this happens, a slave with nothing left to do has the watch.
-/
namespace Hella

open Ephemeral Runs

/-- The status switch watcher of the process, left on the master znode by the session. -/
def switchWatch (p session : Nat) : Watch Znode (Nat × Watcher) := ⟨.master, session, (p, .statusSwitch .master)⟩

/-- The event the status switch watcher of the process gets. -/
def switchEvent (p : Nat) (type : Change) : Event (Nat × Watcher) := ⟨(p, .statusSwitch .master), type⟩

/-- The operation leaves the watch or makes the process master. -/
def Op.Attends (op : Op) : Prop :=
  op = .initialize_ ∨ op = .setMasterStatus true ∨ op = .addWatcher .master (.statusSwitch .master)

/-- The thread will leave the watch or make the process master, also when it starts over. -/
structure Thread.Attends (thread : Thread) : Prop where
  next : ∃ op ∈ thread.ops, op.Attends
  retries : ∀ again, thread.recovery = .retry again → .addWatcher .master (.statusSwitch .master) ∈ again

namespace Cluster

variable {m : Manager} {c d : Cluster} {a : ClusterAction} {p q i session : Nat} {M N K : Member}
  {y z : Zookeeper} {op : Op}
  {rest : List Op} {recovery : Recovery} {outcome : Outcome}

/-! ### Slaves at rest -/

/-- The process has a session, and of what it was told nothing is left to do. -/
structure Resting (m : Manager) (c : Cluster) (p : Nat) (M : Member) : Prop where
  there : c.members[p]? = some M
  live : M.live = true
  alive : c.zookeeper.Alive M.session
  pending : ∀ event ∈ c.zookeeper.events, event.watcher.1 ≠ p
  idle : ∀ thread ∈ M.threads, ∀ op ∈ thread.ops, op ∈ m.start

/-- A resting process has an armed watch on a master that exists, or is master itself. -/
def NeverMisses (m : Manager) (c : Cluster) : Prop :=
  ∀ p M, Resting m c p M → c.zookeeper.Guards (switchWatch p M.session) ∨ M.isMasterStatus = true

/-- When the master znode goes in a step, a resting slave that keeps its session is told. -/
def DeletionTold (m : Manager) (c d : Cluster) : Prop :=
  c.zookeeper.owner .master ≠ none → d.zookeeper.owner .master = none → ∀ p M, Resting m c p M →
    M.isMasterStatus = false →
    d.zookeeper.Alive M.session → switchEvent p .deleted ∈ d.zookeeper.events

/-! ### When it holds -/

/-- A live slave whose watch has not fired. -/
structure Waits (c : Cluster) (p : Nat) (M : Member) : Prop where
  there : c.members[p]? = some M
  live : M.live = true
  slave : M.isMasterStatus = false
  armed : switchWatch p M.session ∈ c.zookeeper.watches

/-- The steps that leave every slave its watch. -/
def Vigilant (m : Manager) (c : Cluster) : ClusterAction → Prop
  -- becoming a slave includes the watch
  | .call _ .initialize_ outcome _ =>
    outcome = .throws ∨ c.zookeeper.owner .master = none ∨
      .addWatcher .master (.statusSwitch .master) ∈ m.initializeSlave
  -- the master is still there when the watch is left
  | .call _ (.addWatcher .master (.statusSwitch .master)) outcome _ =>
    outcome = .throws ∨ c.zookeeper.owner .master ≠ none
  -- nobody uses up a watch by writing to the master znode
  | .call _ (.setData .master) _ _ => ∀ q N, ¬ Waits c q N
  -- a connection that is only lost is not closed
  | .call p .reconnect _ session => ∀ M, Waits c p M → session = M.session
  -- the main thread does not take back a promotion
  | .call p (.setMasterStatus false) _ _ => ∀ M, c.members[p]? = some M → M.isMasterStatus = false
  | _ => True

/-! ### The invariant -/

/-- Where the watch of a process is: the process is master, works on it, is about to be told
or has it. -/
inductive Attended (z : Zookeeper) (p : Nat) (M : Member) : Prop where
  | promoted (master : M.isMasterStatus = true)
  | working {thread : Thread} (member : thread ∈ M.threads) (attends : thread.Attends)
  | told {type : Change} (news : type = .deleted ∨ type = .expired) (pending : switchEvent p type ∈ z.events)
  | watching (guards : z.Guards (switchWatch p M.session))

/-- Events wait until they are delivered. -/
theorem call_events (call : Call m p z M op y N outcome) {event : Event (Nat × Watcher)} (pending : event ∈ z.events) :
    event ∈ y.events := by
  cases call with
  | setsData | creates | deletes | reconnects => exact Registry.fire_events pending
  | _ => exact pending

theorem call_session (call : Call m p z M op y N outcome) :
    (N.session = M.session ∧ y.sessions = z.sessions) ∨ (N.session = z.sessions ∧ y.sessions = z.sessions + 1) := by
  cases call with
  | reconnects => exact .inr ⟨rfl, rfl⟩
  | _ => exact .inl ⟨rfl, rfl⟩

/-- A call leaves a watch on the master armed, or the watch is told that the master is gone. -/
theorem call_guards (guards : z.Guards (switchWatch q session)) (call : Call m p z M op y N outcome)
    (unwritten : op ≠ .setData .master) (opened : M.session < z.sessions)
    (foreign : op = .reconnect → N.session = M.session ∨ session ≠ M.session) :
    y.Guards (switchWatch q session) ∨ switchEvent q .deleted ∈ y.events := by
  cases call with
  | @setsData path =>
    cases path with
    | master => exact absurd rfl unwritten
    | slave => exact .inl (guards.setData (by simp [switchWatch]))
  | creates _ free => exact .inl (guards.create free)
  | addsWatcher => exact .inl guards.watch
  | deletes => exact guards.delete
  | reconnects =>
    -- the session that is closed is not the watch's
    have other : session ≠ M.session := by
      rcases foreign rfl with same | other
      · have same : z.sessions = M.session := same
        omega
      · exact other
    exact (guards.close other).imp_left Registry.Guards.connect
  | _ => exact .inl guards

/-! ### The process that makes a call -/

/-- The other threads stay. -/
theorem proceed_others {thread : Thread} (member : thread ∈ N.threads)
    (next : N.threads[i]? = some ⟨op :: rest, recovery⟩) :
    thread ∈ (N.proceed i ⟨op :: rest, recovery⟩ rest outcome).threads ∨ thread = ⟨op :: rest, recovery⟩ := by
  obtain ⟨j, at_⟩ := List.mem_iff_getElem?.mp member
  by_cases same : i = j
  · subst same
    exact .inr (Option.some.inj (at_.symm.trans next))
  · left
    have stays (other : Thread) : thread ∈ N.threads.set i other := by
      apply List.mem_of_getElem?
      rw [List.getElem?_set_ne same]
      exact at_
    unfold Member.proceed
    cases outcome with
    | returns ops => exact stays _
    | throws =>
      cases recovery with
      | exit => exact member
      | retry again => exact stays _

/-- What the thread becomes is among the threads. -/
theorem set_member {threads : List Thread} {old thread : Thread} (next : threads[i]? = some old) :
    thread ∈ threads.set i thread := List.mem_set (List.getElem?_eq_some_iff.mp next).1 _

/-- The thread that attends has done so with its call, or goes on to. -/
theorem attended_acting (call : Call m p c.zookeeper M op y N outcome)
    (vigilant : Vigilant m c (.call p op outcome N.session)) (next : M.threads[i]? = some ⟨op :: rest, recovery⟩)
    (attends : Thread.Attends ⟨op :: rest, recovery⟩)
    (live : (N.proceed i ⟨op :: rest, recovery⟩ rest outcome).live = true) :
    Attended y p (N.proceed i ⟨op :: rest, recovery⟩ rest outcome) := by
  have next' : N.threads[i]? = some ⟨op :: rest, recovery⟩ := (call_threads call).1 ▸ next
  -- an exception leaves the retry to come, an answer one of the three calls that attend
  cases outcome with
  | throws =>
    cases recovery with
    | exit => cases live
    | retry again =>
      refine .working (set_member next') ⟨⟨_, attends.retries again rfl, .inr (.inr rfl)⟩, attends.retries⟩
  | returns ops =>
    -- the call that attends may be this one or one still to come
    obtain ⟨other, member, isOp⟩ := attends.next
    have goesOn (member : other ∈ ops ++ rest) :
      Attended y p (N.proceed i ⟨op :: rest, recovery⟩ rest (.returns ops)) :=
      .working (set_member next') ⟨⟨other, member, isOp⟩, attends.retries⟩
    rcases List.mem_cons.mp member with rfl | later
    · rcases isOp with rfl | rfl | rfl
      · cases call with
        | initializesMaster =>
          refine .working (set_member next') ⟨⟨.setMasterStatus true, ?_, .inr (.inl rfl)⟩, attends.retries⟩
          simp
        | initializesSlave alive taken =>
          -- a slave watches the node of the master, which is what makes it vigilant
          have watches : .addWatcher .master (.statusSwitch .master) ∈ m.initializeSlave := by
            rcases vigilant with thrown | free | watches
            · cases thrown
            · exact absurd free taken
            · exact watches
          refine .working (set_member next') ⟨⟨_, ?_, .inr (.inr rfl)⟩, attends.retries⟩
          simp [watches]
      · cases call
        exact .promoted rfl
      -- the watch is set on a node that exists, so its deletion will be told
      · cases call with
        | addsWatcher =>
          have present : c.zookeeper.owner .master ≠ none := by
            rcases vigilant with thrown | present
            · cases thrown
            · exact present
          exact .watching ⟨present, List.mem_append_right _ (List.mem_singleton.mpr rfl)⟩
    · exact goesOn (List.mem_append_right _ later)

/-- A promotion is kept by every call. -/
theorem call_promoted (call : Call m p c.zookeeper M op y N outcome)
    (vigilant : Vigilant m c (.call p op outcome N.session))
    (there : c.members[p]? = some M) (master : M.isMasterStatus = true) : N.isMasterStatus = true := by
  cases call with
  | @setsMasterStatus status =>
    cases status with
    | true => rfl
    | false =>
      have slave : M.isMasterStatus = false := vigilant M there
      rw [master] at slave
      cases slave
  | _ => exact master

/-- A slave that waits is not disturbed by a call. -/
theorem waiting_call (waits : Waits c q K) (apart : Apart c) (there : c.members[p]? = some M)
    (present : c.zookeeper.owner .master ≠ none) (call : Call m p c.zookeeper M op y N outcome)
    (vigilant : Vigilant m c (.call p op outcome N.session)) :
    y.Guards (switchWatch q K.session) ∨ switchEvent q .deleted ∈ y.events := by
  apply call_guards ⟨present, waits.armed⟩ call
  · rintro rfl
    exact vigilant q K waits
  · exact apart.opened p M there
  · rintro rfl
    by_cases same : K.session = M.session
    · -- the sessions are apart, so it is the slave's own connection
      obtain rfl := apart.distinct q p K M waits.there there same
      obtain rfl : K = M := Option.some.inj (waits.there.symm.trans there)
      exact .inl (vigilant K waits)
    · exact .inr same

theorem attended_call (call : Call m p c.zookeeper M op y N outcome)
    (vigilant : Vigilant m c (.call p op outcome N.session))
    (apart : Apart c) (there : c.members[p]? = some M) (lives : M.live = true)
    (next : M.threads[i]? = some ⟨op :: rest, recovery⟩) (attended : Attended c.zookeeper p M)
    (live : (N.proceed i ⟨op :: rest, recovery⟩ rest outcome).live = true) :
    Attended y p (N.proceed i ⟨op :: rest, recovery⟩ rest outcome) := by
  have promoted (master : M.isMasterStatus = true) : Attended y p (N.proceed i ⟨op :: rest, recovery⟩ rest outcome) :=
    .promoted (proceed_same.2.trans (call_promoted call vigilant there master))
  have threads := (call_threads call).1
  cases attended with
  | promoted master => exact promoted master
  -- the thread that attends is this one or another, which stays as it is
  | @working thread member attends =>
    have split_ : thread ∈ (N.proceed i ⟨op :: rest, recovery⟩ rest outcome).threads ∨
      thread = ⟨op :: rest, recovery⟩ :=
      proceed_others (threads ▸ member) (threads ▸ next)
    obtain stays | rfl := split_
    · exact .working stays attends
    · exact attended_acting call vigilant next attends live
  | told news pending => exact .told news (call_events call pending)
  | watching guards =>
    by_cases master : M.isMasterStatus = true
    · exact promoted master
    -- the watch is kept as long as the node is there and the session is the same
    · have waits : Waits c p M := ⟨there, lives, by simpa using master, guards.armed⟩
      have kept : N.session = M.session := by
        rcases call_session call with ⟨same, -⟩ | ⟨new, -⟩
        · exact same
        · cases call with
          | reconnects => exact vigilant M waits
          | _ => rfl
      -- when the node goes, the watch fires and the member is told
      obtain still | gone := waiting_call waits apart there guards.present call vigilant
      · refine .watching ?_
        rw [proceed_same.1, kept]
        exact still
      · exact .told (.inl rfl) gone

/-! ### Runs -/

/-- Everybody has a session of its own, and every live process is attended. -/
structure Attentive (c : Cluster) : Prop where
  apart : Apart c
  attended : ∀ p M, c.members[p]? = some M → M.live = true → Attended c.zookeeper p M

theorem upgrade_promotes (either : m = .engine ∨ m = .executor) : .setMasterStatus true ∈ m.upgradeToMaster := by
  rcases either with rfl | rfl <;> simp [Manager.engine, Manager.executor]

theorem start_attends (either : m = .engine ∨ m = .executor) (starts : op ∈ m.start) : ¬ op.Attends := by
  rcases either with rfl | rfl
  · obtain rfl : op = .startEngine := List.mem_singleton.mp starts
    simp [Op.Attends]
  · obtain rfl : op = .startReporter := List.mem_singleton.mp starts
    simp [Op.Attends]

/-- The watcher that is told acts on it. -/
theorem process_attends (either : m = .engine ∨ m = .executor) {type : Change}
    (news : type = .deleted ∨ type = .expired) :
    ∃ thread ∈ ((Watcher.statusSwitch .master).process m type).toList, thread.Attends := by
  rcases news with rfl | rfl
  · refine ⟨_, List.mem_singleton.mpr rfl, ⟨_, upgrade_promotes either, .inr (.inl rfl)⟩, ?_⟩
    intro again retries
    cases retries
  · refine ⟨_, List.mem_singleton.mpr rfl, ⟨_, List.mem_cons_of_mem _ List.mem_cons_self, .inr (.inr rfl)⟩, ?_⟩
    intro again retries
    cases retries
    simp

theorem Attended.join (attended : Attended z p M) : Attended z.connect p M := by
  cases attended with
  | promoted master => exact .promoted master
  | working member attends => exact .working member attends
  | told news pending => exact .told news pending
  | watching guards => exact .watching guards.connect

/-- The watch is told of the end of its session, or of the master's. -/
theorem Attended.expire (attended : Attended z p M) (session : N.session = M.session)
    (status : N.isMasterStatus = M.isMasterStatus)
    (threads : ∀ thread ∈ M.threads, thread ∈ N.threads) (ended : Nat) : Attended (z.expire ended) p N := by
  cases attended with
  | promoted master => exact .promoted (status.trans master)
  | working member attends => exact .working (threads _ member) attends
  | told news pending => exact .told news (Registry.fire_events (Registry.fire_events pending))
  | watching guards =>
    by_cases own : M.session = ended
    · subst own
      exact .told (.inr rfl) guards.expired
    · obtain still | gone := guards.expire own
      · rw [← session] at still
        exact .watching still
      · exact .told (.inl rfl) gone

/-- An event that is delivered to the process starts a thread. -/
theorem Attended.deliver (either : m = .engine ∨ m = .executor) {watcher : Watcher} {type : Change}
    (attended : Attended z p M) : Attended { z with events := z.events.erase ⟨(p, watcher), type⟩ } p
      { M with threads := M.threads ++ (watcher.process m type).toList } := by
  cases attended with
  | promoted master => exact .promoted master
  | working member attends => exact .working (List.mem_append_left _ member) attends
  | @told news' news pending =>
    by_cases same : switchEvent p news' = ⟨(p, watcher), type⟩
    · obtain ⟨rfl, rfl⟩ : .statusSwitch .master = watcher ∧ news' = type := by simpa [switchEvent] using same
      obtain ⟨thread, member, attends⟩ := process_attends either news
      exact .working (List.mem_append_right _ member) attends
    · exact .told news ((List.mem_erase_of_ne same).mpr pending)
  | watching guards => exact .watching ⟨guards.present, guards.armed⟩

/-- Events for others are no concern of the process. -/
theorem Attended.undelivered {event : Event (Nat × Watcher)} (attended : Attended z p M)
    (foreign : event.watcher.1 ≠ p) : Attended { z with events := z.events.erase event } p M := by
  cases attended with
  | promoted master => exact .promoted master
  | working member attends => exact .working member attends
  | @told type news pending =>
    have other : switchEvent p type ≠ event := by
      rintro rfl
      exact foreign rfl
    exact .told news ((List.mem_erase_of_ne other).mpr pending)
  | watching guards => exact .watching ⟨guards.present, guards.armed⟩

/-- The calls of others leave a process attended. -/
theorem attended_other (call : Call m p c.zookeeper M op y N outcome)
    (vigilant : Vigilant m c (.call p op outcome N.session))
    (apart : Apart c) (there : c.members[p]? = some M) (present : c.members[q]? = some K) (live : K.live = true)
    (attended : Attended c.zookeeper q K) : Attended y q K := by
  cases attended with
  | promoted master => exact .promoted master
  | working member attends => exact .working member attends
  | told news pending => exact .told news (call_events call pending)
  | watching guards =>
    by_cases master : K.isMasterStatus = true
    · exact .promoted master
    · have waits : Waits c q K := ⟨present, live, by simpa using master, guards.armed⟩
      obtain still | gone := waiting_call waits apart there guards.present call vigilant
      · exact .watching still
      · exact .told (.inl rfl) gone

theorem Step.attentive (step : Step m c a d) (either : m = .engine ∨ m = .executor) (vigilant : Vigilant m c a)
    (attentive : Attentive c) : Attentive d := by
  obtain ⟨apart, attended⟩ := attentive
  cases step with
  | starts =>
    -- a new member begins with the call that makes it master or slave
    refine ⟨apart.join, fun q K after live => ?_⟩
    obtain old | ⟨rfl, rfl⟩ := join_cases after
    · exact (attended q K old live).join
    · refine .working (List.mem_singleton.mpr rfl) ⟨⟨_, List.mem_singleton.mpr rfl, .inl rfl⟩, ?_⟩
      intro again retries
      cases retries
  | @crashes p M there =>
    refine ⟨apart.update there (.inl ⟨rfl, rfl⟩), fun q K after live => ?_⟩
    obtain ⟨rfl, rfl⟩ | ⟨-, after⟩ := set_cases after
    · cases live
    · exact attended q K after live
  -- the expiry of a session adds the thread that connects again
  | expires =>
    refine ⟨apart.expire, fun q K after live => ?_⟩
    obtain ⟨M, there, session, lives, status, threads⟩ := expire_cases after
    refine (attended q M there (lives ▸ live)).expire session status (fun thread member => ?_) _
    rcases threads with same | more
    · exact same ▸ member
    · exact more ▸ List.mem_append_left _ member
  | @delivers p watcher type M there live fired =>
    refine ⟨apart.update there (.inl ⟨rfl, rfl⟩), fun q K after live' => ?_⟩
    obtain ⟨rfl, rfl⟩ | ⟨other, after⟩ := set_cases after
    · exact (attended q M there live).deliver either
    -- the news that is delivered to one member is still pending for the others
    · exact (attended q K after live').undelivered (Ne.symm other)
  | @calls p i op rest recovery z outcome M N there lives next call =>
    constructor
    · refine apart.update there ?_
      rw [proceed_same.1]
      exact call_session call
    · intro q K after live
      obtain ⟨rfl, rfl⟩ | ⟨-, after⟩ := set_cases after
      · exact attended_call call vigilant apart there lives next (attended q M there lives) live
      · exact attended_other call vigilant apart there after live (attended q K after live)

theorem attentive (either : m = .engine ∨ m = .executor)
    (reachable : Reachable (system m) (Vigilant m) c) : Attentive c := by
  refine reachable.invariant ?_ fun _ _ _ attentive vigilant step => Step.attentive step either vigilant attentive
  rintro _ rfl
  exact ⟨⟨nofun, nofun⟩, nofun⟩

/-- A resting process is not at work on its watch, and it is not about to be told. -/
theorem Attentive.neverMisses (either : m = .engine ∨ m = .executor) (attentive : Attentive c) : NeverMisses m c := by
  intro p M resting
  cases attentive.attended p M resting.there resting.live with
  | promoted master => exact .inr master
  | @working thread member attends =>
    obtain ⟨op, inside, isOp⟩ := attends.next
    exact absurd isOp (start_attends either (resting.idle thread member op inside))
  | told news pending => exact absurd rfl (resting.pending _ pending)
  | watching guards => exact .inl guards

/-- The step that ends the master tells the slaves. -/
theorem Attentive.deletionTold (either : m = .engine ∨ m = .executor) (attentive : Attentive c) (step : Step m c a d)
    (vigilant : Vigilant m c a) : DeletionTold m c d := by
  intro present gone p M resting slave alive
  have guards : c.zookeeper.Guards (switchWatch p M.session) := by
    rcases attentive.neverMisses either p M resting with guards | master
    · exact guards
    · rw [slave] at master
      cases master
  have waits : Waits c p M := ⟨resting.there, resting.live, slave, guards.armed⟩
  cases step with
  | @expires session =>
    have other : M.session ≠ session := by
      rintro rfl
      exact alive.2 List.mem_cons_self
    obtain still | told := guards.expire other
    · exact absurd gone still.present
    · exact told
  | calls there lives next call =>
    obtain still | told := waiting_call waits attentive.apart there present call vigilant
    · exact absurd gone still.present
    · exact told
  | _ => exact absurd gone present

/-- In a run in which every slave leaves its watch on a master that is there and nobody
takes the watch from it, a resting slave has the watch, and the end of its master tells it. -/
theorem slave_never_misses (either : m = .engine ∨ m = .executor) (reachable : Reachable (system m) (Vigilant m) c) :
    NeverMisses m c ∧ ∀ a d, Step m c a d → Vigilant m c a → DeletionTold m c d := by
  have known := attentive either reachable
  exact ⟨known.neverMisses either, fun a d step vigilant => known.deletionTold either step vigilant⟩

/-! ### Executors -/

/-- The thread puts no status switch watcher on the master. -/
structure Blind (thread : Thread) : Prop where
  ops : ∀ path, .addWatcher path (.statusSwitch .master) ∉ thread.ops
  retries : ∀ again, thread.recovery = .retry again → ∀ path, .addWatcher path (.statusSwitch .master) ∉ again

/-- No watcher of an executor is for the end of the master. -/
structure Unwatched (c : Cluster) : Prop where
  watchers : c.zookeeper.Only fun watcher => watcher.2 ≠ .statusSwitch .master
  blind : ∀ (p : Nat) (M : Member), c.members[p]? = some M → ∀ thread ∈ M.threads, Blind thread

theorem blind_call (call : Call .executor p z M op y N (.returns rest)) (path : Znode) :
    .addWatcher path (.statusSwitch .master) ∉ rest := by
  cases call with
  | initializesMaster => simp [initializeMaster, Manager.executor]
  | initializesSlave => simp [Manager.executor]
  | setsData _ _ ends | creates _ _ ends | deletes _ _ ends | startsScheduler ends | startsMaster _ ends =>
    obtain rfl : rest = [] := by simpa using ends
    exact List.not_mem_nil
  | _ => simp

theorem only_call {m : Manager} (call : Call m p z M op y N outcome)
    (only : z.Only fun watcher => watcher.2 ≠ .statusSwitch .master)
    (blind : ∀ path, op ≠ .addWatcher path (.statusSwitch .master)) :
    y.Only fun watcher => watcher.2 ≠ .statusSwitch .master := by
  cases call with
  | setsData => exact only.fire
  | creates => exact only.fire
  | @addsWatcher path watcher =>
    apply only.watch
    rintro rfl
    exact blind path rfl
  | deletes => exact only.fire
  | reconnects => exact only.close.connect
  | _ => exact only

theorem process_blind {watcher : Watcher} {type : Change} {thread : Thread} (other : watcher ≠ .statusSwitch .master)
    (starts : thread ∈ (watcher.process .executor type).toList) : Blind thread := by
  have again {ops : List Op} (blind : ∀ path, .addWatcher path (.statusSwitch .master) ∉ ops) :
    Blind ⟨ops, .retry ops⟩ :=
    ⟨blind, fun again same => by cases same; exact blind⟩
  cases watcher <;> cases type <;> simp only [Watcher.process, Option.toList_none, Option.toList_some, List.not_mem_nil,
    List.mem_singleton] at starts <;> subst starts
  · exact again (by simp)
  · exact ⟨by simp [Manager.executor, initializeMaster], fun again same => by cases same⟩
  next path =>
    cases path with
    | master => exact absurd rfl other
    | slave => exact again (by simp)

theorem Step.unwatched (step : Step .executor c a d) (unwatched : Unwatched c) : Unwatched d := by
  obtain ⟨only, blind⟩ := unwatched
  cases step with
  | starts =>
    -- the first thread of a new member sets no watch
    refine ⟨only.connect, fun q K after thread member => ?_⟩
    obtain old | ⟨-, rfl⟩ := join_cases after
    · exact blind q K old thread member
    · obtain rfl := List.mem_singleton.mp member
      exact ⟨by simp, fun again same => by cases same⟩
  | @crashes p M there =>
    refine ⟨only, fun q K after thread member => ?_⟩
    obtain ⟨rfl, rfl⟩ | ⟨-, after⟩ := set_cases after
    · exact blind q M there thread member
    · exact blind q K after thread member
  | expires =>
    -- neither does the thread that connects again
    refine ⟨only.expire, fun q K after thread member => ?_⟩
    obtain ⟨M, there, -, -, -, threads⟩ := expire_cases after
    obtain old | rfl := expired_thread threads member
    · exact blind q M there thread old
    · exact ⟨by simp [reconnectionWatcher], fun again same => by cases same; simp⟩
  | @delivers p watcher type M there live fired =>
    refine ⟨⟨only.watches, fun event pending => only.events event (List.mem_of_mem_erase pending)⟩,
      fun q K after thread member => ?_⟩
    obtain ⟨rfl, rfl⟩ | ⟨-, after⟩ := set_cases after
    · obtain old | new := List.mem_append.mp member
      · exact blind q M there thread old
      · exact process_blind (only.events _ fired) new
    · exact blind q K after thread member
  -- the call is not one that sets a watch, and what it leaves to do has none
  | @calls p i op rest recovery z outcome M N there live next call =>
    have acting := blind p M there _ (List.mem_of_getElem? next)
    refine ⟨only_call call only fun path same =>
      acting.ops path (same ▸ List.mem_cons_self), fun q K after thread member => ?_⟩
    obtain ⟨rfl, rfl⟩ | ⟨-, after⟩ := set_cases after
    · obtain old | ⟨ops, rfl, rfl⟩ | ⟨again, rfl, rfl⟩ := proceed_cases member
      · exact blind q M there thread ((call_threads call).1 ▸ old)
      · refine ⟨fun path inside => ?_, acting.retries⟩
        obtain fresh | kept := List.mem_append.mp inside
        · exact blind_call call path fresh
        · exact acting.ops path (List.mem_cons_of_mem _ kept)
      · exact ⟨acting.retries again rfl, acting.retries⟩
    · exact blind q K after thread member

/-- Whatever happens, an executor that rests as a slave has no watch on its master. -/
theorem executor_unwatched (reachable : Reachable (system .executor) (fun _ _ => True) c) :
    NeverMisses .executor c ↔ ∀ p M, Resting .executor c p M → M.isMasterStatus = true := by
  have unwatched : Unwatched c := by
    refine reachable.invariant ?_ fun _ _ _ unwatched _ step => Step.unwatched step unwatched
    rintro _ rfl
    exact ⟨⟨nofun, nofun⟩, nofun⟩
  constructor
  · intro never p M resting
    rcases never p M resting with guards | master
    · exact absurd rfl (unwatched.watchers.watches _ guards.armed)
    · exact master
  · intro masters p M resting
    exact .inr (masters p M resting)

end Cluster

/-! ### A master and a slave -/

namespace MasterAndSlave

/-- The first process is master. -/
def alone (m : Manager) : Cluster where
  zookeeper :=
    { owner := fun path => if path = .master then some 0 else none
      sessions := 1
      watches := [⟨.master, 0, (0, .node .master)⟩] }
  members := [{ session := 0, threads := [⟨m.start, .exit⟩], isMasterStatus := true }]

theorem alone_reachable (m : Manager) : Reachable (Cluster.system m) (Cluster.Vigilant m) (alone m) := by
  have alive : ({ sessions := 1 } : Zookeeper).Alive 0 := ⟨Nat.zero_lt_one, List.not_mem_nil⟩
  have empty : Reachable (Cluster.system m) (Cluster.Vigilant m) {} := .start rfl
  have starts := empty.next (by trivial) .starts
  have initializes := starts.next (by exact .inr (.inl rfl))
    (.calls (p := 0) (i := 0) rfl rfl rfl (.initializesMaster alive rfl))
  have finds := initializes.next (by trivial) (.calls (p := 0) (i := 0) rfl rfl rfl (.findsNone alive rfl))
  have creates := finds.next (by trivial) (.calls (p := 0) (i := 0) rfl rfl rfl (.creates alive rfl (.inl rfl)))
  have watches := creates.next (by trivial) (.calls (p := 0) (i := 0) rfl rfl rfl (.addsWatcher alive))
  have sets := watches.next (by trivial) (.calls (p := 0) (i := 0) rfl rfl rfl .setsMasterStatus)
  unfold alone
  rw [← List.append_nil m.start]
  exact sets

/-- The second process has its slave znode and is about to leave the watch. -/
def following : Cluster where
  zookeeper :=
    { owner := fun path => if path = .slave then some 1 else if path = .master then some 0 else none
      sessions := 2
      watches := [⟨.master, 0, (0, .node .master)⟩, ⟨.slave, 1, (1, .node .slave)⟩] }
  members := (alone .engine).members ++
    [{ session := 1
       threads := [⟨[.addWatcher .master (.statusSwitch .master), .setMasterStatus false, .startEngine], .exit⟩] }]

theorem following_reachable : Reachable (Cluster.system .engine) (Cluster.Vigilant .engine) following := by
  have starts := (alone_reachable .engine).next (by trivial) .starts
  have initializes := starts.next (by exact .inr (.inr (by decide)))
    (.calls (p := 1) (i := 0) rfl rfl rfl (.initializesSlave (by decide) (by decide)))
  have finds := initializes.next (by trivial) (.calls (p := 1) (i := 0) rfl rfl rfl (.findsNone (by decide) rfl))
  have creates := finds.next (by trivial) (.calls (p := 1) (i := 0) rfl rfl rfl (.creates (by decide) rfl (.inl rfl)))
  have watches := creates.next (by trivial) (.calls (p := 1) (i := 0) rfl rfl rfl (.addsWatcher (by decide)))
  exact watches

/-- The slave has its watch. -/
def watching : Cluster where
  zookeeper := following.zookeeper.watch .master 1 (1, .statusSwitch .master)
  members := (alone .engine).members ++ [{ session := 1, threads := [⟨[.startEngine], .exit⟩] }]

theorem watching_reachable : Reachable (Cluster.system .engine) (Cluster.Vigilant .engine) watching := by
  have watches := following_reachable.next (by exact .inr (by decide))
    (.calls (p := 1) (i := 0) rfl rfl rfl (.addsWatcher (by decide)))
  have sets := watches.next (by rintro M ⟨⟩; rfl) (.calls (p := 1) (i := 0) rfl rfl rfl .setsMasterStatus)
  exact sets

/-- A slave that has only its service to start rests. -/
def slave (m : Manager) : Member := { session := 1, threads := [⟨m.start, .exit⟩] }

theorem slave_resting {m : Manager} {c : Cluster} (there : c.members[1]? = some (slave m)) (alive : c.zookeeper.Alive 1)
    (quiet : ∀ event ∈ c.zookeeper.events, event.watcher.1 ≠ 1) : Cluster.Resting m c 1 (slave m) where
  there := there
  live := rfl
  alive := alive
  pending := quiet
  idle thread member op inside := by
    obtain rfl := List.mem_singleton.mp member
    exact inside

/-- The master has gone before the slave left its watch. -/
def abandoned : Cluster where
  zookeeper := (following.zookeeper.expire 0).watch .master 1 (1, .statusSwitch .master)
  members :=
    [{ session := 0, live := false, threads := [⟨[.startEngine], .exit⟩, reconnectionWatcher], isMasterStatus := true },
      slave .engine]

theorem abandoned_reachable : Reachable (Cluster.system .engine) (fun _ _ => True) abandoned := by
  have follows : Reachable (Cluster.system .engine) (fun _ _ => True) following :=
    following_reachable.mono fun _ _ _ => trivial
  have crashes := follows.next trivial (.crashes (p := 0) rfl)
  have alive : following.zookeeper.Alive 0 := by decide
  have expires := crashes.next trivial (.expires alive)
  have watches := expires.next trivial (.calls (p := 1) (i := 0) rfl rfl rfl (.addsWatcher (by decide)))
  have sets := watches.next trivial (.calls (p := 1) (i := 0) rfl rfl rfl .setsMasterStatus)
  exact sets

/-- The executor's slave has put its watch on its own znode. -/
def unwatched : Cluster where
  zookeeper :=
    { owner := fun path => if path = .slave then some 1 else if path = .master then some 0 else none
      sessions := 2
      watches :=
        [⟨.master, 0, (0, .node .master)⟩, ⟨.slave, 1, (1, .node .slave)⟩, ⟨.slave, 1, (1, .statusSwitch .slave)⟩] }
  members := (alone .executor).members ++ [slave .executor]

theorem unwatched_reachable : Reachable (Cluster.system .executor) (fun _ _ => True) unwatched := by
  have elected : Reachable (Cluster.system .executor) (fun _ _ => True) (alone .executor) :=
    (alone_reachable .executor).mono fun _ _ _ => trivial
  have starts := elected.next trivial .starts
  have initializes := starts.next trivial
    (.calls (p := 1) (i := 0) rfl rfl rfl (.initializesSlave (by decide) (by decide)))
  have finds := initializes.next trivial (.calls (p := 1) (i := 0) rfl rfl rfl (.findsNone (by decide) rfl))
  have creates := finds.next trivial (.calls (p := 1) (i := 0) rfl rfl rfl (.creates (by decide) rfl (.inl rfl)))
  have watches := creates.next trivial (.calls (p := 1) (i := 0) rfl rfl rfl (.addsWatcher (by decide)))
  have switches := watches.next trivial (.calls (p := 1) (i := 0) rfl rfl rfl (.addsWatcher (by decide)))
  have sets := switches.next trivial (.calls (p := 1) (i := 0) rfl rfl rfl .setsMasterStatus)
  exact sets

end MasterAndSlave

theorem slave_never_misses_watching : ∃ c, Reachable (Cluster.system .engine) (Cluster.Vigilant .engine) c ∧
    Cluster.Resting .engine c 1 (MasterAndSlave.slave .engine) ∧ Cluster.NeverMisses .engine c ∧
      ∀ d, Cluster.Step .engine c (.expire 0) d → switchEvent 1 .deleted ∈ d.zookeeper.events := by
  have resting : Cluster.Resting .engine MasterAndSlave.watching 1 (MasterAndSlave.slave .engine) :=
    MasterAndSlave.slave_resting rfl (by decide) nofun
  obtain ⟨never, told⟩ := Cluster.slave_never_misses (.inl rfl) MasterAndSlave.watching_reachable
  refine ⟨_, MasterAndSlave.watching_reachable, resting, never, fun d step => ?_⟩
  have deletion := told _ d step trivial
  cases step
  exact deletion (by decide) (by decide) 1 _ resting rfl (by decide)

/-- An engine that finds its master gone when it comes to watch it waits for ever, and so does
every executor. -/
theorem slaves_unwarned : Reachable (Cluster.system .engine) (fun _ _ => True) MasterAndSlave.abandoned ∧
    ¬ Cluster.NeverMisses .engine MasterAndSlave.abandoned ∧
      Reachable (Cluster.system .executor) (fun _ _ => True) MasterAndSlave.unwatched ∧
        ¬ Cluster.NeverMisses .executor MasterAndSlave.unwatched := by
  refine ⟨MasterAndSlave.abandoned_reachable, fun never => ?_, MasterAndSlave.unwatched_reachable, fun never => ?_⟩
  · rcases never 1 _ (MasterAndSlave.slave_resting rfl (by decide) (by decide)) with guards | master
    · exact guards.present (by decide)
    · cases master
  · rcases never 1 _ (MasterAndSlave.slave_resting rfl (by decide) nofun) with guards | master
    · have armed := guards.armed
      simp [MasterAndSlave.unwatched, switchWatch, MasterAndSlave.slave] at armed
    · cases master

end Hella

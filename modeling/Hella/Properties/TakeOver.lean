import Hella.Lib.Simulation
import Hella.Properties.Vigilance

/-!
# A standby takes over a vacant place

An engine whose `initialize` has found the master znode stays a standby until it is told that
the znode has been deleted, and it is told so only when the znode was gone in the meantime. No
failed call, expired session or reconnection promotes it, and no other process does.
-/
namespace Hella

open Ephemeral Runs

variable {p q session : Nat} {M N : Member} {y z : Zookeeper} {op : Op} {outcome : Outcome}
  {type : Change} {P : Op → Prop}
  {thread : Thread} {m : Manager}

/-- All operations of the thread, also those it starts over with. -/
structure Thread.All (P : Op → Prop) (thread : Thread) : Prop where
  ops : ∀ op ∈ thread.ops, P op
  retries : ∀ again, thread.recovery = .retry again → ∀ op ∈ again, P op

/-- What a standby has to do. -/
def Op.Modest : Op → Prop
  | .initialize_ | .startScheduler | .startReporter => False
  | .setMasterStatus status => status = false
  | .addWatcher path (.statusSwitch other) => path = .master ∧ other = .master
  | _ => True

/-- The status switch watchers of the process are for the master znode. -/
structure Faithful (z : Zookeeper) (p : Nat) : Prop where
  watches : ∀ w ∈ z.watches, w.watcher.1 = p → ∀ path, w.watcher.2 = .statusSwitch path →
    path = .master ∧ w.path = .master
  events : ∀ event ∈ z.events, event.watcher.1 = p → ∀ path, event.watcher.2 = .statusSwitch path → path = .master

/-- The process is not about to learn that the master znode has been deleted. -/
def Untold (z : Zookeeper) (p : Nat) : Prop := switchEvent p .deleted ∉ z.events

/-! ### Threads -/

theorem Thread.All.mono {Q : Op → Prop} (all : thread.All P) (weaker : ∀ op, P op → Q op) : thread.All Q :=
  ⟨fun op inside => weaker op (all.ops op inside), fun again same op inside =>
    weaker op (all.retries again same op inside)⟩

/-- A thread that starts over as it has begun. -/
theorem all_retry {ops : List Op} (all : ∀ op ∈ ops, P op) : Thread.All P ⟨ops, .retry ops⟩ :=
  ⟨all, fun again same => by cases same; exact all⟩

theorem all_reconnection (reconnects : P .reconnect) : reconnectionWatcher.All P := by
  apply all_retry
  simpa using reconnects

/-! ### Watchers -/

/-- A call leaves no watcher but the one it adds. -/
theorem call_only {P : Nat × Watcher → Prop} (call : Call m p z M op y N outcome) (only : z.Only P)
    (own : ∀ path watcher, op = .addWatcher path watcher → P (p, watcher)) : y.Only P := by
  cases call with
  | setsData => exact only.fire
  | creates => exact only.fire
  | addsWatcher => exact only.watch (own _ _ rfl)
  | deletes => exact only.fire
  | reconnects => exact only.close.connect
  | _ => exact only

theorem Faithful.of_only (only : z.Only fun watcher => watcher.1 ≠ p) : Faithful z p :=
  ⟨fun w armed own => absurd own (only.watches w armed), fun event pending own =>
    absurd own (only.events event pending)⟩

theorem Faithful.fire (faithful : Faithful z p) {owner : Znode → Option Nat} {ended : List Nat}
    {fires : Watch Znode (Nat × Watcher) → Bool} :
      Faithful ({ z with owner := owner, ended := ended }.fire type fires) p where
  watches w armed := faithful.watches w (List.mem_filter.mp armed).1
  events event pending own path switch := by
    rcases List.mem_append.mp pending with old | new
    · exact faithful.events event old own path switch
    · obtain ⟨w, selected, rfl⟩ := List.mem_map.mp new
      exact (faithful.watches w (List.mem_filter.mp selected).1 own path switch).1

theorem Faithful.expire (faithful : Faithful z p) : Faithful (z.expire session) p := by
  have ended : Faithful (z.endSession session) p := faithful.fire
  exact ended.fire

theorem Faithful.call (faithful : Faithful z p) (call : Call m q z M op y N outcome) (modest : q = p → op.Modest) :
    Faithful y p := by
  cases call with
  | setsData => exact faithful.fire
  | creates => exact faithful.fire
  | deletes => exact faithful.fire
  | @addsWatcher path watcher =>
    refine ⟨fun w armed own other switch => ?_, faithful.events⟩
    rcases List.mem_append.mp armed with old | last
    · exact faithful.watches w old own other switch
    · obtain rfl := List.mem_singleton.mp last
      obtain rfl : watcher = .statusSwitch other := switch
      obtain ⟨same, rfl⟩ : path = .master ∧ other = .master := modest own
      exact ⟨rfl, same⟩
  | reconnects =>
    have ended : Faithful (z.endSession M.session) p := faithful.fire
    exact ⟨fun w armed => ended.watches w (List.mem_filter.mp armed).1, ended.events⟩
  | _ => exact faithful

/-- It is not the master znode that is deleted. -/
theorem Untold.fire (untold : Untold z p) (faithful : Faithful z p) {owner : Znode → Option Nat} {ended : List Nat}
    {fires : Watch Znode (Nat × Watcher) → Bool} (spared : type = .deleted → ∀ w, fires w = true → w.path ≠ .master) :
    Untold ({ z with owner := owner, ended := ended }.fire type fires) p := by
  intro pending
  rcases List.mem_append.mp pending with old | new
  · exact untold old
  · obtain ⟨w, selected, same⟩ := List.mem_map.mp new
    obtain ⟨armed, fired⟩ := List.mem_filter.mp selected
    have own : w.watcher = (p, .statusSwitch .master) := congrArg Event.watcher same
    have deleted : type = .deleted := congrArg Event.type same
    have at_ : w.path = .master := (faithful.watches w armed (congrArg Prod.fst own) .master (congrArg Prod.snd own)).2
    exact spared deleted w fired at_

theorem Untold.endSession (untold : Untold z p) (faithful : Faithful z p) (session : Nat) :
    Untold (z.endSession session) p ∨ z.owner .master = some session := by
  by_cases owned : z.owner .master = some session
  · exact .inr owned
  · left
    apply untold.fire faithful
    rintro - w fired at_
    rw [at_] at fired
    exact owned (by simpa using (Bool.and_eq_true_iff.mp fired).1)

theorem Untold.expire (untold : Untold z p) (faithful : Faithful z p) (session : Nat) :
    Untold (z.expire session) p ∨ (z.expire session).owner .master = none := by
  rcases untold.endSession faithful session with kept | owned
  · have ended : Faithful (z.endSession session) p := faithful.fire
    exact .inl (kept.fire ended nofun)
  · right
    rw [Registry.owner_expire, if_pos owned]

/-- Only a call that ends the master znode tells of its deletion. -/
theorem Untold.call (untold : Untold z p) (faithful : Faithful z p) (call : Call m q z M op y N outcome) :
    Untold y p ∨ y.owner .master = none := by
  cases call with
  | setsData => exact .inl (untold.fire faithful nofun)
  | creates => exact .inl (untold.fire faithful nofun)
  | @deletes path =>
    cases path with
    | master => exact .inr rfl
    | slave => exact .inl (untold.fire faithful fun _ w fired at_ => by simp [at_] at fired)
  | reconnects =>
    rcases untold.endSession faithful M.session with kept | owned
    · exact .inl kept
    · right
      change (z.close M.session).owner .master = none
      rw [Registry.owner_close, if_pos owned]
  | _ => exact .inl untold

namespace Cluster

variable {b c d : Cluster} {a : ClusterAction} {i : Nat} {rest : List Op} {recovery : Recovery}
  {labels : List ClusterAction}

/-! ### What a step does to one process -/

inductive Turn (m : Manager) (c : Cluster) (a : ClusterAction) (d : Cluster) (p : Nat) (M : Member) :
  Member → Prop where
  | stays : Turn m c a d p M M
  | crashes : Turn m c a d p M { M with live := false }
  | expires : Turn m c a d p M { M with threads := M.threads ++ [reconnectionWatcher] }
  | delivers {watcher : Watcher} {type : Change} (label : a = .deliver p watcher type)
      (fired : ⟨(p, watcher), type⟩ ∈ c.zookeeper.events) :
      Turn m c a d p M { M with threads := M.threads ++ (watcher.process m type).toList }
  | calls {i : Nat} {op : Op} {rest : List Op} {recovery : Recovery} {outcome : Outcome} {N : Member}
      (next : N.threads[i]? = some ⟨op :: rest, recovery⟩)
      (call : Call m p c.zookeeper M op d.zookeeper N outcome) :
      Turn m c a d p M (N.proceed i ⟨op :: rest, recovery⟩ rest outcome)

theorem Step.turn (step : Step m c a d) (here : c.members[p]? = some M) :
    ∃ N, d.members[p]? = some N ∧ Turn m c a d p M N := by
  have set_there {N : Member} : (c.members.set p N)[p]? = some N :=
    List.getElem?_set_self (List.getElem?_eq_some_iff.mp here).1
  have set_other {q : Nat} {N : Member} (other : q ≠ p) : (c.members.set q N)[p]? = some M := by
    rw [List.getElem?_set_ne other, here]
  cases step with
  | starts =>
    refine ⟨M, ?_, .stays⟩
    rw [List.getElem?_append_left (List.getElem?_eq_some_iff.mp here).1, here]
  | @crashes q K there =>
    by_cases same : q = p
    · subst same
      obtain rfl : K = M := Option.some.inj (there.symm.trans here)
      exact ⟨_, set_there, .crashes⟩
    · exact ⟨M, set_other same, .stays⟩
  | @expires session =>
    refine ⟨_, by rw [List.getElem?_map, here]; rfl, ?_⟩
    dsimp only
    split
    · exact .expires
    · exact .stays
  | @delivers q watcher type K there live fired =>
    by_cases same : q = p
    · subst same
      obtain rfl : K = M := Option.some.inj (there.symm.trans here)
      exact ⟨_, set_there, .delivers rfl fired⟩
    · exact ⟨M, set_other same, .stays⟩
  | @calls q i op rest recovery z outcome K N there live next call =>
    by_cases same : q = p
    · subst same
      obtain rfl : K = M := Option.some.inj (there.symm.trans here)
      exact ⟨_, set_there, .calls ((call_threads call).1 ▸ next) call⟩
    · exact ⟨M, set_other same, .stays⟩

theorem proceed_started {thread : Thread} : (N.proceed i thread rest outcome).started = N.started := by
  unfold Member.proceed
  split
  · rfl
  · split <;> rfl

/-- What a call returns is done next, and the rest of the thread after it. -/
theorem proceed_all (threads : ∀ thread ∈ N.threads, thread.All P) (next : N.threads[i]? = some ⟨op :: rest, recovery⟩)
    (fresh : ∀ ops, outcome = .returns ops → ∀ op ∈ ops, P op) :
    ∀ thread ∈ (N.proceed i ⟨op :: rest, recovery⟩ rest outcome).threads, thread.All P := by
  have acting := threads _ (List.mem_of_getElem? next)
  intro thread member
  obtain old | ⟨ops, rfl, rfl⟩ | ⟨again, rfl, rfl⟩ := proceed_cases member
  · exact threads thread old
  · refine ⟨fun op inside => ?_, acting.retries⟩
    rcases List.mem_append.mp inside with new | kept
    · exact fresh ops rfl op new
    · exact acting.ops op (List.mem_cons_of_mem _ kept)
  · exact ⟨acting.retries again rfl, acting.retries⟩

/-- The threads of a process over a turn. -/
theorem Turn.all (turn : Turn m c a d p M N) (threads : ∀ thread ∈ M.threads, thread.All P) (reconnects : P .reconnect)
    (told : ∀ watcher type, a = .deliver p watcher type → ⟨(p, watcher), type⟩ ∈ c.zookeeper.events →
      ∀ thread ∈ (watcher.process m type).toList, thread.All P)
    (fresh : ∀ op ops z N, P op → Call m p c.zookeeper M op z N (.returns ops) → ∀ op ∈ ops, P op) :
    ∀ thread ∈ N.threads, thread.All P := by
  cases turn with
  | stays => exact threads
  | crashes => exact threads
  | expires =>
    intro thread member
    rcases List.mem_append.mp member with old | new
    · exact threads thread old
    · rw [List.mem_singleton.mp new]
      exact all_reconnection reconnects
  | delivers label fired =>
    intro thread member
    rcases List.mem_append.mp member with old | new
    · exact threads thread old
    · exact told _ _ label fired thread new
  | calls next call =>
    rw [← (call_threads call).1] at threads
    have acting : P _ := (threads _ (List.mem_of_getElem? next)).ops _ List.mem_cons_self
    apply proceed_all threads next
    rintro ops rfl
    exact fresh _ ops _ _ acting call

/-! ### A standby stays one until it is told -/

/-- Nothing that the process still has to do makes it master. -/
structure StandsBy (c : Cluster) (p : Nat) (M : Member) : Prop where
  there : c.members[p]? = some M
  status : M.isMasterStatus = false
  started : M.started = false
  threads : ∀ thread ∈ M.threads, thread.All Op.Modest
  faithful : Faithful c.zookeeper p

/-- An event starts no more than a renewal of the watch, unless it is the deletion of the master znode. -/
theorem process_modest {watcher : Watcher} (faithful : ∀ path, watcher = .statusSwitch path → path = .master)
    (other : watcher = .statusSwitch .master → type ≠ .deleted)
    (starts : thread ∈ (watcher.process .engine type).toList) :
    thread.All Op.Modest := by
  cases watcher with
  | node path =>
    cases type <;> simp only [Watcher.process, Option.toList_none, Option.toList_some, List.not_mem_nil,
      List.mem_singleton] at starts
    subst starts
    apply all_retry
    simp [Op.Modest]
  | statusSwitch path =>
    obtain rfl := faithful path rfl
    cases type <;> simp only [Watcher.process, Option.toList_none, Option.toList_some, List.not_mem_nil,
      List.mem_singleton] at starts
    · exact absurd rfl (other rfl)
    · subst starts
      apply all_retry
      simp [Op.Modest]

/-- What the calls of a standby return to it is modest too. -/
theorem call_modest {ops : List Op} (call : Call .engine p z M op y N (.returns ops)) (modest : op.Modest) :
    ∀ op ∈ ops, op.Modest := by
  cases call with
  | initializesMaster | initializesSlave => exact modest.elim
  | findsNode | findsNone => simp [Op.Modest]
  | setsData _ _ ends | creates _ _ ends | deletes _ _ ends | startsScheduler ends | startsMaster _ ends =>
    obtain rfl : ops = [] := by simpa using ends
    exact nofun
  | _ => exact nofun

theorem call_passive (call : Call .engine p z M op y N outcome) (modest : op.Modest) (status : M.isMasterStatus = false)
    (started : M.started = false) : N.isMasterStatus = false ∧ N.started = false := by
  cases call with
  | startsScheduler | startsReporter => exact modest.elim
  -- the engine starts its scheduler only as the master
  | startsMaster master => cases status.symm.trans master
  | setsMasterStatus => exact ⟨modest, started⟩
  | _ => exact ⟨status, started⟩

theorem StandsBy.faithful_step (stands : StandsBy c p M) (step : Step .engine c a d) : Faithful d.zookeeper p := by
  have kept := stands.faithful
  cases step with
  | starts => exact ⟨kept.watches, kept.events⟩
  | crashes => exact kept
  | expires => exact kept.expire
  | delivers => exact ⟨kept.watches, fun event pending => kept.events event (List.mem_of_mem_erase pending)⟩
  | calls there live next call =>
    apply kept.call call
    rintro rfl
    obtain rfl := Option.some.inj (there.symm.trans stands.there)
    exact (stands.threads _ (List.mem_of_getElem? next)).ops _ List.mem_cons_self

theorem StandsBy.step (stands : StandsBy c p M) (step : Step .engine c a d)
    (untold : a ≠ .deliver p (.statusSwitch .master) .deleted) : ∃ N, StandsBy d p N := by
  obtain ⟨N, there, turn⟩ := step.turn stands.there
  have threads : ∀ thread ∈ N.threads, thread.All Op.Modest := by
    apply turn.all stands.threads trivial
    · rintro watcher type rfl fired thread starts
      refine process_modest (stands.faithful.events _ fired rfl) ?_ starts
      rintro rfl rfl
      exact untold rfl
    · intro op ops z N modest call
      exact call_modest call modest
  have passive : N.isMasterStatus = false ∧ N.started = false := by
    cases turn with
    | calls next call =>
      rw [(call_threads call).1] at next
      have modest := (stands.threads _ (List.mem_of_getElem? next)).ops _ List.mem_cons_self
      rw [proceed_same.2, proceed_started]
      exact call_passive call modest stands.status stands.started
    | _ => exact ⟨stands.status, stands.started⟩
  exact ⟨N, there, passive.1, passive.2, threads, stands.faithful_step step⟩

/-- The deletion is told only when the master znode is gone. -/
theorem StandsBy.untold_step (stands : StandsBy c p M) (step : Step .engine c a d) (untold : Untold c.zookeeper p) :
    Untold d.zookeeper p ∨ d.zookeeper.owner .master = none := by
  cases step with
  | starts => exact .inl untold
  | crashes => exact .inl untold
  | expires => exact untold.expire stands.faithful _
  | delivers => exact .inl fun pending => untold (List.mem_of_mem_erase pending)
  | calls there live next call => exact untold.call stands.faithful call

/-- A standby that is not told of the end of the master znode stays one. -/
theorem StandsBy.path (path : Path (Step .engine) c labels d)
    (untold : .deliver p (.statusSwitch .master) .deleted ∉ labels)
    (stands : ∃ M, StandsBy c p M) : ∃ M, StandsBy d p M := by
  apply path.invariant (I := fun c => ∃ M, StandsBy c p M) ?_ stands
  rintro a member c d ⟨M, stands⟩ step
  apply stands.step step
  rintro rfl
  exact untold member

/-- Before a standby is told, the master znode has been gone. -/
theorem StandsBy.vacated (path : Path (Step .engine) c labels d) (stands : StandsBy c p M)
    (untold : Untold c.zookeeper p) :
    (∃ N, StandsBy d p N) ∨ ∃ before after mid, labels = before ++ after ∧ Path (Step .engine) c before mid ∧
      Path (Step .engine) mid after d ∧ mid.zookeeper.owner .master = none ∧ ∃ N, StandsBy mid p N := by
  have split := path.invariant_or (I := fun c => Untold c.zookeeper p ∧ ∃ N, StandsBy c p N)
    (Q := fun c => c.zookeeper.owner .master = none ∧ ∃ N, StandsBy c p N) ?_ ⟨untold, M, stands⟩
  · exact split.imp_left And.right
  · rintro c a d ⟨untold, M, stands⟩ step
    have still : ∃ N, StandsBy d p N := by
      apply stands.step step
      -- the deletion cannot be delivered, as it has not been told
      rintro rfl
      cases step with
      | delivers there live fired => exact untold fired
    exact (stands.untold_step step untold).imp (fun kept => ⟨kept, still⟩) fun gone => ⟨gone, still⟩

/-! ### Before a process initializes -/

/-- It has left no watcher, and may have to reconnect. -/
structure Unready (z : Zookeeper) (p : Nat) (M : Member) : Prop where
  status : M.isMasterStatus = false
  started : M.started = false
  threads : ∃ others, M.threads = ⟨[.initialize_], .exit⟩ :: others ∧ ∀ thread ∈ others, thread.All (· = .reconnect)
  unknown : z.Only fun watcher => watcher.1 ≠ p

/-- A process has its `initialize` before it or will not call it any more. -/
structure Beginning (c : Cluster) : Prop where
  known : c.zookeeper.Only fun watcher => watcher.1 < c.members.length
  begun : ∀ (p : Nat) (M : Member), c.members[p]? = some M →
    Unready c.zookeeper p M ∨ ∀ thread ∈ M.threads, thread.All (· ≠ .initialize_)

theorem process_begun {watcher : Watcher} (starts : thread ∈ (watcher.process .engine type).toList) :
    thread.All (· ≠ .initialize_) := by
  cases watcher <;> cases type <;> simp only [Watcher.process, Option.toList_none, Option.toList_some, List.not_mem_nil,
    List.mem_singleton] at starts <;> subst starts
  · exact all_retry (by simp)
  · exact ⟨by simp [Manager.engine, initializeMaster], fun again same => by cases same⟩
  · exact all_retry (by simp)

theorem call_begun {ops : List Op} (call : Call .engine p z M op y N (.returns ops)) :
    ∀ op ∈ ops, op ≠ .initialize_ := by
  cases call with
  | initializesMaster => simp [initializeMaster, Manager.engine]
  | initializesSlave => simp [Manager.engine]
  | findsNode | findsNone => simp
  | setsData _ _ ends | creates _ _ ends | deletes _ _ ends | startsScheduler ends | startsMaster _ ends =>
    obtain rfl : ops = [] := by simpa using ends
    simp
  | _ => simp

theorem Step.known (step : Step m c a d) (known : c.zookeeper.Only fun watcher => watcher.1 < c.members.length) :
    d.zookeeper.Only fun watcher => watcher.1 < d.members.length := by
  cases step with
  | starts =>
    refine known.connect.mono fun watcher bound => ?_
    rw [List.length_append]
    exact Nat.lt_add_right _ bound
  | crashes => simpa using known
  | expires => simpa using known.expire
  | delivers =>
    rw [List.length_set]
    exact ⟨known.watches, fun event pending => known.events event (List.mem_of_mem_erase pending)⟩
  | calls there live next call =>
    rw [List.length_set]
    exact call_only call known fun _ _ _ => (List.getElem?_eq_some_iff.mp there).1

/-- What an unready process can call. -/
theorem Unready.next (unready : Unready z p M) (next : M.threads[i]? = some ⟨op :: rest, recovery⟩) :
    (i = 0 ∧ op = .initialize_ ∧ rest = [] ∧ recovery = .exit) ∨ ∃ j, i = j + 1 ∧ op = .reconnect := by
  obtain ⟨others, threads, reconnect⟩ := unready.threads
  rw [threads] at next
  cases i with
  | zero =>
    rw [List.getElem?_cons_zero, Option.some.injEq] at next
    cases next
    exact .inl ⟨rfl, rfl, rfl, rfl⟩
  | succ j =>
    rw [List.getElem?_cons_succ] at next
    exact .inr ⟨j, rfl, (reconnect _ (List.mem_of_getElem? next)).ops op List.mem_cons_self⟩

theorem Unready.unknown_step (unready : Unready c.zookeeper p M) (here : c.members[p]? = some M)
    (step : Step .engine c a d) : d.zookeeper.Only fun watcher => watcher.1 ≠ p := by
  have unknown := unready.unknown
  cases step with
  | starts => exact unknown.connect
  | crashes => exact unknown
  | expires => exact unknown.expire
  | delivers => exact ⟨unknown.watches, fun event pending => unknown.events event (List.mem_of_mem_erase pending)⟩
  | calls there live next call =>
    apply call_only call unknown
    rintro path watcher rfl rfl
    obtain rfl := Option.some.inj (there.symm.trans here)
    rcases unready.next next with ⟨-, adds, -⟩ | ⟨j, -, adds⟩ <;> cases adds

/-- The reconnections go on beside the main thread. -/
theorem Unready.reconnects (unready : Unready z p M) {j : Nat}
    (next : M.threads[j + 1]? = some ⟨.reconnect :: rest, recovery⟩)
    (call : Call m p z M .reconnect y N outcome) (unknown : y.Only fun watcher => watcher.1 ≠ p) :
    Unready y p (N.proceed (j + 1) ⟨.reconnect :: rest, recovery⟩ rest outcome) := by
  obtain ⟨others, threads, reconnect⟩ := unready.threads
  have acting : Thread.All (· = .reconnect) ⟨.reconnect :: rest, recovery⟩ := by
    rw [threads, List.getElem?_cons_succ] at next
    exact reconnect _ (List.mem_of_getElem? next)
  have same : N.isMasterStatus = M.isMasterStatus ∧ N.started = M.started := by
    cases call <;> exact ⟨rfl, rfl⟩
  refine ⟨proceed_same.2.trans (same.1.trans unready.status),
    proceed_started.trans (same.2.trans unready.started), ?_, unknown⟩
  have set_ (ops : List Op) (renewal : ∀ op ∈ ops, op = .reconnect) :
      ∃ others, N.threads.set (j + 1) ⟨ops, recovery⟩ = ⟨[.initialize_], .exit⟩ :: others ∧
        ∀ thread ∈ others, thread.All (· = .reconnect) := by
    rw [(call_threads call).1, threads, List.set_cons_succ]
    refine ⟨_, rfl, fun thread member => ?_⟩
    rcases List.mem_or_eq_of_mem_set member with old | rfl
    · exact reconnect thread old
    · exact ⟨renewal, acting.retries⟩
  cases outcome with
  | throws =>
    cases recovery with
    | exit => exact ⟨others, (call_threads call).1.trans threads, reconnect⟩
    | retry again => exact set_ again (acting.retries again rfl)
  | returns ops =>
    apply set_
    have nothing : ops = [] := by cases call <;> rfl
    subst nothing
    exact fun op inside => acting.ops op (List.mem_cons_of_mem _ inside)

theorem call_initialize_throws (call : Call m p z M .initialize_ y N .throws) : N = M := by
  cases call
  rfl

theorem Unready.step (unready : Unready c.zookeeper p M) (here : c.members[p]? = some M) (step : Step .engine c a d)
    (turn : Turn .engine c a d p M N) : Unready d.zookeeper p N ∨ ∀ thread ∈ N.threads,
      thread.All (· ≠ .initialize_) := by
  have unknown := unready.unknown_step here step
  obtain ⟨others, threads, reconnect⟩ := unready.threads
  cases turn with
  | stays => exact .inl ⟨unready.status, unready.started, unready.threads, unknown⟩
  | crashes => exact .inl ⟨unready.status, unready.started, unready.threads, unknown⟩
  | expires =>
    refine .inl ⟨unready.status, unready.started,
      ⟨others ++ [reconnectionWatcher], ?_, fun thread member => ?_⟩, unknown⟩
    · rw [threads, List.cons_append]
    · rcases List.mem_append.mp member with old | new
      · exact reconnect thread old
      · rw [List.mem_singleton.mp new]
        exact all_reconnection rfl
  -- it has no watcher to which an event could be delivered
  | delivers label fired => exact absurd rfl (unready.unknown.events _ fired)
  | @calls i op rest recovery outcome K next call =>
    rw [(call_threads call).1] at next
    obtain ⟨rfl, rfl, rfl, rfl⟩ | ⟨j, rfl, rfl⟩ := unready.next next
    · cases outcome with
      | throws =>
        obtain rfl := call_initialize_throws call
        exact .inl ⟨unready.status, unready.started, unready.threads, unknown⟩
      | returns ops =>
        right
        intro thread member
        have member : thread ∈ K.threads.set 0 ⟨ops ++ [], .exit⟩ := member
        rw [(call_threads call).1, threads, List.set_cons_zero, List.append_nil] at member
        rcases List.mem_cons.mp member with rfl | other
        · exact ⟨call_begun call, nofun⟩
        · exact (reconnect thread other).mono fun op same => by simp [same]
    · exact .inl (unready.reconnects next call unknown)

/-- A process appears only by being started. -/
theorem Step.newcomer (step : Step m c a d) (missing : c.members[p]? = none) (there : d.members[p]? = some N) :
    p = c.members.length ∧ N = .new c.zookeeper.sessions ∧ d.zookeeper = c.zookeeper.connect := by
  cases step with
  | starts =>
    obtain old | ⟨here, new⟩ := join_cases there
    · cases missing.symm.trans old
    · exact ⟨here, new, rfl⟩
  | expires =>
    rw [List.getElem?_map, missing] at there
    cases there
  | crashes other | delivers other | calls other =>
    obtain ⟨rfl, -⟩ | ⟨-, old⟩ := set_cases there
    · cases missing.symm.trans other
    · cases missing.symm.trans old

theorem Step.beginning (step : Step .engine c a d) (beginning : Beginning c) : Beginning d := by
  refine ⟨step.known beginning.known, fun p N there => ?_⟩
  rcases before : c.members[p]? with - | M
  · obtain ⟨rfl, rfl, connected⟩ := step.newcomer before there
    left
    rw [connected]
    exact ⟨rfl, rfl, ⟨[], rfl, nofun⟩, beginning.known.connect.mono fun watcher bound => Nat.ne_of_lt bound⟩
  · obtain ⟨K, after, turn⟩ := step.turn before
    obtain rfl := Option.some.inj (there.symm.trans after)
    rcases beginning.begun p M before with unready | begun
    · exact unready.step before step turn
    · right
      apply turn.all begun nofun
      · exact fun watcher type _ _ thread starts => process_begun starts
      · exact fun op ops z N _ call => call_begun call

theorem beginning (reachable : Reachable (system .engine) (fun _ _ => True) c) : Beginning c := by
  refine reachable.invariant ?_ fun _ _ _ beginning _ step => Step.beginning step beginning
  rintro _ rfl
  exact ⟨⟨nofun, nofun⟩, nofun⟩

/-- An engine that finds a master when it initializes becomes a standby. -/
theorem initialize_standsBy {ops : List Op} (reachable : Reachable (system .engine) (fun _ _ => True) b)
    (found : Step .engine b (.call p .initialize_ (.returns ops) session) c)
    (taken : b.zookeeper.owner .master ≠ none) :
    (∃ M, StandsBy c p M) ∧ Untold c.zookeeper p := by
  cases found with
  | @calls _ i _ rest recovery z _ M N there live next call =>
    have unready : Unready b.zookeeper p M := by
      rcases (beginning reachable).begun p M there with unready | begun
      · exact unready
      · exact absurd rfl ((begun _ (List.mem_of_getElem? next)).ops _ List.mem_cons_self)
    obtain ⟨rfl, -, rfl, rfl⟩ | ⟨j, -, other⟩ := unready.next next
    · obtain ⟨others, threads, reconnect⟩ := unready.threads
      cases call with
      | initializesMaster alive free => exact absurd free taken
      | initializesSlave =>
        refine ⟨⟨_, List.getElem?_set_self (List.getElem?_eq_some_iff.mp there).1, unready.status, unready.started, ?_,
          .of_only unready.unknown⟩, fun told => unready.unknown.events _ told rfl⟩
        intro thread member
        have member : thread ∈ M.threads.set 0 ⟨Manager.engine.initializeSlave ++ [.setMasterStatus false] ++
          Manager.engine.start ++ [], .exit⟩ := member
        rw [threads, List.set_cons_zero, List.append_nil] at member
        rcases List.mem_cons.mp member with rfl | other
        · exact ⟨by simp [Manager.engine, Op.Modest], nofun⟩
        · exact (reconnect thread other).mono fun op same => by simp [same, Op.Modest]
    · cases other

/-- An engine that found a master when it initialized, and is now one itself or has started its
scheduler, has been told of the deletion of the master znode, after a moment at which the znode
was gone. -/
theorem takes_over_vacant {ops : List Op} (reachable : Reachable (system .engine) (fun _ _ => True) b)
    (found : Step .engine b (.call p .initialize_ (.returns ops) session) c) (taken : b.zookeeper.owner .master ≠ none)
    (path : Path (Step .engine) c labels d) (there : d.members[p]? = some M)
    (active : M.isMasterStatus = true ∨ M.started = true) :
    ∃ before after mid, labels = before ++ after ∧ Path (Step .engine) c before mid ∧ Path (Step .engine) mid after d ∧
      mid.zookeeper.owner .master = none ∧ .deliver p (.statusSwitch .master) .deleted ∈ after := by
  have passive : ¬ ∃ N, StandsBy d p N := by
    rintro ⟨N, stands⟩
    obtain rfl := Option.some.inj (there.symm.trans stands.there)
    rcases active with master | started
    · cases master.symm.trans stands.status
    · cases started.symm.trans stands.started
  obtain ⟨⟨N, stands⟩, untold⟩ := initialize_standsBy reachable found taken
  rcases stands.vacated path untold with still | ⟨before, after, mid, parts, first, last, gone, stood⟩
  · exact absurd still passive
  · refine ⟨before, after, mid, parts, first, last, gone, ?_⟩
    by_contra untold
    exact passive (StandsBy.path last untold stood)

end Cluster

/-! ### The slave of a master that dies -/

namespace MasterAndSlave

/-- The second process has started. -/
def joined : Cluster where
  zookeeper := (alone .engine).zookeeper.connect
  members := (alone .engine).members ++ [.new 1]

theorem joined_reachable : Reachable (Cluster.system .engine) (fun _ _ => True) joined := by
  have alone : Reachable (Cluster.system .engine) (fun _ _ => True) (alone .engine) :=
    (alone_reachable .engine).mono fun _ _ _ => trivial
  exact alone.next trivial .starts

/-- It has found the master. -/
def standing : Cluster where
  zookeeper := joined.zookeeper
  members := (alone .engine).members ++
    [{ session := 1
       threads := [⟨Manager.engine.initializeSlave ++ [.setMasterStatus false] ++ Manager.engine.start, .exit⟩] }]

/-- The master's session has expired after a crash, and the slave has started its scheduler. -/
def overtaken : Cluster where
  zookeeper :=
    { watching.zookeeper.expire 0 with events := (watching.zookeeper.expire 0).events.erase (switchEvent 1 .deleted) }
  members :=
    [{ session := 0, live := false, threads := [⟨[.startEngine], .exit⟩, reconnectionWatcher], isMasterStatus := true },
      { session := 1
        threads := [⟨[.startEngine], .exit⟩, ⟨initializeMaster ++ [.delete .slave, .setMasterStatus true], .exit⟩]
        started := true }]

theorem standing_path : ∃ labels, Path (Cluster.Step .engine) standing labels overtaken :=
  ⟨_, .cons (.calls (p := 1) (i := 0) rfl rfl rfl (.findsNone (by decide) rfl)) <|
    .cons (.calls (p := 1) (i := 0) rfl rfl rfl (.creates (by decide) rfl (.inl rfl))) <|
    .cons (.calls (p := 1) (i := 0) rfl rfl rfl (.addsWatcher (by decide))) <|
    .cons (.calls (p := 1) (i := 0) rfl rfl rfl (.addsWatcher (by decide))) <|
    .cons (.calls (p := 1) (i := 0) rfl rfl rfl .setsMasterStatus) <|
    .cons (.crashes (p := 0) rfl) <|
    .cons (.expires (by decide)) <|
    .cons (.delivers (p := 1) rfl rfl (by decide)) <|
    .cons (.calls (p := 1) (i := 1) rfl rfl rfl (.startsScheduler (.inl rfl))) <|
    .nil _⟩

end MasterAndSlave

theorem takes_over_vacant_crash : ∃ labels, Path
    (Cluster.Step .engine) MasterAndSlave.standing labels MasterAndSlave.overtaken ∧
    ∃ before after mid, labels = before ++ after ∧ Path (Cluster.Step .engine) MasterAndSlave.standing before mid ∧
      Path (Cluster.Step .engine) mid after MasterAndSlave.overtaken ∧ mid.zookeeper.owner .master = none ∧
        .deliver 1 (.statusSwitch .master) .deleted ∈ after := by
  obtain ⟨labels, path⟩ := MasterAndSlave.standing_path
  refine ⟨labels, path, ?_⟩
  have found := Cluster.Step.calls (m := .engine) (c := MasterAndSlave.joined) (p := 1) (i := 0) rfl rfl rfl
    (.initializesSlave (by decide) (by decide))
  exact Cluster.takes_over_vacant MasterAndSlave.joined_reachable found (by decide) path rfl (.inr rfl)

end Hella

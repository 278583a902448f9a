import Hella.Properties.Results
import Hella.Properties.Election
import Hella.Protocol.Deployment

/-!
# Who gets the jobs

Every executor process polls, master or slave, and the engine hands the queue to
whoever asks first. A slave gets none as long as its heartbeats find the queue empty.
-/
namespace Hella

open Ephemeral Exec Runs

/-! ### An executor that is master stays master -/

/-- The operations leave the master status alone. -/
def Statusless (ops : List Op) : Prop := .initialize_ ∉ ops ∧ ∀ status, .setMasterStatus status ∉ ops

/-- A thread of a watcher: one without status, or an upgrade that is stuck at its first call. -/
structure Thread.Bystander (thread : Thread) : Prop where
  statusless : Statusless thread.ops ∨ ∃ rest, thread.ops = .doRegister :: rest
  retries : ∀ again, thread.recovery = .retry again → Statusless again

/-- The main thread begins with `initialize`, and once it is on the way to mastership it
has no operation that leads back. -/
structure Committed (status : Bool) (ops : List Op) : Prop where
  begins : .initialize_ ∈ ops → ops = [.initialize_] ∧ status = false
  stays : status = true ∨ .setMasterStatus true ∈ ops → .setMasterStatus false ∉ ops

/-- Only the main thread sets the status, and it does not take mastership back. -/
def Member.Settled (M : Member) : Prop :=
  ∃ main others, M.threads = main :: others ∧ main.recovery = .exit ∧ (∀ thread ∈ others, thread.Bystander) ∧
    Committed M.isMasterStatus main.ops

namespace Cluster

variable {c d : Cluster} {a : ClusterAction} {p i : Nat} {M N : Member} {y z : Zookeeper} {op : Op} {rest : List Op}
  {recovery : Recovery} {outcome : Outcome}

/-- Apart from `initialize` no call comes with operations that set the status. -/
theorem call_statusless {ops : List Op} (call : Call .executor p z M op y N (.returns ops))
    (other : op ≠ .initialize_) : Statusless ops := by
  cases call with
  | initializesMaster | initializesSlave => exact absurd rfl other
  | setsData _ _ ends | creates _ _ ends | deletes _ _ ends | startsScheduler ends | startsMaster _ ends =>
    obtain rfl : ops = [] := by simpa using ends
    simp [Statusless]
  | _ => simp [Statusless]

theorem statusless_append {ops : List Op} (fresh : Statusless ops) (kept : Statusless rest) :
    Statusless (ops ++ rest) := by
  simp only [Statusless, List.mem_append, not_or] at fresh kept ⊢
  exact ⟨⟨fresh.1, kept.1⟩, fun status => ⟨fresh.2 status, kept.2 status⟩⟩

/-- A watcher's thread leaves the status as it is and goes on as one. -/
theorem bystander_call (call : Call .executor p z M op y N outcome)
    (bystander : Thread.Bystander ⟨op :: rest, recovery⟩) :
    N.isMasterStatus = M.isMasterStatus ∧
      (∀ ops, outcome = .returns ops → Thread.Bystander ⟨ops ++ rest, recovery⟩) := by
  obtain ⟨statusless | ⟨rest, same⟩, retries⟩ := bystander
  · have first : op ≠ .initialize_ := fun same => statusless.1 (by simp [same])
    have kept : Statusless rest :=
      ⟨fun member => statusless.1 (.tail _ member), fun status member => statusless.2 status (.tail _ member)⟩
    refine ⟨?_, ?_⟩
    · cases call with
      | @setsMasterStatus status => exact absurd List.mem_cons_self (statusless.2 status)
      | _ => rfl
    · rintro ops rfl
      exact ⟨.inl (statusless_append (call_statusless call first) kept), retries⟩
  -- `doRegister` on a null client can only throw
  · obtain ⟨rfl, rfl⟩ : op = .doRegister ∧ _ := by simpa using same
    cases call
    exact ⟨rfl, fun ops same => by cases same⟩

theorem committed_call (call : Call .executor p z M op y N outcome)
    (committed : Committed M.isMasterStatus (op :: rest)) : (M.isMasterStatus = true → N.isMasterStatus = true) ∧
      ∀ ops, outcome = .returns ops → Committed N.isMasterStatus (ops ++ rest) := by
  by_cases first : op = .initialize_
  · obtain ⟨rfl, slave⟩ : rest = [] ∧ M.isMasterStatus = false := by
      simpa [first] using committed.begins (by simp [first])
    subst first
    refine ⟨fun master => by simp [slave] at master, ?_⟩
    rintro ops rfl
    cases call with
    | initializesMaster =>
      exact ⟨by simp [initializeMaster, Manager.executor], by simp [initializeMaster, Manager.executor]⟩
    | initializesSlave => exact ⟨by simp [Manager.executor], by simp [Manager.executor, slave]⟩
  -- `initialize` is done, so no operation is left that decides between master and slave
  · have unbegun : .initialize_ ∉ rest := fun member => by
      have := (committed.begins (.tail _ member)).1
      simp_all
    have stays (ends : M.isMasterStatus = true ∨ .setMasterStatus true ∈ rest) : .setMasterStatus false ∉ rest :=
      fun member => committed.stays (ends.imp_right (.tail _)) (.tail _ member)
    have others (same : N.isMasterStatus = M.isMasterStatus) (ops : List Op) (returns : outcome = .returns ops) :
        Committed N.isMasterStatus (ops ++ rest) := by
      subst returns
      have fresh := call_statusless call first
      refine ⟨fun member => absurd member (by simp [fresh.1, unbegun]), fun ends => ?_⟩
      simp only [List.mem_append, fresh.2, false_or, same] at ends ⊢
      exact stays ends
    cases call with
    | @setsMasterStatus status =>
      refine ⟨fun master => ?_, ?_⟩
      · cases status with
        | true => rfl
        | false => exact absurd List.mem_cons_self (committed.stays (.inl master))
      · rintro ops ⟨rfl⟩
        refine ⟨fun member => absurd member unbegun, fun ends => ?_⟩
        cases status with
        | true => exact fun member => committed.stays (.inr List.mem_cons_self) (.tail _ member)
        | false => exact stays (.inr (ends.resolve_left (by simp)))
    | _ => exact ⟨id, others rfl⟩

/-- One operation of one thread leaves the process settled, and a master master. -/
theorem settled_call (call : Call .executor p z M op y N outcome) (settled : M.Settled)
    (next : M.threads[i]? = some ⟨op :: rest, recovery⟩) :
    (N.proceed i ⟨op :: rest, recovery⟩ rest outcome).Settled ∧
      (M.isMasterStatus = true → N.isMasterStatus = true) := by
  obtain ⟨main, others, threads, exits, bystanders, committed⟩ := settled
  have kept := (call_threads call).1.trans threads
  rw [threads] at next
  cases i with
  | zero =>
    obtain rfl : main = ⟨op :: rest, recovery⟩ := by simpa using next
    obtain rfl : recovery = .exit := exits
    -- the first thread is the main one, whose exceptions end the process
    obtain ⟨stays, goes⟩ := committed_call call committed
    refine ⟨?_, stays⟩
    cases outcome with
    | returns ops =>
      exact ⟨⟨ops ++ rest, .exit⟩, others, by simp [Member.proceed, kept], rfl, bystanders, goes ops rfl⟩
    | throws =>
      refine ⟨_, others, kept, rfl, bystanders, ?_⟩
      -- a call that throws has not set the status
      have same : N.isMasterStatus = M.isMasterStatus := by cases call <;> rfl
      exact same ▸ committed
  | succ i =>
    -- a thread other than the main one is a bystander
    have here : (⟨op :: rest, recovery⟩ : Thread) ∈ others := List.mem_of_getElem? (by simpa using next)
    obtain ⟨same, goes⟩ := bystander_call call (bystanders _ here)
    refine ⟨?_, fun master => same.trans master⟩
    have replaced (thread : Thread) (bystander : thread.Bystander) :
        Member.Settled { N with threads := N.threads.set (i + 1) thread } := by
      refine ⟨main, others.set i thread, by simp [kept], exits, fun other member => ?_, same ▸ committed⟩
      obtain old | rfl := List.mem_or_eq_of_mem_set member
      · exact bystanders other old
      · exact bystander
    cases outcome with
    | returns ops => exact replaced _ (goes ops rfl)
    | throws =>
      cases recovery with
      | exit => exact ⟨main, others, kept, exits, bystanders, same ▸ committed⟩
      | retry again =>
        have retries := (bystanders _ here).retries
        exact replaced ⟨again, .retry again⟩ ⟨.inl (retries again rfl), retries⟩

theorem process_bystander {watcher : Watcher} {type : Change} {thread : Thread}
    (starts : thread ∈ (watcher.process .executor type).toList) : thread.Bystander := by
  have again {ops : List Op} (statusless : Statusless ops) : Thread.Bystander ⟨ops, .retry ops⟩ :=
    ⟨.inl statusless, fun again same => by cases same; exact statusless⟩
  cases watcher <;> cases type <;> simp only [Watcher.process, Option.toList_none, Option.toList_some, List.not_mem_nil,
    List.mem_singleton] at starts <;> subst starts
  · exact again (by simp [Statusless])
  · exact ⟨.inr ⟨_, rfl⟩, fun again same => by cases same⟩
  · exact again (by simp [Statusless])

theorem Settled.with_bystanders {threads : List Thread} (settled : M.Settled)
    (bystanders : ∀ thread ∈ threads, thread.Bystander) :
      Member.Settled { M with threads := M.threads ++ threads } := by
  obtain ⟨main, others, same, exits, old, committed⟩ := settled
  refine ⟨main, others ++ threads, by simp [same], exits, fun thread member => ?_, committed⟩
  obtain before | new := List.mem_append.mp member
  · exact old thread before
  · exact bystanders thread new

/-- No step takes mastership from an executor. -/
theorem Step.settled (step : Step .executor c a d)
    (settled : ∀ (p : Nat) (M : Member), c.members[p]? = some M → M.Settled) :
    (∀ (p : Nat) (M : Member), d.members[p]? = some M → M.Settled) ∧
      ∀ (p : Nat) (M : Member), c.members[p]? = some M → M.isMasterStatus = true →
        ∃ N, d.members[p]? = some N ∧ N.isMasterStatus = true := by
  -- a step changes one member, so the others keep what they have
  have update {p : Nat} {M N : Member} (there : c.members[p]? = some M) (now : N.Settled)
      (stays : M.isMasterStatus = true → N.isMasterStatus = true) :
      (∀ (q : Nat) (K : Member), (c.members.set p N)[q]? = some K → K.Settled) ∧
        ∀ (q : Nat) (K : Member), c.members[q]? = some K → K.isMasterStatus = true →
          ∃ L, (c.members.set p N)[q]? = some L ∧ L.isMasterStatus = true := by
    refine ⟨fun q K after => ?_, fun q K before master => ?_⟩
    · obtain ⟨rfl, rfl⟩ | ⟨-, before⟩ := set_cases after
      · exact now
      · exact settled q K before
    · by_cases same : p = q
      · subst same
        cases there.symm.trans before
        have bound : p < c.members.length := (List.getElem?_eq_some_iff.mp there).1
        exact ⟨N, List.getElem?_set_self bound, stays master⟩
      · exact ⟨K, by rw [List.getElem?_set_ne same, before], master⟩
  cases step with
  | starts =>
    refine ⟨fun q K after => ?_, fun q K before master => ?_⟩
    · rw [List.getElem?_append] at after
      split at after
      · exact settled q K after
      · obtain rfl := List.mem_singleton.mp (List.mem_of_getElem? after)
        exact ⟨_, [], rfl, rfl, by simp, ⟨by simp [Member.new], by simp [Member.new]⟩⟩
    · have bound : q < c.members.length := (List.getElem?_eq_some_iff.mp before).1
      exact ⟨K, by rw [List.getElem?_append_left bound, before], master⟩
  | @crashes p M there => exact update there (settled p M there) id
  -- expiry adds the thread that connects again; it never takes the mastership away
  | expires =>
    refine ⟨fun q K after => ?_, fun q K before master => ?_⟩
    · rw [List.getElem?_map, Option.map_eq_some_iff] at after
      obtain ⟨M, there, rfl⟩ := after
      split
      · refine Settled.with_bystanders (settled q M there) ?_
        simp only [reconnectionWatcher, List.mem_singleton, forall_eq]
        exact ⟨.inl (by simp [Statusless]), fun again same => by cases same; simp [Statusless]⟩
      · exact settled q M there
    · refine ⟨_, by rw [List.getElem?_map, before]; rfl, ?_⟩
      dsimp only
      split <;> exact master
  | @delivers p watcher type M there =>
    exact update there (Settled.with_bystanders (settled p M there) fun _ => process_bystander) id
  | @calls p i op rest recovery z outcome M N there live next call =>
    obtain ⟨now, stays⟩ := settled_call call (settled p M there) next
    exact update there now fun master => proceed_same.2.trans (stays master)

end Cluster

/-! ### A process that has started nothing has nothing to report -/

namespace Executor

variable {newInstance : String → Instantiation} {x : Executor}

def Unused (x : Executor) : Prop := x.started = [] → x.jobProgressMap.keys = []

theorem clear_keys {jobProgresses : List JobProgress} (none : x.jobProgressMap.keys = []) :
    (x.clear jobProgresses).jobProgressMap.keys = [] :=
  clear_rule (P := fun y => y.jobProgressMap.keys = [])
    (fun _ _ _ _ none => by simp [clearEvent, AList.keys_erase, none]) none

theorem processHeartbeat_keys (events : List JobEvent) {x : Executor} (none : x.jobProgressMap.keys = []) :
    (processHeartbeat newInstance events x).Unused := by
  apply processHeartbeat_rule (P := fun _ y => y.Unused)
  · intro event _ y xjob _ _ _ _ unstarted
    -- a job was started, against the assumption
    simp [add] at unstarted
  · intro event _ y unused _ unstarted
    simp [clearEvent, AList.keys_erase, unused unstarted]
  · exact fun _ _ _ unused => unused
  · exact fun _ _ unused => unused
  · exact fun _ => none

theorem Unused.answered {jobProgresses : List JobProgress} {answer : HeartbeatResponse} (unused : x.Unused) :
    (x.answered newInstance jobProgresses answer).Unused := by
  intro unstarted
  obtain ⟨fresh, grows, -⟩ := x.answered_started newInstance jobProgresses answer
  have none : (x.clear jobProgresses).jobProgressMap.keys = [] := clear_keys (unused (by simp_all))
  unfold Executor.answered at unstarted ⊢
  split
  next normal =>
    rw [if_pos normal] at unstarted
    exact processHeartbeat_keys _ none unstarted
  · exact none

theorem answered_unstarted {jobProgresses : List JobProgress} {answer : HeartbeatResponse}
    (empty : answer.jobEvents = []) : (x.answered newInstance jobProgresses answer).started = x.started := by
  obtain ⟨fresh, grows, among⟩ := x.answered_started newInstance jobProgresses answer
  obtain rfl : fresh = [] := by simpa [empty, executions] using among
  simpa using grows

end Executor

/-! ### Runs -/

namespace Deployment

variable {set : Setting} {s t : Deployment} {a : DeploymentAction} {w : World} {p : Nat}

/-- A heartbeat of a slave is refused or finds no events queued. -/
def SlavesIdle (set : Setting) (s : Deployment) : DeploymentAction → Prop
  | .engine (.serve r) => s.IsMasterNode r.process ∨ ¬ s.world.Admits set r ∨ s.world.queue set = []
  | _ => True

structure Reserved (s : Deployment) : Prop where
  settled : ∀ (p : Nat) (M : Member), s.cluster.members[p]? = some M → M.Settled
  unused : ∀ (p : Nat) (P : Process), s.world.processes[p]? = some P → P.executor.Unused
  started : ∀ (p : Nat) (P : Process), s.world.processes[p]? = some P → P.executor.started ≠ [] → s.IsMasterNode p
  requests : ∀ r ∈ s.world.requests, r.jobProgresses ≠ [] → s.IsMasterNode r.process
  responses : ∀ r ∈ s.world.responses, r.answer.jobEvents ≠ [] → s.IsMasterNode r.process

/-- A heartbeat without reports is answered with what is queued. -/
theorem answer_of_empty {r : Request} {answer : HeartbeatResponse} {node : EngineNode} (admitted : w.Admits set r)
    (empty : r.jobProgresses = [])
    (served : EngineNode.sendHeartbeat set.env set.heartbeatMaxTimeout set.clusterID r.jobProgresses r.lastSeen
      w.node = .ok answer node) : answer.jobEvents = w.queue set := by
  obtain ⟨base, equation⟩ := World.sendHeartbeat_admitted admitted
  rw [equation, empty] at served
  cases served
  rfl

/-- The heartbeats' part of a step. -/
theorem Reserved.beats {b : Action} (reserved : Reserved s) (step : World.Step set s.world b w)
    (idle : ∀ r, b = .serve r → s.IsMasterNode r.process ∨ ¬ s.world.Admits set r ∨ s.world.queue set = []) :
    Reserved ⟨w, s.cluster⟩ := by
  have silent (r : Request) (sent : r ∈ s.world.requests) (slave : ¬ s.IsMasterNode r.process) :
    r.jobProgresses = [] := by
    by_contra reports
    exact slave (reserved.requests r sent reports)
  refine ⟨reserved.settled, fun p Q after => ?_, fun p Q after working => ?_, fun r sent reports => ?_,
    fun r sent events => ?_⟩
  · cases before : s.world.processes[p]? with
    | none =>
      cases step.joined after before
      exact fun _ => rfl
    | some P =>
      have unused := reserved.unused p P before
      obtain ⟨_, same, moves⟩ := step.moves before
      cases same.symm.trans after
      cases moves with
      | receives => exact unused.answered
      | _ => exact unused
  · cases before : s.world.processes[p]? with
    | none =>
      cases step.joined after before
      exact absurd rfl working
    | some P =>
      obtain ⟨_, same, moves⟩ := step.moves before
      cases same.symm.trans after
      cases moves with
      | @receives r list sent own waits =>
        by_cases events : r.answer.jobEvents = []
        · rw [Executor.answered_unstarted events] at working
          exact reserved.started p _ before working
        · exact own ▸ reserved.responses r sent events
      | _ => exact reserved.started p _ before working
  -- a slave has started nothing, so it has nothing to report
  · obtain old | ⟨P, there, -, list, -⟩ := step.request_cases sent
    · exact reserved.requests r old reports
    · refine reserved.started r.process P there fun unstarted => reports ?_
      rw [list, Executor.getJobProgressList, reserved.unused r.process P there unstarted, List.filterMap_nil]
  · cases step with
    | refuses asked late served =>
      obtain ⟨_, _, same, empty, -⟩ := World.sendHeartbeat_refused late
      cases same.symm.trans served
      obtain old | rfl := by simpa using sent
      · exact reserved.responses r old events
      · exact absurd empty events
    | @serves q answer node asked admitted served =>
      obtain old | rfl := by simpa using sent
      · exact reserved.responses r old events
      · by_contra slave
        -- the only heartbeat of a slave that is admitted finds the queue empty
        obtain master | late | empty := idle q rfl
        · exact slave master
        · exact late admitted
        · exact events ((answer_of_empty admitted (silent q asked slave) served).trans empty)
    | losesResponse | receives => exact reserved.responses r (List.mem_of_mem_erase sent) events
    | _ => exact reserved.responses r sent events

theorem Step.reserved (step : Step set s a t) (idle : SlavesIdle set s a) (reserved : Reserved s) : Reserved t := by
  -- a master of the old state is master in the new one
  have elected {c : Cluster} {b : ClusterAction} (step : Cluster.Step .executor s.cluster b c) {w : World} {p : Nat}
      (master : s.IsMasterNode p) : Deployment.IsMasterNode ⟨w, c⟩ p := by
    obtain ⟨M, there, status⟩ := master
    exact (step.settled reserved.settled).2 p M there status
  have moved {c : Cluster} {b : ClusterAction} (step : Cluster.Step .executor s.cluster b c) {w : World}
      (world : Reserved ⟨w, s.cluster⟩) : Reserved ⟨w, c⟩ :=
    { settled := (step.settled reserved.settled).1
      unused := world.unused
      started := fun p P there working => elected step (world.started p P there working)
      requests := fun r sent reports => elected step (world.requests r sent reports)
      responses := fun r sent events => elected step (world.responses r sent events) }
  cases step with
  | starts joined started => exact moved started (reserved.beats joined fun r same => by cases same)
  | elects step => exact moved step reserved
  | beats step =>
    refine reserved.beats step ?_
    rintro r rfl
    exact idle

theorem reserved (reachable : Reachable (system set) (SlavesIdle set) s) : Reserved s := by
  refine reachable.invariant ?_ fun _ _ _ reserved idle step => Step.reserved step idle reserved
  rintro ⟨w, c⟩ ⟨⟨node, rfl⟩, rfl⟩
  refine ⟨fun p M there => ?_, fun p P there => ?_, fun p P there => ?_, fun r sent => ?_, fun r sent => ?_⟩
  · simp at there
  · simp at there
  · simp at there
  · simp at sent
  · simp at sent

/-- In a run in which no admitted heartbeat of a slave comes while events are queued,
events are handed to masters only, and only masters have started a job. -/
theorem handed_to_master (reachable : Reachable (system set) (SlavesIdle set) s) :
    (∀ r ∈ s.world.responses, r.answer.jobEvents ≠ [] → s.IsMasterNode r.process) ∧
      ∀ (p : Nat) (P : Process), s.world.processes[p]? = some P → P.executor.started ≠ [] → s.IsMasterNode p :=
  ⟨(reserved reachable).responses, (reserved reachable).started⟩

end Deployment

/-! ### A master and a slave -/

namespace TwoExecutors

/-- The first executor is master. -/
def alone : Cluster where
  zookeeper :=
    { owner := fun path => if path = .master then some 0 else none
      sessions := 1
      watches := [⟨.master, 0, (0, .node .master)⟩] }
  members := [{ session := 0, threads := [⟨[], .exit⟩], isMasterStatus := true, started := true }]

/-- The second executor is slave. -/
def polling : Cluster where
  zookeeper :=
    { owner := fun path => if path = .slave then some 1 else if path = .master then some 0 else none
      sessions := 2
      watches :=
        [⟨.master, 0, (0, .node .master)⟩, ⟨.slave, 1, (1, .node .slave)⟩, ⟨.slave, 1, (1, .statusSwitch .slave)⟩] }
  members := alone.members ++ [{ session := 1, threads := [⟨[], .exit⟩], started := true }]

/-- Both executors poll, the cluster is registered and an event is queued for it. -/
def ready : Deployment where
  world :=
    { node := { OneEvent.registered with engine := OneEvent.dispatched }
      processes := [{}, {}]
      accepted := [OneEvent.event] }
  cluster := polling

theorem alone_reachable : Reachable (Deployment.system OneEvent.set) (Deployment.SlavesIdle OneEvent.set)
    ⟨{ processes := [{}] }, alone⟩ := by
  have empty : Reachable (Deployment.system OneEvent.set) (Deployment.SlavesIdle OneEvent.set) {} :=
    .start ⟨⟨{}, rfl⟩, rfl⟩
  have starts := empty.next (by trivial) (.starts .joins .starts)
  have initializes := starts.next (by trivial)
    (.elects (.calls (p := 0) (i := 0) rfl rfl rfl (.initializesMaster (by decide) rfl)) (by simp))
  have finds := initializes.next (by trivial)
    (.elects (.calls (p := 0) (i := 0) rfl rfl rfl (.findsNone (by decide) rfl)) (by simp))
  have creates := finds.next (by trivial)
    (.elects (.calls (p := 0) (i := 0) rfl rfl rfl (.creates (by decide) rfl (.inl rfl))) (by simp))
  have watches := creates.next (by trivial)
    (.elects (.calls (p := 0) (i := 0) rfl rfl rfl (.addsWatcher (by decide))) (by simp))
  have sets := watches.next (by trivial) (.elects (.calls (p := 0) (i := 0) rfl rfl rfl .setsMasterStatus) (by simp))
  have polls := sets.next (by trivial) (.elects (.calls (p := 0) (i := 0) rfl rfl rfl .startsReporter) (by simp))
  exact polls

theorem ready_reachable : Reachable (Deployment.system OneEvent.set) (Deployment.SlavesIdle OneEvent.set) ready := by
  have starts := alone_reachable.next (by trivial) (.starts .joins .starts)
  have initializes := starts.next (by trivial)
    (.elects (.calls (p := 1) (i := 0) rfl rfl rfl (.initializesSlave (by decide) (by decide))) (by simp))
  have finds := initializes.next (by trivial)
    (.elects (.calls (p := 1) (i := 0) rfl rfl rfl (.findsNone (by decide) rfl)) (by simp))
  have creates := finds.next (by trivial)
    (.elects (.calls (p := 1) (i := 0) rfl rfl rfl (.creates (by decide) rfl (.inl rfl))) (by simp))
  have watches := creates.next (by trivial)
    (.elects (.calls (p := 1) (i := 0) rfl rfl rfl (.addsWatcher (by decide))) (by simp))
  have switches := watches.next (by trivial)
    (.elects (.calls (p := 1) (i := 0) rfl rfl rfl (.addsWatcher (by decide))) (by simp))
  have sets := switches.next (by trivial) (.elects (.calls (p := 1) (i := 0) rfl rfl rfl .setsMasterStatus) (by simp))
  have polls := sets.next (by trivial) (.elects (.calls (p := 1) (i := 0) rfl rfl rfl .startsReporter) (by simp))
  have registers := polls.next (by trivial)
    (.beats (a := .register 0) (.registers rfl) (by simp) (by simp [Action.process]))
  have works := registers.next (by trivial)
    (.beats (.works OneEvent.dispatched_grown) (by simp) (by simp [Action.process]))
  exact works

/-- Either executor may report: both have a reporter. -/
theorem reporting (p : Nat) (known : p < 2) : ∃ M, ready.cluster.members[p]? = some M ∧ M.live = true ∧
    M.started = true := by
  match p, known with
  | 0, _ => exact ⟨_, rfl, rfl, rfl⟩
  | 1, _ => exact ⟨_, rfl, rfl, rfl⟩

end TwoExecutors

theorem handed_to_master_ready :
    ∃ s, Reachable (Deployment.system OneEvent.set) (Deployment.SlavesIdle OneEvent.set) s ∧
      (∃ r ∈ s.world.responses, r.answer.jobEvents ≠ []) ∧
        ∀ r ∈ s.world.responses, r.answer.jobEvents ≠ [] → s.IsMasterNode r.process := by
  have reports := TwoExecutors.ready_reachable.next (by trivial)
    (.beats (a := .report 0 1) (.reports rfl rfl) (by simp) fun _ same => by
      cases same; exact TwoExecutors.reporting 0 (by decide))
  have master : TwoExecutors.ready.IsMasterNode 0 := ⟨_, rfl, rfl⟩
  have serves := reports.next (by exact .inl master)
    (.beats (a := .serve ⟨0, 0, [], 1⟩) (.serves List.mem_cons_self ⟨0, rfl, by decide⟩ rfl) (by simp)
      (by simp [Action.process]))
  exact ⟨_, serves, ⟨_, List.mem_cons_self, by decide⟩, (Deployment.handed_to_master serves).1⟩

/-- The slave's heartbeat comes first, and the slave runs the job. -/
theorem slave_runs_job :
    ∃ s P, Reachable (Deployment.system OneEvent.set) (fun _ _ => True) s ∧ s.world.processes[1]? = some P ∧
      P.executor.started = [OneEvent.event] ∧ ¬ s.IsMasterNode 1 := by
  have ready : Reachable (Deployment.system OneEvent.set) (fun _ _ => True) TwoExecutors.ready :=
    TwoExecutors.ready_reachable.mono fun _ _ _ => trivial
  have reports := ready.next trivial
    (.beats (a := .report 1 1) (.reports rfl rfl) (by simp) fun _ same => by
      cases same; exact TwoExecutors.reporting 1 (by decide))
  have serves := reports.next trivial
    (.beats (a := .serve ⟨1, 0, [], 1⟩) (.serves List.mem_cons_self ⟨0, rfl, by decide⟩ rfl) (by simp)
      (by simp [Action.process]))
  have receives := serves.next trivial
    (.beats (a := .receive ⟨1, 0, { executorStatus := .normal, jobEvents := [OneEvent.event] }⟩)
      (.receives List.mem_cons_self rfl rfl) (by simp) fun _ same => by
        cases same; exact TwoExecutors.reporting 1 (by decide))
  refine ⟨_, _, receives, rfl, rfl, ?_⟩
  rintro ⟨M, there, master⟩
  cases there
  cases master

end Hella

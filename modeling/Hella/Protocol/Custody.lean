import Mathlib.Data.List.Perm.Subperm
import Hella.Protocol.Calls

/-!
# Where the events are

Every event the dispatcher has accepted is in one place: in the queue, in an answer,
with a process that received it, discarded with the executor, or lost. No step copies an
event. An answer comes only to a process that still waits on its connection.
-/
namespace Hella

open Exec Runs

/-- The process and the connection of a message. -/
def Request.carrier (r : Request) : Nat × Nat := (r.process, r.connection)

def Response.carrier (r : Response) : Nat × Nat := (r.process, r.connection)

namespace World

variable {set : Setting} {w t : World} {r : Request} {a : Action} {p : Nat} {P Q : Process}

/-! ### What a heartbeat does to the engine -/

/-- A refused heartbeat carries nothing and leaves the queues alone. -/
theorem sendHeartbeat_refused (late : ¬ w.Admits set r) :
    ∃ answer node, EngineNode.sendHeartbeat set.env set.heartbeatMaxTimeout set.clusterID r.jobProgresses r.lastSeen
      w.node = .ok answer node ∧ answer.jobEvents = [] ∧ answer.executorStatus ≠ .normal ∧
        node.engine.queued = w.node.engine.queued := by
  cases found : w.node.access? set.clusterID with
  | none => exact ⟨_, _, EngineNode.sendHeartbeat_unregister found, rfl, by simp, rfl⟩
  | some latest =>
    have passed : elapsed r.lastSeen latest > set.heartbeatMaxTimeout :=
      Int.not_le.mp fun inTime => late ⟨latest, found, inTime⟩
    exact ⟨_, _, EngineNode.sendHeartbeat_timeout found passed, rfl, by simp, rfl⟩

/-- An admitted heartbeat is answered with the whole queue once its reports are handled. -/
theorem sendHeartbeat_admitted (admitted : w.Admits set r) :
    ∃ node : EngineNode, EngineNode.sendHeartbeat set.env set.heartbeatMaxTimeout set.clusterID r.jobProgresses
      r.lastSeen w.node = match Engine.processJobProgress set.env set.clusterID r.jobProgresses w.node.engine with
        | .ok () e => .ok { executorStatus := .normal, jobEvents := e.queued set.clusterID }
          (EngineNode.taken { node with engine := e } set.clusterID)
        | .error thrown e => .error thrown { node with engine := e } := by
  obtain ⟨latest, found, inTime⟩ := admitted
  exact ⟨w.node.accessed set.clusterID r.lastSeen, EngineNode.sendHeartbeat_normal found inTime⟩

/-- A heartbeat that is answered carries what is queued once its reports are handled. -/
theorem answer_of_handled {answer : HeartbeatResponse} {node : EngineNode} (admitted : w.Admits set r)
    (served : EngineNode.sendHeartbeat set.env set.heartbeatMaxTimeout set.clusterID r.jobProgresses r.lastSeen
      w.node = .ok answer node) : answer.jobEvents = (w.handling set r).queued set.clusterID := by
  obtain ⟨base, equation⟩ := sendHeartbeat_admitted admitted
  rw [equation] at served
  split at served
  next e handled =>
    cases served
    rw [handling, handled, after_ok]
  · cases served

theorem doRegister_queued {node after : EngineNode} {clusterID : String} {now : Int} {answer : Option Unit}
    (served : EngineNode.doRegister clusterID now node = .ok answer after) :
      after.engine.queued = node.engine.queued := by
  by_cases already : node.Registered clusterID
  · rw [EngineNode.doRegister_refused already] at served
    cases served
    rfl
  · rw [EngineNode.doRegister_accepted already] at served
    cases served
    rfl

/-! ### What a step does to a process -/

/-- The moves of one process, in a world whose answers it may receive. -/
inductive Moves (set : Setting) (w : World) (p : Nat) (P : Process) : Process → Prop where
  | stays : Moves set w p P P
  | reports (idle : P.waiting = none) :
    Moves set w p P { P with
      waiting := some (P.connections, P.executor.getJobProgressList), connections := P.connections + 1 }
  | receives {r : Response} {list : List JobProgress} (sent : r ∈ w.responses) (own : r.process = p)
      (waits : P.waiting = some (r.connection, list)) :
    Moves set w p P { P with
      waiting := none, executor := P.executor.answered (set.newInstance r.process) list r.answer }
  | givesUp : Moves set w p P { P with waiting := none }
  | advances {eventID : String} {xjob : Xjob} {runner : XjobRunner}
      (running : P.executor.xjobRunners.lookup eventID = some runner) :
    Moves set w p P { P with executor := { P.executor with
      xjobRunners := P.executor.xjobRunners.insert eventID { runner with xjob := xjob } } }

theorem moves_set {q : Nat} {R : Process} (there : w.processes[p]? = some P) (moved : w.processes[q]? = some Q)
    (moves : Moves set w q Q R) : ∃ S, (w.processes.set q R)[p]? = some S ∧ Moves set w p P S := by
  by_cases same : q = p
  · subst same
    obtain rfl : P = Q := Option.some.inj (there.symm.trans moved)
    have bound : q < w.processes.length := (List.getElem?_eq_some_iff.mp there).1
    exact ⟨R, List.getElem?_set_self bound, moves⟩
  · exact ⟨P, by rw [List.getElem?_set_ne same, there], .stays⟩

/-- No step drops a process. -/
theorem Step.moves (step : Step set w a t) (there : w.processes[p]? = some P) :
    ∃ Q, t.processes[p]? = some Q ∧ Moves set w p P Q := by
  cases step with
  | joins =>
    have bound : p < w.processes.length := (List.getElem?_eq_some_iff.mp there).1
    exact ⟨P, by rw [List.getElem?_append_left bound, there], .stays⟩
  | reports moved idle => exact moves_set there moved (.reports idle)
  | receives sent moved waits => exact moves_set there moved (.receives sent rfl waits)
  | givesUp moved => exact moves_set there moved .givesUp
  | advances moved running => exact moves_set there moved (.advances running)
  | _ => exact ⟨P, there, .stays⟩

/-- A process that is new has done nothing. -/
theorem Step.joined (step : Step set w a t) (there : t.processes[p]? = some Q)
    (new : w.processes[p]? = none) : Q = {} := by
  cases step with
  | joins =>
    rw [List.getElem?_append_right (by simpa using new)] at there
    exact (List.mem_singleton.mp (List.mem_of_getElem? there))
  | reports | receives | givesUp | advances =>
    have absent := (List.getElem?_eq_none_iff.mp new)
    rw [List.getElem?_eq_none (by simpa using absent)] at there
    cases there
  | _ => cases new.symm.trans there

theorem Step.request_cases (step : Step set w a t) {r : Request} (sent : r ∈ t.requests) :
    r ∈ w.requests ∨ ∃ P, w.processes[r.process]? = some P ∧ r.connection = P.connections ∧
      r.jobProgresses = P.executor.getJobProgressList ∧ t.processes = w.processes.set r.process { P with
        waiting := some (r.connection, r.jobProgresses), connections := P.connections + 1 } := by
  cases step with
  | reports there idle =>
    obtain old | rfl := by simpa using sent
    · exact .inl old
    · exact .inr ⟨_, there, rfl, rfl, rfl⟩
  | refuses | serves | breaks | losesRequest => exact .inl (List.mem_of_mem_erase sent)
  | _ => exact .inl sent

/-! ### Each connection carries one message -/

/-- The connections of the messages under way. -/
def carriers (w : World) : List (Nat × Nat) := w.requests.map (·.carrier) ++ w.responses.map (·.carrier)

/-- No two messages share a connection, and only their own process opened it. -/
structure Separate (w : World) : Prop where
  once : w.carriers.Nodup
  opened : ∀ c ∈ w.carriers, ∃ P, w.processes[c.1]? = some P ∧ c.2 < P.connections

/-- An answer goes out on the connection of its request. -/
theorem carriers_answered (sent : r ∈ w.requests) (answer : HeartbeatResponse) :
    ((w.requests.erase r).map (·.carrier) ++
      (w.responses ++ [(⟨r.process, r.connection, answer⟩ : Response)]).map (·.carrier)).Perm w.carriers := by
  have parts : w.carriers.Perm (r.carrier :: ((w.requests.erase r).map (·.carrier) ++ w.responses.map (·.carrier))) :=
    ((List.perm_cons_erase sent).map _).append_right _
  refine List.Perm.trans ?_ parts.symm
  rw [List.map_append, ← List.append_assoc]
  exact List.perm_append_singleton _ _

/-- A step takes a message off its connection, answers on it, or opens a new one. -/
theorem Step.carriers_cases (step : Step set w a t) :
    t.carriers.Subperm w.carriers ∨ ∃ p P Q, w.processes[p]? = some P ∧ t.processes[p]? = some Q ∧
      Q.connections = P.connections + 1 ∧ t.carriers.Perm ((p, P.connections) :: w.carriers) := by
  cases step with
  | @reports p now P there idle =>
    have bound : p < w.processes.length := (List.getElem?_eq_some_iff.mp there).1
    refine .inr ⟨p, P, _, there, List.getElem?_set_self bound, rfl, ?_⟩
    simp only [carriers, List.map_append, List.map_cons, List.map_nil, List.append_assoc, List.singleton_append]
    exact List.perm_middle
  | @refuses r answer node sent => exact .inl (carriers_answered sent answer).subperm
  | @serves r answer node sent => exact .inl (carriers_answered sent answer).subperm
  | breaks | losesRequest => exact .inl ((List.erase_sublist.map _).append_right _).subperm
  | losesResponse | receives => exact .inl ((List.erase_sublist.map _).append_left _).subperm
  | _ => exact .inl (List.Subperm.refl _)

theorem Moves.connections (moves : Moves set w p P Q) : P.connections ≤ Q.connections := by
  cases moves with
  | reports => exact Nat.le_succ _
  | _ => exact Nat.le_refl _

theorem Step.separate (step : Step set w a t) (separate : Separate w) : Separate t := by
  -- a connection that was open stays so
  have stays (c : Nat × Nat) (old : c ∈ w.carriers) : ∃ Q, t.processes[c.1]? = some Q ∧ c.2 < Q.connections := by
    obtain ⟨P, there, used⟩ := separate.opened c old
    obtain ⟨Q, kept, moves⟩ := step.moves there
    exact ⟨Q, kept, used.trans_le moves.connections⟩
  obtain fewer | ⟨p, P, Q, there, kept, next, more⟩ := step.carriers_cases
  · refine ⟨?_, fun c mem => stays c (fewer.subset mem)⟩
    obtain ⟨l, same, sublist⟩ := fewer
    exact same.nodup_iff.mp (separate.once.sublist sublist)
  · have fresh : (p, P.connections) ∉ w.carriers := fun old => by
      obtain ⟨P', same, used⟩ := separate.opened _ old
      cases same.symm.trans there
      exact absurd used (Nat.lt_irrefl _)
    refine ⟨more.nodup_iff.mpr (List.nodup_cons.mpr ⟨fresh, separate.once⟩), fun c mem => ?_⟩
    obtain rfl | old := List.mem_cons.mp (more.subset mem)
    · exact ⟨Q, kept, by rw [next]; exact Nat.lt_succ_self _⟩
    · exact stays c old

theorem separate {guard : World → Action → Prop} (reachable : Reachable (system set) guard w) : Separate w := by
  refine reachable.invariant ?_ fun _ _ _ separate _ step => Step.separate step separate
  rintro _ ⟨node, rfl⟩
  exact ⟨List.nodup_nil, fun c mem => by simp [carriers] at mem⟩

/-- Once an answer is taken off, no other is left on its connection. -/
theorem Separate.alone (separate : Separate w) {r q : Response} (sent : r ∈ w.responses)
    (other : q ∈ w.responses.erase r) (same : q.process = r.process) : q.connection ≠ r.connection := by
  intro shared
  have once := ((List.perm_cons_erase sent).map (·.carrier)).nodup_iff.mp
    (List.nodup_append.mp separate.once).2.1
  exact (List.nodup_cons.mp once).1 (List.mem_map.mpr ⟨q, other, by simp only [Response.carrier, same, shared]⟩)

/-! ### What a process waits for -/

theorem awaited_of_some (there : w.processes[p]? = some P) : w.awaited p = P.waiting.map (·.1) := by
  rw [awaited, there, Option.bind_some]

theorem awaited_set (there : w.processes[p]? = some P) (changed : t.processes = w.processes.set p Q) (q : Nat) :
    t.awaited q = if q = p then Q.waiting.map (·.1) else w.awaited q := by
  have bound : p < w.processes.length := (List.getElem?_eq_some_iff.mp there).1
  split
  next same => exact awaited_of_some (by rw [changed, same, List.getElem?_set_self bound])
  next other => rw [awaited, awaited, changed, List.getElem?_set_ne (Ne.symm other)]

/-! ### Conservation -/

theorem newEvents_append {e u : Engine} (grown : Engine.Grown set.clusterID e.store u) :
    e.queued set.clusterID ++ newEvents set e u = u.queued set.clusterID := by
  -- the dispatcher appends, so the new events are what follows the old queue
  obtain ⟨rest, whole⟩ := grown
  have split_ : u.queued set.clusterID = e.queued set.clusterID ++ rest := whole.symm
  rw [newEvents, split_, List.drop_left]

theorem handling_grown (set : Setting) (w : World) (r : Request) :
    Engine.Grown set.clusterID w.node.engine.store (w.handling set r) :=
  (Engine.steady_grown.lasting.enduring.processJobProgress set.clusterID r.jobProgresses).after (Store.Grown.refl _)

theorem answered_erase {r : Response} (sent : r ∈ w.responses) :
    w.answered.Perm (r.answer.jobEvents ++ (w.responses.erase r).flatMap (·.answer.jobEvents)) :=
  (List.perm_cons_erase sent).flatMap_right _

/-- Every accepted event is in exactly one place. -/
def Conserved (set : Setting) (w : World) : Prop :=
  w.accepted.Perm (w.queue set ++ w.answered ++ w.received ++ w.lost ++ w.discarded)

theorem Conserved.iff_count : Conserved set w ↔ ∀ event, w.accepted.count event =
    (w.queue set).count event + w.answered.count event + w.received.count event + w.lost.count event +
      w.discarded.count event := by
  simp only [Conserved, List.perm_iff_count, List.count_append]

theorem Step.conserved (step : Step set w a t) (holds : Conserved set w) : Conserved set t := by
  rw [Conserved.iff_count] at holds ⊢
  intro event
  have before := holds event
  cases step with
  | joins => exact before
  | reports => exact before
  | refuses sent late served =>
    -- a refused heartbeat takes nothing out of the queue
    obtain ⟨_, _, same, none, -, kept⟩ := sendHeartbeat_refused late
    cases same.symm.trans served
    simpa [queue, answered, kept, none] using before
  | @serves r answer node sent admitted served =>
    obtain ⟨base, equation⟩ := sendHeartbeat_admitted admitted
    have grows := newEvents_append (handling_grown set w r)
    rw [equation] at served
    split at served
    next e handled =>
      cases served
      have same : w.handling set r = e := by rw [handling, handled, after_ok]
      have counts := congrArg (List.count event) (same ▸ grows)
      simp only [List.count_append] at counts
      simp only [queue, answered, EngineNode.taken, Engine.queued, List.flatMap_append, List.count_append,
        List.flatMap_cons, List.flatMap_nil, AList.lookup_erase, Option.getD_none, List.count_nil, List.append_nil,
        same] at before counts ⊢
      omega
    · cases served
  | @breaks r thrown node sent served =>
    by_cases admitted : w.Admits set r
    · obtain ⟨base, equation⟩ := sendHeartbeat_admitted admitted
      have grows := newEvents_append (handling_grown set w r)
      rw [equation] at served
      split at served
      · cases served
      next e handled =>
        cases served
        have same : w.handling set r = e := by rw [handling, handled, after_error]
        have counts := congrArg (List.count event) (same ▸ grows)
        simp only [List.count_append, queue, answered, same] at before counts ⊢
        omega
    · obtain ⟨_, _, same, -⟩ := sendHeartbeat_refused admitted
      cases same.symm.trans served
  | losesRequest => exact before
  | losesResponse sent =>
    have parts := (answered_erase sent).count_eq event
    simp only [List.count_append, queue, answered] at before parts ⊢
    omega
  | receives sent there waits =>
    have parts := (answered_erase sent).count_eq event
    simp only [List.count_append, queue, answered] at before parts ⊢
    omega
  | givesUp => exact before
  | registers served =>
    have kept := doRegister_queued served
    simpa [queue, answered, kept] using before
  | checks => exact before
  | discards =>
    simp only [queue, answered, EngineNode.taken, Engine.queued, List.count_append, AList.lookup_erase,
      Option.getD_none, List.count_nil] at before ⊢
    omega
  | unregisters => exact before
  | advances => exact before
  | works grown =>
    have counts := congrArg (List.count event) (newEvents_append grown)
    simp only [List.count_append, queue, answered] at before counts ⊢
    omega
  | restarts unregistered empty =>
    simp only [List.count_append, queue, answered, empty, List.count_nil] at before ⊢
    omega

theorem conserved {guard : World → Action → Prop} (reachable : Reachable (system set) guard w) : Conserved set w := by
  refine reachable.invariant ?_ fun _ _ _ holds _ step => Step.conserved step holds
  rintro _ ⟨node, rfl⟩
  simp [Conserved, queue, answered]

end World

end Hella

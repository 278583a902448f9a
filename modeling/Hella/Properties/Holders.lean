import Hella.Properties.Borrowing

/-!
# Busy slots and their holders

Between calls of `DBPools` each busy slot should be that of a thread's connection. A slot
is lost when a thread finds its connection dead and takes another one, and when the
attempt to replace the dead connection of a free slot fails. A refresh frees slots that are
in use.
-/
namespace Hella

open Runs Slots

namespace DBConnectionPool

/-- A turn stays in the method that has called. -/
theorem turn_caller (p : DBConnectionPool) (reply : Reply) {point next : Point}
    (continues : (p.turn reply point).1 = .continues next) : next.caller = point.caller := by
  have proceeds (caller : Caller) (after : proceed caller = .continues next) : next.caller = caller := by
    cases caller with
    | getConnection => cases after; rfl
    | createPool => cases after
    | refreshConnections => cases after
  have refreshes {caller : Caller} {index : Nat} {pConn : PooledConnection}
      (after : (p.refreshConnection caller index pConn reply.attempt).1 = .continues next) : next.caller = caller := by
    unfold refreshConnection at after
    split at after
    · exact proceeds caller after
    · cases after
      rfl
  -- each point belongs to a caller, and a turn goes on under the same one
  cases point with
  | findFreeConnection again =>
    simp only [turn] at continues
    split at continues
    · cases continues
    · cases continues
      cases again <;> rfl
  | createConnections caller x =>
    simp only [turn] at continues
    split at continues
    · split at continues <;> cases continues <;> rfl
    · exact proceeds caller continues
  | refreshConnections caller index =>
    simp only [turn] at continues
    split at continues
    · exact proceeds caller continues
    · split at continues
      · cases continues
        rfl
      · exact refreshes continues
  | busyWait caller index =>
    simp only [turn] at continues
    split at continues
    · exact proceeds caller continues
    · exact refreshes continues
  | retryWait =>
    cases continues
    rfl

/-- Only `getConnection` returns a connection. -/
theorem caller_of_returns {p q : DBConnectionPool} {reply : Reply} {point : Point} {connection : Connection}
    (turn : Turn p reply point (.returns connection) q) : point.caller = .getConnection := by
  cases turn with
  | keeps silent => exact absurd rfl (silent _)
  | adds silent => exact absurd rfl (silent _)
  | refreshes silent => exact absurd rfl (silent _)
  | aborts silent => exact absurd rfl (silent _)
  | lends => rfl
  | replaces => rfl

end DBConnectionPool

namespace DBPools

open DBConnectionPool

variable {n : Nat}

/-- When no call is under way, as many slots are busy as threads have a connection. -/
def Balanced (s : DBPools n) : Prop :=
  (∀ thread, s.stage thread = .idle) →
    s.connectionPool.connections.countP PooledConnection.busy =
      (Finset.univ.filter fun thread => (s.currentConnThreadLocal thread).isSome).card

/-- The connections that `currentConnection` tests are alive, a dead connection of a free
slot can be replaced when the slot is found, and a slot that a refresh has waited for is
free when the five seconds are over, unless it cannot be refreshed. -/
def Smooth (s : DBPools n) : Label n → Prop
  | .testConnection thread works =>
    ∀ connection, s.currentConnThreadLocal thread = some connection → s.connectionPool.usable connection works = true
  | .turn reply =>
    (∀ thread again index pConn, s.lock = some (thread, .findFreeConnection again) →
      s.connectionPool.connections.findIdx? (fun pConn => !pConn.busy) = some index →
      s.connectionPool.connections[index]? = some pConn →
      s.connectionPool.usable pConn.connection reply.works = true ∨ reply.attempt ≠ .refused) ∧
    ∀ thread caller index pConn, s.lock = some (thread, .busyWait caller index) →
      s.connectionPool.connections[index]? = some pConn → pConn.busy = true → reply.attempt = .refused
  | _ => True

/-- The lent connections are the threads' own, each of one thread. A thread that fetches a
connection has none. -/
structure Matched (s : DBPools n) : Prop where
  ordered : s.connectionPool.Ordered
  single : ∀ i j connection, s.currentConnThreadLocal i = some connection →
    s.currentConnThreadLocal j = some connection → i = j
  lent : ∀ connection, s.connectionPool.LentOut connection ↔ ∃ i, s.currentConnThreadLocal i = some connection
  fetching : ∀ i closing again, s.stage i = .fetching closing again → s.currentConnThreadLocal i = none
  caller : ∀ i point, s.lock = some (i, point) → point.caller = .getConnection →
    ∃ closing again, s.stage i = .fetching closing again

section

variable {s t : DBPools n} {thread : Fin n} {label : Label n}

theorem Matched.balanced (matched : s.Matched) : s.Balanced := fun _ =>
  countP_eq_card matched.ordered.distinct matched.single matched.lent

/-- A thread that does not fetch a connection may go on to another stage. -/
theorem Matched.setStage (matched : s.Matched) {stage : Stage}
    (apart : ∀ closing again, s.stage thread ≠ .fetching closing again)
    (none_ : ∀ closing again, stage = .fetching closing again → s.currentConnThreadLocal thread = none) :
    (s.setStage thread stage).Matched := by
  refine ⟨matched.ordered, matched.single, matched.lent, ?_, ?_⟩
  · intro i closing again at_
    by_cases same : i = thread
    · subst same
      exact none_ closing again ((Function.update_self ..).symm.trans at_)
    · exact matched.fetching i closing again ((Function.update_of_ne same ..).symm.trans at_)
  · intro i point under called
    obtain ⟨closing, again, at_⟩ := matched.caller i point under called
    have other : i ≠ thread := by
      rintro rfl
      exact apart closing again at_
    exact ⟨closing, again, (Function.update_of_ne other ..).trans at_⟩

/-- While nothing is handed out the threads keep their connections. -/
theorem Matched.silent (matched : s.Matched) {reply : Reply} {point : Point} {after : After} {q : DBConnectionPool}
    (under : s.lock = some (thread, point)) (smooth : s.Smooth (.turn reply))
    (turn : Turn s.connectionPool reply point after q)
    (silent : ∀ connection, after ≠ .returns connection) {lock : Option (Fin n × Point)}
    (caller : ∀ next, lock = some (thread, next) → next.caller = point.caller)
    (holder : ∀ i next, lock = some (i, next) → i = thread) :
    Matched { s with connectionPool := q, lock := lock } := by
  have same := turn.lentOut_silent matched.ordered silent
    (fun again index pConn at_ => smooth.1 thread again index pConn (at_ ▸ under))
    fun caller index pConn at_ => smooth.2 thread caller index pConn (at_ ▸ under)
  refine ⟨turn.ordered matched.ordered, matched.single, ?_, matched.fetching, ?_⟩
  · intro connection
    exact (same connection).trans (matched.lent connection)
  · intro i next at_ called
    obtain rfl := holder i next at_
    exact matched.caller i point under ((caller next at_).symm.trans called)

/-- The thread that has fetched a connection becomes its owner. -/
theorem Matched.owns (matched : s.Matched) {reply : Reply} {point : Point} {connection : Connection}
    {q : DBConnectionPool}
    (turn : Turn s.connectionPool reply point (.returns connection) q) (none_ : s.currentConnThreadLocal thread = none)
    {stage : Stage} (apart : ∀ closing again, stage ≠ .fetching closing again) :
    (({ s with connectionPool := q, lock := none }.set thread (some connection)).setStage thread stage).Matched := by
  obtain ⟨notLent, -⟩ := turn.returned matched.ordered rfl
  -- nobody has the connection yet
  have unowned (i : Fin n) : s.currentConnThreadLocal i ≠ some connection := by
    intro owns
    exact notLent ((matched.lent connection).mpr ⟨i, owns⟩)
  have updated (i : Fin n) (other : Connection) :
      Function.update s.currentConnThreadLocal thread (some connection) i = some other ↔
        i = thread ∧ other = connection ∨ s.currentConnThreadLocal i = some other := by
    by_cases same : i = thread
    · subst same
      rw [Function.update_self, Option.some_inj, none_]
      simp [eq_comm]
    · rw [Function.update_of_ne same]
      simp [same]
  refine ⟨turn.ordered matched.ordered, ?_, ?_, ?_, ?_⟩
  · intro i j other first second
    rcases (updated i other).mp first with ⟨rfl, rfl⟩ | before
    · rcases (updated j _).mp second with ⟨rfl, -⟩ | also
      · rfl
      · exact absurd also (unowned j)
    · rcases (updated j other).mp second with ⟨rfl, rfl⟩ | also
      · exact absurd before (unowned i)
      · exact matched.single i j other before also
  · intro other
    refine (turn.lentOut_returned matched.ordered rfl other).trans ?_
    rw [matched.lent other]
    constructor
    · rintro (rfl | ⟨i, owns⟩)
      · exact ⟨thread, (updated thread other).mpr (.inl ⟨rfl, rfl⟩)⟩
      · exact ⟨i, (updated i other).mpr (.inr owns)⟩
    · rintro ⟨i, owns⟩
      rcases (updated i other).mp owns with ⟨-, rfl⟩ | before
      · exact .inl rfl
      · exact .inr ⟨i, before⟩
  · intro i closing again at_
    by_cases same : i = thread
    · subst same
      exact absurd ((Function.update_self ..).symm.trans at_) (apart closing again)
    · have before := matched.fetching i closing again ((Function.update_of_ne same ..).symm.trans at_)
      exact (Function.update_of_ne same ..).trans before
  · intro i next held
    cases held

theorem Matched.turn (matched : s.Matched) {reply : Reply} {point : Point} {after : After} {q : DBConnectionPool}
    (under : s.lock = some (thread, point)) (smooth : s.Smooth (.turn reply))
    (turn : Turn s.connectionPool reply point after q)
    (caller : ∀ next, after = .continues next → next.caller = point.caller) :
      (s.proceed thread (after, q)).Matched := by
  cases after with
  | continues next =>
    apply matched.silent under smooth turn (by simp)
    · intro other same
      obtain ⟨-, rfl⟩ := Prod.mk.inj (Option.some.inj same)
      exact caller next rfl
    · intro i other same
      exact (congrArg Prod.fst (Option.some.inj same)).symm
  | finished =>
    have ended : Matched { s with connectionPool := q, lock := none } :=
      matched.silent under smooth turn (by simp) (by simp) (by simp)
    -- the thread leaves its call, and holds no lock any more
    refine ⟨ended.ordered, ended.single, ended.lent, ?_, ?_⟩
    · intro i closing again at_
      by_cases same : i = thread
      · subst same
        cases (Function.update_self ..).symm.trans at_
      · exact ended.fetching i closing again ((Function.update_of_ne same ..).symm.trans at_)
    · intro i next held
      cases held
  | returns connection =>
    obtain ⟨closing, again, at_⟩ := matched.caller thread point under (caller_of_returns turn)
    have none_ := matched.fetching thread closing again at_
    simp only [proceed, DBPools.set, at_]
    cases again with
    | true => exact matched.owns turn none_ (by cases closing <;> simp [ended])
    | false => exact matched.owns turn none_ (by simp)

theorem Matched.release (matched : s.Matched) {connection : Connection} (releasing : s.stage thread = .releasing)
    (current : s.currentConnThreadLocal thread = some connection) : (s.release thread connection).Matched := by
  have lent := (matched.lent connection).mpr ⟨thread, current⟩
  have known : connection < s.connectionPool.opened := by
    obtain ⟨pConn, member, same, -⟩ := lent
    exact same ▸ matched.ordered.older _ (List.mem_map_of_mem member)
  have updated (i : Fin n) (other : Connection) :
      Function.update s.currentConnThreadLocal thread none i = some other ↔
        i ≠ thread ∧ s.currentConnThreadLocal i = some other := by
    by_cases same : i = thread
    · subst same
      simp
    · rw [Function.update_of_ne same]
      simp [same]
  -- the slot of the connection is found, and it is the only one that changes
  have freed (other : Connection) :
      (s.connectionPool.releaseConnection connection).LentOut other ↔ s.connectionPool.LentOut other ∧
        other ≠ connection := by
    rcases s.connectionPool.releaseConnection_spec connection with ⟨pConn, rfl, exchanged, -⟩ | ⟨unknown, -⟩
    · refine (exchanged.lent_iff matched.ordered.distinct).trans ?_
      simp [PooledConnection.setBusy, LentOut]
    · obtain ⟨pConn, member, rfl, -⟩ := lent
      exact absurd (List.mem_map_of_mem member) unknown
  refine ⟨matched.ordered.releaseConnection known, ?_, ?_, ?_, ?_⟩
  · intro i j other first second
    exact matched.single i j other ((updated i other).mp first).2 ((updated j other).mp second).2
  · intro other
    refine (freed other).trans ?_
    rw [matched.lent other]
    constructor
    · rintro ⟨⟨i, owns⟩, different⟩
      refine ⟨i, (updated i other).mpr ⟨?_, owns⟩⟩
      rintro rfl
      exact different (Option.some.inj (owns.symm.trans current))
    · rintro ⟨i, owns⟩
      obtain ⟨apart, before⟩ := (updated i other).mp owns
      refine ⟨⟨i, before⟩, ?_⟩
      rintro rfl
      exact apart (matched.single i thread other before current)
  · intro i closing again at_
    by_cases same : i = thread
    · subst same
      exact Function.update_self ..
    · have before := matched.fetching i closing again ((Function.update_of_ne same ..).symm.trans at_)
      exact (Function.update_of_ne same ..).trans before
  · intro i point under called
    obtain ⟨closing, again, at_⟩ := matched.caller i point under called
    have other : i ≠ thread := by
      rintro rfl
      rw [releasing] at at_
      cases at_
    exact ⟨closing, again, (Function.update_of_ne other ..).trans at_⟩

theorem Matched.call (matched : s.Matched) (idle : s.stage thread = .idle) (closing : Bool) :
    (s.call thread closing).Matched := by
  have apart (closing again : Bool) : s.stage thread ≠ .fetching closing again := by simp [idle]
  unfold DBPools.call
  split
  next none_ =>
    apply matched.setStage apart
    intro _ _ _
    exact Option.isNone_iff_eq_none.mp none_
  next => exact matched.setStage apart (by simp)

theorem Matched.step (matched : s.Matched) (smooth : s.Smooth label) (step : Step s label t) : t.Matched := by
  cases step with
  | currentConnection idle => exact matched.call idle false
  | closeConnection idle => exact matched.call idle true
  | @getConnection thread closing again fetching free =>
    refine ⟨matched.ordered, matched.single, matched.lent, matched.fetching, ?_⟩
    intro i point under _
    obtain ⟨rfl, -⟩ := Prod.mk.inj (Option.some.inj under)
    exact ⟨closing, again, fetching⟩
  | turn reply under =>
    exact matched.turn under smooth (turn_spec ..) fun next continues => turn_caller _ reply continues
  | testConnection works testing current =>
    have passes : s.connectionPool.testConnection _ works = (true, s.connectionPool) := if_pos (smooth _ current)
    rw [passes]
    apply Matched.setStage matched
    · simp [testing]
    · intro closing' again at_
      unfold ended at at_
      split at at_ <;> cases at_
  | releaseConnection releasing current => exact matched.release releasing current

/-- In a smooth run no slot is lost. -/
theorem balanced_of_smooth (reachable : Reachable (system n) Smooth s) : s.Balanced := by
  apply Matched.balanced
  apply reachable.invariant
  · rintro _ ⟨testTable, initial, incremental, max, thread, rfl⟩
    refine ⟨?_, by simp, ?_, ?_, ?_⟩
    · constructor <;> simp [Pooled]
    · simp [LentOut, Lent]
    · simp
    · intro i point under called
      cases under
      cases called
  · intro s label t matched smooth step
    exact matched.step smooth step

end

/-! One thread and a pool of at most two connections. -/

def single (pool : DBConnectionPool) (current : Option Connection) (stage : Stage) (point : Option Point) : DBPools 1 :=
  { connectionPool := pool
    currentConnThreadLocal := fun _ => current
    stage := fun _ => stage
    lock := point.map fun point => (0, point) }

theorem eq_single {s : DBPools 1} {pool : DBConnectionPool} {current : Option Connection} {stage : Stage}
    {point : Option Point} (pools : s.connectionPool = pool) (currents : s.currentConnThreadLocal 0 = current)
    (stages : s.stage 0 = stage) (locks : s.lock = point.map fun point => (0, point)) :
      s = single pool current stage point := by
  obtain ⟨connectionPool, currentConnThreadLocal, stage', lock⟩ := s
  cases pools
  cases locks
  congr
  · funext i
    rw [Subsingleton.elim i 0]
    exact currents
  · funext i
    rw [Subsingleton.elim i 0]
    exact stages

/-- The pool with these slots, after so many connections were opened. -/
def pair (connections : List PooledConnection) (opened : Nat) (closed : List Connection) : DBConnectionPool :=
  { initialConnections := 1, incrementalConnections := 1, maxConnections := 2,
    connections := connections, opened := opened,
    closed := closed }

/-- The thread has fetched a connection and tested it. -/
def fetched : DBPools 1 := single (pair [⟨0, true⟩] 1 []) (some 0) .idle none

theorem quiet {s : DBPools 1} (elsewhere : ∀ thread caller index, s.lock ≠ some (thread, .busyWait caller index)) :
    s.Smooth (.turn Borrowing.answer) :=
  ⟨fun _ _ _ _ _ _ _ => .inr (by simp [Borrowing.answer]), fun thread caller index _ at_ =>
    absurd at_ (elsewhere thread caller index)⟩

theorem turns {guard : DBPools 1 → Label 1 → Prop} {s t : DBPools 1} {point : Point}
    (reachable : Reachable (system 1) guard s)
    (admitted : guard s (.turn Borrowing.answer)) (under : s.lock = some (0, point))
    (result : s.proceed 0 (s.connectionPool.turn Borrowing.answer point) = t) : Reachable (system 1) guard t :=
  result ▸ .next reachable admitted (.turn Borrowing.answer under)

theorem acts {guard : DBPools 1 → Label 1 → Prop} {s t u : DBPools 1} (reachable : Reachable (system 1) guard s)
    (label : Label 1) (admitted : guard s label) (step : Step s label u) (result : u = t) :
      Reachable (system 1) guard t :=
  result ▸ .next reachable admitted step

theorem reachable_fetched : Reachable (system 1) Smooth fetched := by
  have start : Reachable (system 1) Smooth (single (pair [] 0 []) none .creatingPool
    (some (.createConnections .createPool 0))) := by
    refine .start ⟨"", 1, 1, 2, 0, ?_⟩
    symm
    exact eq_single rfl rfl rfl rfl
  have opened : Reachable (system 1) Smooth
      (single (pair [⟨0, false⟩] 1 []) none .creatingPool (some (.createConnections .createPool 1))) :=
    turns start (quiet (by simp [single])) rfl (eq_single rfl rfl rfl rfl)
  have created : Reachable (system 1) Smooth (single (pair [⟨0, false⟩] 1 []) none .idle none) :=
    turns opened (quiet (by simp [single])) rfl (eq_single rfl rfl rfl rfl)
  have calls : Reachable (system 1) Smooth (single (pair [⟨0, false⟩] 1 []) none (.fetching false false) none) :=
    acts created (.currentConnection 0) trivial (.currentConnection rfl) (eq_single rfl rfl rfl rfl)
  have enters : Reachable (system 1) Smooth
      (single (pair [⟨0, false⟩] 1 []) none (.fetching false false) (some (.findFreeConnection false))) :=
    acts calls (.getConnection 0) trivial (.getConnection rfl rfl) (eq_single rfl rfl rfl rfl)
  have found : Reachable (system 1) Smooth (single (pair [⟨0, true⟩] 1 []) (some 0) (.testing false) none) :=
    turns enters (quiet (by simp [single])) rfl (eq_single rfl rfl rfl rfl)
  refine acts found (.testConnection 0 fun _ => true) ?_ (.testConnection _ rfl rfl) (eq_single rfl rfl rfl rfl)
  intro connection current
  cases current
  rfl

/-- The one busy slot is that of the thread. -/
theorem balanced_fetched : fetched.Balanced ∧ fetched.connectionPool.connections.countP PooledConnection.busy = 1 :=
  ⟨balanced_of_smooth reachable_fetched, rfl⟩

/-- The thread's connection dies. It gets another one, and the slot of the first stays
busy. -/
theorem not_balanced_exchanged : ∃ s, Reachable (system 1) (fun _ _ => True) s ∧ 1 < s.connectionPool.maxConnections ∧
    ¬ s.Balanced := by
  -- the connection fetched is found dead, so the pool makes a second one and lends it as well
  have fetched : Reachable (system 1) (fun _ _ => True) fetched := reachable_fetched.mono fun _ _ _ => trivial
  have again : Reachable (system 1) (fun _ _ => True) (single (pair [⟨0, true⟩] 1 []) (some 0) (.testing false) none) :=
    acts fetched (.currentConnection 0) trivial (.currentConnection rfl) (eq_single rfl rfl rfl rfl)
  have dead : Reachable (system 1) (fun _ _ => True)
    (single (pair [⟨0, true⟩] 1 [0]) (some 0) (.fetching false true) none) :=
    acts again (.testConnection 0 fun _ => false) trivial (.testConnection _ rfl rfl) (eq_single rfl rfl rfl rfl)
  have enters : Reachable (system 1) (fun _ _ => True)
      (single (pair [⟨0, true⟩] 1 [0]) (some 0) (.fetching false true) (some (.findFreeConnection false))) :=
    acts dead (.getConnection 0) trivial (.getConnection rfl rfl) (eq_single rfl rfl rfl rfl)
  have none_ : Reachable (system 1) (fun _ _ => True)
      (single (pair [⟨0, true⟩] 1 [0]) (some 0) (.fetching false true) (some (.createConnections .getConnection 0))) :=
    turns enters trivial rfl (eq_single rfl rfl rfl rfl)
  have added : Reachable (system 1) (fun _ _ => True)
      (single (pair [⟨0, true⟩, ⟨1, false⟩] 2 [0]) (some 0) (.fetching false true)
        (some (.createConnections .getConnection 1))) :=
    turns none_ trivial rfl (eq_single rfl rfl rfl rfl)
  have created : Reachable (system 1) (fun _ _ => True)
      (single (pair [⟨0, true⟩, ⟨1, false⟩] 2 [0]) (some 0) (.fetching false true) (some (.findFreeConnection true))) :=
    turns added trivial rfl (eq_single rfl rfl rfl rfl)
  have exchanged : Reachable (system 1) (fun _ _ => True)
    (single (pair [⟨0, true⟩, ⟨1, true⟩] 2 [0]) (some 1) .idle none) :=
    turns created trivial rfl (eq_single rfl rfl rfl rfl)
  refine ⟨_, exchanged, by decide, ?_⟩
  intro balanced
  have two := balanced fun _ => rfl
  revert two
  decide

end DBPools

end Hella

import Hella.Engine.ConnectionPool

/-!
# Borrowed connections

A connection that was handed out stays in its busy slot until it is released, and nobody
else gets it. `refreshConnections`, which a caller of a full pool starts, closes busy
connections too, after a wait of five seconds.
-/
namespace Hella

open Runs Slots

namespace DBConnectionPool

/-! ### What a turn does to the slots -/

/-- What a turn that starts at this point can do to the pool. -/
inductive Turn (p : DBConnectionPool) (reply : Reply) : Point → After → DBConnectionPool → Prop where
  | keeps {point : Point} {after : After} {q : DBConnectionPool} (silent : ∀ connection, after ≠ .returns connection)
      (connections : q.connections = p.connections) (closed : q.closed = p.closed) (opened : p.opened ≤ q.opened) :
      Turn p reply point after q
  | adds {point : Point} {after : After} {q : DBConnectionPool} (silent : ∀ connection, after ≠ .returns connection)
      (connections : q.connections = p.connections ++ [{ connection := p.opened }]) (closed : q.closed = p.closed)
      (opened : q.opened = p.opened + 1) : Turn p reply point after q
  | lends {again : Bool} {pConn : PooledConnection} {q : DBConnectionPool} (free : pConn.busy = false)
      (usable : p.usable pConn.connection reply.works = true)
      (exchanged : Exchanged pConn (pConn.setBusy true) p.connections q.connections) (closed : q.closed = p.closed)
      (opened : q.opened = p.opened) : Turn p reply (.findFreeConnection again) (.returns pConn.connection) q
  | replaces {again : Bool} {pConn : PooledConnection} {q : DBConnectionPool} (free : pConn.busy = false)
      (exchanged : Exchanged pConn ⟨p.opened, true⟩ p.connections q.connections)
      (closed : q.closed = p.closed ++ [pConn.connection]) (opened : q.opened = p.opened + 1) :
      Turn p reply (.findFreeConnection again) (.returns p.opened) q
  /-- The first free slot stays busy, and nobody gets its connection. -/
  | loses {again : Bool} {index : Nat} {pConn : PooledConnection} {point : Point} {q : DBConnectionPool}
      (first : p.connections.findIdx? (fun pConn => !pConn.busy) = some index)
        (here : p.connections[index]? = some pConn)
      (unusable : p.usable pConn.connection reply.works = false) (refused : reply.attempt = .refused)
      (exchanged : Exchanged pConn (pConn.setBusy true) p.connections q.connections)
      (closed : q.closed = p.closed ++ [pConn.connection]) (opened : q.opened = p.opened) :
      Turn p reply (.findFreeConnection again) (.continues point) q
  | refreshes {point : Point} {after : After} {pConn : PooledConnection} {q : DBConnectionPool}
      (silent : ∀ connection, after ≠ .returns connection)
      (late : pConn.busy = true → ∃ caller index, point = .busyWait caller index ∧ p.connections[index]? = some pConn)
      (accepted : reply.attempt ≠ .refused) (exchanged : Exchanged pConn ⟨p.opened, false⟩ p.connections q.connections)
      (closed : q.closed = p.closed ++ [pConn.connection]) (opened : q.opened = p.opened + 1) :
        Turn p reply point after q
  | aborts {point : Point} {after : After} {pConn : PooledConnection} {q : DBConnectionPool}
      (silent : ∀ connection, after ≠ .returns connection) (member : pConn ∈ p.connections)
      (late : pConn.busy = true → ∃ caller index, point = .busyWait caller index ∧ p.connections[index]? = some pConn)
      (connections : q.connections = p.connections) (closed : q.closed = p.closed ++ [pConn.connection])
      (opened : q.opened = p.opened) : Turn p reply point after q

variable {p q : DBConnectionPool} {reply : Reply} {point : Point} {after : After} {connection : Connection}

theorem proceed_silent (caller : Caller) (connection : Connection) : proceed caller ≠ .returns connection := by
  cases caller with
  | createPool => nofun
  | getConnection => nofun
  | refreshConnections => nofun

theorem connections_ne_nil {index : Nat} {pConn : PooledConnection} (here : p.connections[index]? = some pConn) :
    p.connections ≠ [] := by
  intro empty
  rw [empty] at here
  cases here

theorem free_of_first {index : Nat} {pConn : PooledConnection}
    (first : p.connections.findIdx? (fun pConn => !pConn.busy) = some index)
    (here : p.connections[index]? = some pConn) :
    pConn.busy = false := by
  obtain ⟨_, notBusy, -⟩ := List.findIdx?_eq_some_iff_getElem.mp first
  obtain ⟨_, rfl⟩ := List.getElem?_eq_some_iff.mp here
  simpa using notBusy

/-- Once there is a slot, an attempt fails only if the driver refuses. -/
theorem newConnection_eq (some_ : p.connections ≠ []) (attempt : Attempt) :
    p.newConnection attempt =
      if attempt = .refused then (none, p) else (some p.opened, { p with opened := p.opened + 1 }) := by
  cases attempt with
  | refused => rfl
  | made driverMaxConnections => simp [newConnection, some_]

/-- A new connection has the next number, and the slots and the closed connections stay. -/
theorem newConnection_spec (attempt : Attempt) {result : Option Connection}
    (made : p.newConnection attempt = (result, q)) :
    q.connections = p.connections ∧ q.closed = p.closed ∧ p.opened ≤ q.opened ∧
      ∀ connection, result = some connection → connection = p.opened ∧ q.opened = p.opened + 1 := by
  unfold newConnection at made
  repeat' split at made
  all_goals
    obtain ⟨rfl, rfl⟩ := Prod.mk.inj made
    simp

theorem turn_findFreeConnection (p : DBConnectionPool) (reply : Reply) (again : Bool) :
    Turn p reply (.findFreeConnection again) (p.turn reply (.findFreeConnection again)).1
      (p.turn reply (.findFreeConnection again)).2 := by
  unfold turn findFreeConnection
  cases found : p.connections.findIdx? fun pConn => !pConn.busy with
  | none => exact .keeps (by simp) rfl rfl (Nat.le_refl _)
  | some index =>
    obtain ⟨inside, -⟩ := List.findIdx?_eq_some_iff_getElem.mp found
    have here : p.connections[index]? = some p.connections[index] := List.getElem?_eq_getElem inside
    have free := free_of_first found here
    -- the slot is set busy first, and stays so whatever the test says
    have set_ := exchanged_modify (PooledConnection.setBusy true) here
    simp only [here]
    unfold testConnection
    cases usable : p.usable p.connections[index].connection reply.works with
    | true =>
      have same : (p.modify index (.setBusy true)).usable p.connections[index].connection reply.works = true := usable
      simp only [same, if_true]
      exact .lends free usable set_ rfl rfl
    | false =>
      have same : (p.modify index (.setBusy true)).usable p.connections[index].connection reply.works = false := usable
      have slots : ((p.modify index (.setBusy true)).closeConnection p.connections[index].connection).connections ≠
        [] :=
        set_.ne_nil
      simp only [same, Bool.false_eq_true, if_false, newConnection_eq slots]
      by_cases refused : reply.attempt = .refused
      · simp only [refused, if_true]
        exact .loses found here usable refused set_ rfl rfl
      · simp only [refused, if_false]
        refine .replaces free ?_ rfl rfl
        -- the second change is made to the slot that the first has made busy
        have twice := exchanged_modify (PooledConnection.setConnection p.opened ∘ PooledConnection.setBusy true) here
        rwa [← List.modify_modify_eq] at twice

/-- The rest of the body in `refreshConnections`. -/
theorem turn_refreshConnection {caller : Caller} {index : Nat} {pConn : PooledConnection}
    (here : p.connections[index]? = some pConn)
    (late : pConn.busy = true → ∃ caller index, point = .busyWait caller index ∧ p.connections[index]? = some pConn) :
    Turn p reply point (p.refreshConnection caller index pConn reply.attempt).1
      (p.refreshConnection caller index pConn reply.attempt).2 := by
  have slots : (p.closeConnection pConn.connection).connections ≠ [] := connections_ne_nil here
  unfold refreshConnection
  rw [newConnection_eq slots]
  by_cases refused : reply.attempt = .refused
  · simp only [refused, if_true]
    exact .aborts (proceed_silent caller) (List.mem_of_getElem? here) late rfl rfl rfl
  · simp only [refused, if_false]
    have twice := exchanged_modify (PooledConnection.setBusy false ∘ PooledConnection.setConnection p.opened) here
    rw [← List.modify_modify_eq] at twice
    exact .refreshes (by simp) late refused twice rfl rfl

/-- After its wait for a busy slot the refresh closes the connection of the slot. -/
theorem turn_busyWait {index : Nat} {pConn : PooledConnection}
    (here : p.connections[index]? = some pConn) (reply : Reply) (caller : Caller) :
    (p.turn reply (.busyWait caller index)).2.closed = p.closed ++ [pConn.connection] ∧
      ∀ connection, (p.turn reply (.busyWait caller index)).1 ≠ .returns connection := by
  have slots : (p.closeConnection pConn.connection).connections ≠ [] := connections_ne_nil here
  simp only [turn, here, refreshConnection, newConnection_eq slots]
  by_cases refused : reply.attempt = .refused
  · simp only [refused, if_true]
    exact ⟨rfl, proceed_silent caller⟩
  · simp only [refused, if_false]
    exact ⟨rfl, by simp⟩

theorem turn_spec (p : DBConnectionPool) (reply : Reply) (point : Point) :
    Turn p reply point (p.turn reply point).1 (p.turn reply point).2 := by
  cases point with
  | findFreeConnection again => exact turn_findFreeConnection p reply again
  | createConnections caller x =>
    -- enough connections, or one more is to be made
    simp only [turn]
    split
    · -- a full vector is refreshed, another one gets a slot
      split
      · exact .keeps (by simp) rfl rfl (Nat.le_refl _)
      · unfold addConnection
        split
        next q made =>
          obtain ⟨connections, closed, opened, -⟩ := newConnection_spec _ made
          exact .keeps (by simp) connections closed opened
        next connection q made =>
          obtain ⟨connections, closed, -, new⟩ := newConnection_spec _ made
          obtain ⟨rfl, opened⟩ := new connection rfl
          exact .adds (by simp) (by rw [connections]) closed opened
    · exact .keeps (proceed_silent caller) rfl rfl (Nat.le_refl _)
  | refreshConnections caller index =>
    simp only [turn]
    split
    next => exact .keeps (proceed_silent caller) rfl rfl (Nat.le_refl _)
    next pConn here =>
      split
      next => exact .keeps (by simp) rfl rfl (Nat.le_refl _)
      next free => exact turn_refreshConnection here fun busy => absurd busy free
  | busyWait caller index =>
    simp only [turn]
    split
    next => exact .keeps (proceed_silent caller) rfl rfl (Nat.le_refl _)
    next pConn here => exact turn_refreshConnection here fun _ => ⟨caller, index, rfl, here⟩
  | retryWait => exact .keeps (by simp [turn]) rfl rfl (Nat.le_refl _)

/-! ### Pooled and lent connections -/

def Pooled (p : DBConnectionPool) (connection : Connection) : Prop :=
  connection ∈ p.connections.map PooledConnection.connection

/-- The connection is that of a busy slot. -/
def LentOut (p : DBConnectionPool) (connection : Connection) : Prop :=
  Lent PooledConnection.connection PooledConnection.busy p.connections connection

/-- No two slots have one connection, and a new connection is not known to the pool. -/
structure Ordered (p : DBConnectionPool) : Prop where
  distinct : (p.connections.map PooledConnection.connection).Nodup
  older : ∀ connection, p.Pooled connection → connection < p.opened
  closed : ∀ connection ∈ p.closed, connection < p.opened

namespace Ordered

variable (ordered : p.Ordered)

include ordered

theorem not_lentOut_of_free {pConn : PooledConnection} (member : pConn ∈ p.connections) (free : pConn.busy = false) :
    ¬ p.LentOut pConn.connection := by
  intro lent
  rw [busy_of_lent ordered.distinct member lent] at free
  cases free

theorem not_pooled_opened : ¬ p.Pooled p.opened := fun pooled => Nat.lt_irrefl _ (ordered.older _ pooled)

theorem not_lentOut_opened : ¬ p.LentOut p.opened := by
  rintro ⟨pConn, member, same, -⟩
  exact ordered.not_pooled_opened (same ▸ List.mem_map_of_mem member)

/-- Of a free slot nothing is lent, so what was lent stays lent when it changes. -/
theorem lentOut_exchanged {x y : PooledConnection} (free : x.busy = false)
    (exchanged : Exchanged x y p.connections q.connections) (connection : Connection) :
    q.LentOut connection ↔ y.connection = connection ∧ y.busy = true ∨ p.LentOut connection := by
  refine (exchanged.lent_iff ordered.distinct).trans ?_
  constructor
  · rintro (new | ⟨lent, -⟩)
    · exact .inl new
    · exact .inr lent
  · rintro (new | lent)
    · exact .inl new
    · refine .inr ⟨lent, ?_⟩
      rintro rfl
      exact ordered.not_lentOut_of_free exchanged.mem free lent

/-- The slots stay as they are. -/
theorem same (connections : q.connections = p.connections) (opened : p.opened ≤ q.opened)
    (closed : ∀ connection ∈ q.closed, connection ∈ p.closed ∨ p.Pooled connection) : q.Ordered := by
  constructor
  · rw [connections]
    exact ordered.distinct
  · intro connection pooled
    rw [Pooled, connections] at pooled
    exact (ordered.older _ pooled).trans_le opened
  · intro connection member
    rcases closed connection member with old | pooled
    · exact (ordered.closed _ old).trans_le opened
    · exact (ordered.older _ pooled).trans_le opened

/-- A slot gets busy, free, or a connection that is new. -/
theorem exchanged {x y : PooledConnection} (exchanged : Exchanged x y p.connections q.connections)
    (own : y.connection = x.connection ∨ y.connection = p.opened ∧ p.opened < q.opened) (opened : p.opened ≤ q.opened)
    (closed : ∀ connection ∈ q.closed, connection ∈ p.closed ∨ connection = x.connection) : q.Ordered := by
  have old : x.connection < p.opened := ordered.older _ (List.mem_map_of_mem exchanged.mem)
  constructor
  · apply exchanged.distinct ordered.distinct
    rcases own with same | ⟨fresh, -⟩
    · exact .inl same
    · exact .inr (fresh ▸ ordered.not_pooled_opened)
  · intro connection pooled
    rcases exchanged.key_mem pooled with rfl | before
    · rcases own with same | ⟨fresh, less⟩
      · exact same ▸ old.trans_le opened
      · exact fresh ▸ less
    · exact (ordered.older _ before).trans_le opened
  · intro connection member
    rcases closed connection member with before | rfl
    · exact (ordered.closed _ before).trans_le opened
    · exact old.trans_le opened

end Ordered

namespace Turn

variable (turn : Turn p reply point after q)

include turn

theorem ordered (ordered : p.Ordered) : q.Ordered := by
  have append {connection closing : Connection} {closed : List Connection} (same : closed = p.closed ++ [closing])
      (member : connection ∈ closed) : connection ∈ p.closed ∨ connection = closing := by
    simpa [same] using member
  -- a turn adds at most one connection, and a new one is numbered after all that were opened
  cases turn with
  | keeps _ connections closed opened => exact ordered.same connections opened fun _ member => .inl (closed ▸ member)
  | adds _ connections closed opened =>
    have newer : p.opened < q.opened := by omega
    constructor
    · rw [connections, List.map_append, List.map_singleton, List.nodup_append_comm,
        List.singleton_append, List.nodup_cons]
      exact ⟨ordered.not_pooled_opened, ordered.distinct⟩
    · intro connection pooled
      rw [Pooled, connections, List.map_append, List.map_singleton, List.mem_append, List.mem_singleton] at pooled
      rcases pooled with old | rfl
      · exact (ordered.older _ old).trans newer
      · exact newer
    · intro connection member
      rw [closed] at member
      exact (ordered.closed _ member).trans newer
  | lends _ _ exchanged closed opened =>
    exact ordered.exchanged exchanged (.inl rfl) opened.ge fun _ member => .inl (closed ▸ member)
  | replaces _ exchanged closed opened =>
    exact ordered.exchanged exchanged (.inr ⟨rfl, by omega⟩) (by omega) fun _ => append closed
  | loses _ _ _ _ exchanged closed opened =>
    exact ordered.exchanged exchanged (.inl rfl) opened.ge fun _ => append closed
  | refreshes _ _ _ exchanged closed opened =>
    exact ordered.exchanged exchanged (.inr ⟨rfl, by omega⟩) (by omega) fun _ => append closed
  -- no new connection was opened: the old one is closed, and its slot keeps it
  | aborts _ member _ connections closed opened =>
    apply ordered.same connections opened.ge
    intro connection among
    rcases append closed among with old | rfl
    · exact .inl old
    · exact .inr (List.mem_map_of_mem member)

theorem opened : p.opened ≤ q.opened := by
  cases turn <;> omega

theorem pooled (pooled : q.Pooled connection) : p.Pooled connection ∨ connection = p.opened := by
  unfold Pooled at pooled ⊢
  cases turn with
  | keeps _ connections => exact .inl (connections ▸ pooled)
  | adds _ connections =>
    rw [connections, List.map_append, List.mem_append] at pooled
    exact pooled.imp_right List.mem_singleton.mp
  | lends _ _ exchanged =>
    rcases exchanged.key_mem pooled with rfl | old
    · exact .inl (List.mem_map.mpr ⟨_, exchanged.mem, rfl⟩)
    · exact .inl old
  | replaces _ exchanged => exact (exchanged.key_mem pooled).symm
  | loses _ _ _ _ exchanged =>
    rcases exchanged.key_mem pooled with rfl | old
    · exact .inl (List.mem_map.mpr ⟨_, exchanged.mem, rfl⟩)
    · exact .inl old
  | refreshes _ _ _ exchanged => exact (exchanged.key_mem pooled).symm
  | aborts _ _ _ connections => exact .inl (connections ▸ pooled)

/-- The connection handed out is lent in addition to the others. -/
theorem lentOut_returned (ordered : p.Ordered) (gives : after = .returns connection) (other : Connection) :
    q.LentOut other ↔ other = connection ∨ p.LentOut other := by
  cases turn with
  | keeps silent => exact absurd gives (silent _)
  | adds silent => exact absurd gives (silent _)
  | refreshes silent => exact absurd gives (silent _)
  | aborts silent => exact absurd gives (silent _)
  | loses => cases gives
  | lends free _ exchanged =>
    cases gives
    rw [ordered.lentOut_exchanged free exchanged, PooledConnection.setBusy, eq_comm]
    exact or_congr_left (and_iff_left rfl)
  | replaces free exchanged =>
    cases gives
    rw [ordered.lentOut_exchanged free exchanged, eq_comm]
    exact or_congr_left (and_iff_left rfl)

/-- The connections lent stay the same if no slot is lost and no busy one is exchanged. -/
theorem lentOut_silent (ordered : p.Ordered) (silent : ∀ connection, after ≠ .returns connection)
    (kept : ∀ again index pConn, point = .findFreeConnection again →
      p.connections.findIdx? (fun pConn => !pConn.busy) = some index → p.connections[index]? = some pConn →
      p.usable pConn.connection reply.works = true ∨ reply.attempt ≠ .refused)
    (inTime : ∀ caller index pConn, point = .busyWait caller index → p.connections[index]? = some pConn →
      pConn.busy = true → reply.attempt = .refused) (other : Connection) : q.LentOut other ↔ p.LentOut other := by
  cases turn with
  | keeps _ connections => rw [LentOut, connections, LentOut]
  | adds _ connections => rw [LentOut, connections, lent_concat_free rfl, LentOut]
  | lends => exact absurd rfl (silent _)
  | replaces => exact absurd rfl (silent _)
  | loses first here unusable refused =>
    rcases kept _ _ _ rfl first here with usable | accepted
    · rw [unusable] at usable
      cases usable
    · exact absurd refused accepted
  | @refreshes _ _ pConn _ _ late accepted exchanged =>
    -- the slot is free, so its connection is not lent
    have free : pConn.busy = false := by
      cases busy : pConn.busy with
      | false => rfl
      | true =>
        obtain ⟨caller, index, at_, here⟩ := late busy
        exact absurd (inTime caller index pConn at_ here busy) accepted
    rw [ordered.lentOut_exchanged free exchanged]
    simp
  | aborts _ _ _ connections => rw [LentOut, connections, LentOut]

/-- A busy slot stays busy as long as it keeps its connection. -/
theorem lentOut (ordered : p.Ordered) (lent : p.LentOut connection) (pooled : q.Pooled connection) :
    q.LentOut connection := by
  have known : connection ≠ p.opened := by
    rintro rfl
    exact ordered.not_lentOut_opened lent
  cases turn with
  | keeps _ connections =>
    unfold LentOut
    rw [connections]
    exact lent
  | adds _ connections =>
    unfold LentOut
    rw [connections, lent_concat_free rfl]
    exact lent
  | lends free _ exchanged => exact (ordered.lentOut_exchanged free exchanged _).mpr (.inr lent)
  | replaces free exchanged => exact (ordered.lentOut_exchanged free exchanged _).mpr (.inr lent)
  | loses first here _ _ exchanged =>
    exact (ordered.lentOut_exchanged (free_of_first first here) exchanged _).mpr (.inr lent)
  | @refreshes _ _ pConn _ _ _ _ exchanged =>
    apply (exchanged.lent_iff ordered.distinct).mpr
    refine .inr ⟨lent, ?_⟩
    rintro rfl
    -- the new slot does not have the old connection
    obtain ⟨z, member, same⟩ := List.mem_map.mp pooled
    rcases (exchanged.mem_iff ordered.distinct).mp member with rfl | ⟨_, different⟩
    · exact known same.symm
    · exact different same
  | aborts _ _ _ connections =>
    unfold LentOut
    rw [connections]
    exact lent

/-- The pool hands out a connection that is open and was not lent, from a slot that is busy
now. -/
theorem returned (ordered : p.Ordered) (gives : after = .returns connection) :
    ¬ p.LentOut connection ∧ q.LentOut connection ∧ (p.Pooled connection ∨ connection = p.opened) ∧
      connection ∉ q.closed := by
  -- a connection is returned by two turns only: lent as it is, or opened anew in its place
  cases turn with
  | keeps silent => exact absurd gives (silent _)
  | adds silent => exact absurd gives (silent _)
  | refreshes silent => exact absurd gives (silent _)
  | aborts silent => exact absurd gives (silent _)
  | loses => cases gives
  | lends free passes exchanged closed =>
    cases gives
    refine ⟨ordered.not_lentOut_of_free exchanged.mem free, ?_, .inl (List.mem_map_of_mem exchanged.mem), ?_⟩
    · exact (ordered.lentOut_exchanged free exchanged _).mpr (.inl ⟨rfl, rfl⟩)
    · simp only [usable, Bool.and_eq_true, Bool.not_eq_true', List.contains_eq_mem, decide_eq_false_iff_not] at passes
      rw [closed]
      exact passes.1
  | replaces free exchanged closed =>
    cases gives
    refine ⟨ordered.not_lentOut_opened, ?_, .inr rfl, ?_⟩
    · exact (ordered.lentOut_exchanged free exchanged _).mpr (.inl ⟨rfl, rfl⟩)
    · -- a new connection was not closed before
      intro member
      have old : p.opened < p.opened := by
        rw [closed, List.mem_append, List.mem_singleton] at member
        rcases member with before | same
        · exact ordered.closed _ before
        · exact same.trans_lt (ordered.older _ (List.mem_map_of_mem exchanged.mem))
      exact Nat.lt_irrefl _ old

/-- The wait for the busy slot of this connection ends. -/
def Late (p : DBConnectionPool) (point : Point) (connection : Connection) : Prop :=
  ∃ caller index pConn, point = .busyWait caller index ∧ p.connections[index]? = some pConn ∧ pConn.busy = true ∧
    pConn.connection = connection

/-- The pool closes connections of free slots, and of busy ones after the wait. -/
theorem closed (ordered : p.Ordered) (member : connection ∈ q.closed) :
    connection ∈ p.closed ∨ p.Pooled connection ∧ ¬ p.LentOut connection ∨ Late p point connection := by
  have append {pConn : PooledConnection} (among : pConn ∈ p.connections)
    (closed : q.closed = p.closed ++ [pConn.connection])
      (late : pConn.busy = true → Late p point pConn.connection) :
      connection ∈ p.closed ∨ p.Pooled connection ∧ ¬ p.LentOut connection ∨ Late p point connection := by
    rw [closed, List.mem_append, List.mem_singleton] at member
    rcases member with old | rfl
    · exact .inl old
    · cases busy : pConn.busy with
      | true => exact .inr (.inr (late busy))
      | false => exact .inr (.inl ⟨List.mem_map_of_mem among, ordered.not_lentOut_of_free among busy⟩)
  -- a turn closes at most the connection of the slot it is at
  cases turn with
  | keeps _ _ closed => exact .inl (closed ▸ member)
  | adds _ _ closed => exact .inl (closed ▸ member)
  | lends _ _ _ closed => exact .inl (closed ▸ member)
  | replaces free exchanged closed =>
    exact append exchanged.mem closed fun busy => by simp [free] at busy
  | loses first here _ _ exchanged closed =>
    exact append exchanged.mem closed fun busy => by simp [free_of_first first here] at busy
  -- a busy slot is refreshed after a wait, and then its connection is closed while it is lent
  | refreshes _ late _ exchanged closed =>
    refine append exchanged.mem closed fun busy => ?_
    obtain ⟨caller, index, at_, here⟩ := late busy
    exact ⟨caller, index, _, at_, here, busy, rfl⟩
  | aborts _ among late _ closed =>
    refine append among closed fun busy => ?_
    obtain ⟨caller, index, at_, here⟩ := late busy
    exact ⟨caller, index, _, at_, here, busy, rfl⟩

end Turn

/-- A release frees the slot of the connection, or closes the connection of no slot. -/
theorem releaseConnection_spec (p : DBConnectionPool) (connection : Connection) :
    (∃ pConn : PooledConnection, pConn.connection = connection ∧
      Exchanged pConn (pConn.setBusy false) p.connections (p.releaseConnection connection).connections ∧
      (p.releaseConnection connection).closed = p.closed ∧ (p.releaseConnection connection).opened = p.opened) ∨
    ¬ p.Pooled connection ∧ p.releaseConnection connection = p.closeConnection connection := by
  unfold releaseConnection
  cases found : p.connections.findIdx? fun pConn => connection == pConn.connection with
  | none =>
    refine .inr ⟨?_, rfl⟩
    intro pooled
    obtain ⟨pConn, member, rfl⟩ := List.mem_map.mp pooled
    simpa using List.findIdx?_eq_none_iff.mp found pConn member
  | some index =>
    obtain ⟨inside, same, -⟩ := List.findIdx?_eq_some_iff_getElem.mp found
    refine .inl ⟨p.connections[index], (beq_iff_eq.mp same).symm, ?_, rfl, rfl⟩
    exact exchanged_modify _ (List.getElem?_eq_getElem inside)

theorem Ordered.releaseConnection (ordered : p.Ordered) (known : connection < p.opened) :
    (p.releaseConnection connection).Ordered := by
  rcases p.releaseConnection_spec connection with ⟨pConn, -, exchanged, closed, opened⟩ | ⟨-, closes⟩
  · exact ordered.exchanged exchanged (.inl rfl) opened.ge fun _ member => .inl (closed ▸ member)
  · rw [closes]
    refine ⟨ordered.distinct, ordered.older, ?_⟩
    intro other member
    rcases List.mem_append.mp member with old | new
    · exact ordered.closed _ old
    · exact List.mem_singleton.mp new ▸ known

end DBConnectionPool

/-! ### Borrowed connections -/

namespace Borrowing

open DBConnectionPool

/-- A connection that a thread holds is open, and no other thread holds it. -/
def Borrowed (s : Borrowing) : Prop :=
  ∀ thread connection, (thread, connection) ∈ s.held →
    connection ∉ s.pool.closed ∧ ∀ other, (other, connection) ∈ s.held → other = thread

/-- When the five seconds at a busy slot are over, nobody holds its connection any more. -/
def InTime (s : Borrowing) : Label → Prop
  | .turn _ => ∀ thread caller index pConn, s.lock = some (thread, .busyWait caller index) →
    s.pool.connections[index]? = some pConn → pConn.busy = true → ∀ holder, (holder, pConn.connection) ∉ s.held
  | _ => True

/-- A held connection is in a busy slot, or in no slot any more, and is held once. -/
structure Exclusive (s : Borrowing) : Prop where
  ordered : s.pool.Ordered
  older : ∀ connection ∈ s.held.map Prod.snd, connection < s.pool.opened
  busy : ∀ connection ∈ s.held.map Prod.snd, s.pool.Pooled connection → s.pool.LentOut connection
  once : (s.held.map Prod.snd).Nodup

variable {s t : Borrowing} {label : Label} {thread : Nat} {connection : Connection}

/-- What else is held after a release is another connection. -/
theorem Exclusive.rest (exclusive : s.Exclusive) (holds : (thread, connection) ∈ s.held) {other : Connection}
    (member : other ∈ (s.held.erase (thread, connection)).map Prod.snd) :
      other ∈ s.held.map Prod.snd ∧ other ≠ connection := by
  obtain ⟨entry, left, rfl⟩ := List.mem_map.mp member
  have nodup : s.held.Nodup := List.Nodup.of_map _ exclusive.once
  obtain ⟨different, among⟩ := nodup.mem_erase_iff.mp left
  refine ⟨List.mem_map_of_mem among, ?_⟩
  intro same
  exact different (List.inj_on_of_nodup_map exclusive.once among holds same)

theorem Exclusive.turn (exclusive : s.Exclusive) (thread : Nat) {reply : Reply} {point : Point} {after : After}
    {q : DBConnectionPool} (spec : Turn s.pool reply point after q) : (s.proceed thread (after, q)).Exclusive := by
  have ordered := spec.ordered exclusive.ordered
  have newer : s.pool.opened ≤ q.opened := spec.opened
  -- what was held before is still in a busy slot or in none
  have older : ∀ connection ∈ s.held.map Prod.snd, connection < q.opened := by
    intro connection member
    exact (exclusive.older connection member).trans_le newer
  have busy : ∀ connection ∈ s.held.map Prod.snd, q.Pooled connection → q.LentOut connection := by
    intro connection member pooled
    rcases spec.pooled pooled with before | rfl
    · exact spec.lentOut exclusive.ordered (exclusive.busy connection member before) pooled
    · exact absurd (exclusive.older _ member) (Nat.lt_irrefl _)
  cases after with
  | continues point => exact ⟨ordered, older, busy, exclusive.once⟩
  | finished => exact ⟨ordered, older, busy, exclusive.once⟩
  | returns connection =>
    obtain ⟨notLent, lent, known, -⟩ := spec.returned exclusive.ordered rfl
    refine ⟨ordered, ?_, ?_, ?_⟩
    · intro other member
      rcases List.mem_cons.mp member with rfl | before
      · obtain ⟨pConn, among, same, -⟩ := lent
        exact same ▸ ordered.older _ (List.mem_map_of_mem among)
      · exact older other before
    · intro other member pooled
      rcases List.mem_cons.mp member with rfl | before
      · exact lent
      · exact busy other before pooled
    · apply List.nodup_cons.mpr
      refine ⟨?_, exclusive.once⟩
      intro held
      rcases known with pooled | rfl
      · exact notLent (exclusive.busy _ held pooled)
      · exact Nat.lt_irrefl _ (exclusive.older _ held)

theorem Exclusive.release (exclusive : s.Exclusive) (holds : (thread, connection) ∈ s.held) :
    Exclusive { s with pool := s.pool.releaseConnection connection, held := s.held.erase (thread, connection) } := by
  have known := exclusive.older connection (List.mem_map_of_mem holds)
  have once : ((s.held.erase (thread, connection)).map Prod.snd).Nodup :=
    (List.erase_sublist.map Prod.snd).nodup exclusive.once
  refine ⟨exclusive.ordered.releaseConnection known, ?_, ?_, once⟩
  · intro other member
    have before := exclusive.older other (exclusive.rest holds member).1
    rcases s.pool.releaseConnection_spec connection with ⟨-, -, -, -, opened⟩ | ⟨-, closes⟩
    · exact opened ▸ before
    · exact closes ▸ before
  · intro other member pooled
    obtain ⟨among, different⟩ := exclusive.rest holds member
    have before : s.pool.Pooled other := by
      unfold Pooled at pooled ⊢
      rwa [releaseConnection_connections] at pooled
    have lent := exclusive.busy other among before
    rcases s.pool.releaseConnection_spec connection with ⟨pConn, rfl, exchanged, -⟩ | ⟨-, closes⟩
    · exact (exchanged.lent_iff exclusive.ordered.distinct).mpr (.inr ⟨lent, different⟩)
    · exact closes ▸ lent

theorem Exclusive.step (exclusive : s.Exclusive) (step : Step s label t) : t.Exclusive := by
  cases step with
  | getConnection thread free => exact ⟨exclusive.ordered, exclusive.older, exclusive.busy, exclusive.once⟩
  | refreshConnections thread free => exact ⟨exclusive.ordered, exclusive.older, exclusive.busy, exclusive.once⟩
  | turn reply under => exact exclusive.turn _ (turn_spec ..)
  | releaseConnection holds outside => exact exclusive.release holds

theorem exclusive {guard : Borrowing → Label → Prop} (reachable : Reachable system guard s) : s.Exclusive := by
  apply reachable.invariant
  · rintro _ ⟨testTable, initial, incremental, max, thread, rfl⟩
    constructor
    · constructor <;> simp [Pooled]
    all_goals simp
  · intro s label t exclusive _ step
    exact exclusive.step step

/-- The exclusive borrowers' connections are open. -/
structure Open (s : Borrowing) : Prop extends Exclusive s where
  open_ : ∀ connection ∈ s.held.map Prod.snd, connection ∉ s.pool.closed

theorem Open.borrowed (open_ : s.Open) : s.Borrowed := by
  intro thread connection holds
  refine ⟨open_.open_ connection (List.mem_map_of_mem holds), ?_⟩
  intro other also
  exact congrArg Prod.fst (List.inj_on_of_nodup_map open_.once also holds rfl)

theorem Open.step (open_ : s.Open) (inTime : s.InTime label) (step : Step s label t) : t.Open := by
  refine ⟨open_.toExclusive.step step, ?_⟩
  cases step with
  | getConnection thread free => exact open_.open_
  | refreshConnections thread free => exact open_.open_
  | @turn thread point reply under =>
    have spec := turn_spec s.pool reply point
    -- what the turn closes is not held
    have before : ∀ connection ∈ s.held.map Prod.snd, connection ∉ (s.pool.turn reply point).2.closed := by
      intro connection held member
      rcases spec.closed open_.ordered member with old | ⟨pooled, free⟩ | ⟨caller, index, pConn, rfl, here, busy, rfl⟩
      · exact open_.open_ connection held old
      · exact free (open_.busy connection held pooled)
      · obtain ⟨⟨holder, _⟩, holds, rfl⟩ := List.mem_map.mp held
        exact inTime thread caller index pConn under here busy holder holds
    match result : s.pool.turn reply point with
    | (.continues _, q) => simpa [proceed, result] using before
    | (.finished, q) => simpa [proceed, result] using before
    | (.returns connection, q) =>
      rw [result] at before spec
      intro other member
      rcases List.mem_cons.mp member with rfl | held
      · exact (spec.returned open_.ordered rfl).2.2.2
      · exact before other held
  | @releaseConnection thread connection holds outside =>
    intro other member closed
    obtain ⟨among, different⟩ := open_.toExclusive.rest holds member
    rcases s.pool.releaseConnection_spec connection with ⟨-, -, -, same, -⟩ | ⟨-, closes⟩
    · exact open_.open_ other among (same ▸ closed)
    · -- a connection of no slot is closed when it is released
      rw [closes] at closed
      rcases List.mem_append.mp closed with old | new
      · exact open_.open_ other among old
      · exact different (List.mem_singleton.mp new)

/-- A wait that ends before the release closes the borrowed connection. -/
theorem not_borrowed_of_late (late : ¬ s.InTime label) (step : Step s label t) : ¬ t.Borrowed := by
  cases step with
  | getConnection thread free => exact absurd trivial late
  | refreshConnections thread free => exact absurd trivial late
  | releaseConnection holds outside => exact absurd trivial late
  | @turn thread point reply under =>
    simp only [InTime, not_forall, not_not] at late
    obtain ⟨waiter, caller, index, pConn, waits, here, -, holder, holds⟩ := late
    obtain ⟨rfl, rfl⟩ := Prod.mk.inj (Option.some.inj (under.symm.trans waits))
    obtain ⟨closed, silent⟩ := turn_busyWait here reply caller
    have member : pConn.connection ∈ (s.pool.turn reply (.busyWait caller index)).2.closed := by
      rw [closed]
      exact List.mem_append_right _ List.mem_cons_self
    intro borrowed
    match result : s.pool.turn reply (.busyWait caller index) with
    | (.returns connection, q) => exact silent connection (congrArg Prod.fst result)
    | (.continues _, q) =>
      rw [result] at borrowed member
      exact (borrowed holder _ holds).1 member
    | (.finished, q) =>
      rw [result] at borrowed member
      exact (borrowed holder _ holds).1 member

/-- In a run whose waits for busy slots all end after the release, every borrowed
connection stays open and is nobody else's. The first wait that ends before closes one. -/
theorem borrowed_of_inTime (reachable : Reachable system InTime s) :
    s.Borrowed ∧ ∀ label t, Step s label t → (t.Borrowed ↔ s.InTime label) := by
  have kept {s : Borrowing} (reachable : Reachable system InTime s) : s.Borrowed := by
    apply Open.borrowed
    apply reachable.invariant
    · rintro _ ⟨testTable, initial, incremental, max, thread, rfl⟩
      refine ⟨exclusive (.start ⟨testTable, initial, incremental, max, thread, rfl⟩ : Reachable system InTime _), ?_⟩
      simp
    · intro s label t open_ inTime step
      exact open_.step inTime step
  refine ⟨kept reachable, ?_⟩
  intro label t step
  constructor
  · intro borrowed
    by_contra late
    exact not_borrowed_of_late late step borrowed
  · intro inTime
    exact kept (.next reachable inTime step)

/-! A pool of one connection, which thread 0 holds and thread 1 waits for. -/

def answer : Reply := { works := fun _ => true, attempt := .made (some 0) }

def single (busy : Bool) (held : List (Nat × Connection)) (lock : Option (Nat × Point)) : Borrowing :=
  { pool :=
      { initialConnections := 1, incrementalConnections := 1, maxConnections := 1,
        connections := [⟨0, busy⟩], opened := 1 }
    held := held
    lock := lock }

def waiting : Borrowing := single true [(0, 0)] (some (1, .busyWait .getConnection 0))

theorem turns {guard : Borrowing → Label → Prop} {point : Point} (reachable : Reachable system guard s)
    (admitted : guard s (.turn answer)) (under : s.lock = some (thread, point))
    (result : s.proceed thread (s.pool.turn answer point) = t) : Reachable system guard t :=
  result ▸ .next reachable admitted (.turn answer under)

theorem calls (reachable : Reachable system InTime s) (thread : Nat) (free : s.lock = none) :
    Reachable system InTime { s with lock := some (thread, .findFreeConnection false) } := by
  have call : Step s (.getConnection thread) { s with lock := some (thread, .findFreeConnection false) } :=
    .getConnection thread free
  refine .next reachable ?_ call
  trivial

theorem reachable_waiting : Reachable system InTime waiting := by
  have quiet {s : Borrowing} (elsewhere : ∀ thread caller index, s.lock ≠ some (thread, .busyWait caller index)) :
      s.InTime (.turn answer) := by
    intro thread caller index pConn at_
    exact absurd at_ (elsewhere thread caller index)
  have start : Reachable system InTime
      { pool := { initialConnections := 1, incrementalConnections := 1, maxConnections := 1 }
        lock := some (0, .createConnections .createPool 0) } := .start ⟨"", 1, 1, 1, 0, rfl⟩
  have opened : Reachable system InTime (single false [] (some (0, .createConnections .createPool 1))) :=
    turns start (quiet (by simp)) rfl rfl
  have created : Reachable system InTime (single false [] none) := turns opened (quiet (by simp [single])) rfl rfl
  have first : Reachable system InTime (single false [] (some (0, .findFreeConnection false))) :=
    calls created 0 rfl
  have lent : Reachable system InTime (single true [(0, 0)] none) := turns first (quiet (by simp [single])) rfl rfl
  have second : Reachable system InTime (single true [(0, 0)] (some (1, .findFreeConnection false))) :=
    calls lent 1 rfl
  have none_ : Reachable system InTime (single true [(0, 0)] (some (1, .createConnections .getConnection 0))) :=
    turns second (quiet (by simp [single])) rfl rfl
  have full : Reachable system InTime (single true [(0, 0)] (some (1, .refreshConnections .getConnection 0))) :=
    turns none_ (quiet (by simp [single])) rfl rfl
  exact turns full (quiet (by simp [single])) rfl rfl

/-- The holder may still come in time. -/
theorem borrowed_waiting : waiting.held = [(0, 0)] ∧ waiting.Borrowed := ⟨rfl, (borrowed_of_inTime reachable_waiting).1⟩

/-- The holder comes too late. -/
theorem not_borrowed_refreshed : ∃ s, Reachable system (fun _ _ => True) s ∧ ¬ s.Borrowed := by
  have step : Step waiting (.turn answer) (waiting.proceed 1 (waiting.pool.turn answer (.busyWait .getConnection 0))) :=
    .turn answer rfl
  refine ⟨_, .next (reachable_waiting.mono fun _ _ _ => trivial) trivial step, ?_⟩
  intro borrowed
  have open_ := (borrowed 0 0 (by decide)).1
  revert open_
  decide

end Borrowing

/-! ### Closing the pool -/

namespace DBConnectionPool

/-- The connections of the slots, one for one, are those that are closed. -/
def ClosesAll (p : DBConnectionPool) (released : Nat → List Connection) : Prop :=
  (p.closeConnectionPool released).1.Perm (p.connections.map PooledConnection.connection)

/-- The slot after a removed one takes its index and is passed over. -/
theorem closeConnections_eq (released : Nat → List Connection) (p : DBConnectionPool) (index : Nat) :
    (closeConnections released p index).1 = everyOther
      ((p.connections.map PooledConnection.connection).drop index) := by
  fun_induction closeConnections released p index with
  | case1 p index inside pConn closed q result ih =>
    have here : (p.connections.map PooledConnection.connection)[index]? = some pConn.connection := by
      rw [List.getElem?_map, List.getElem?_eq_getElem inside]
      rfl
    rw [everyOther_drop here, ← closeSlot_connections p (released index) index pConn, ← ih, result]
  | case2 p index outside =>
    rw [List.drop_eq_nil_of_le (by rw [List.length_map]; omega)]
    rfl

/-- `closeConnectionPool` closes every connection if there is at most one. -/
theorem closesAll_iff (p : DBConnectionPool) (released : Nat → List Connection) :
    p.ClosesAll released ↔ p.connections.length ≤ 1 := by
  have closed : (p.closeConnectionPool released).1 = everyOther (p.connections.map PooledConnection.connection) :=
    closeConnections_eq released p 0
  unfold ClosesAll
  rw [closed, everyOther_perm_iff, List.length_map]

/-- Two free connections. -/
theorem not_closesAll_two : ¬ ClosesAll { connections := [⟨0, false⟩, ⟨1, false⟩], opened := 2 } fun _ => [] := by
  intro all
  have length := all.length_eq
  rw [show (closeConnectionPool _ _).1 = _ from closeConnections_eq ..] at length
  revert length
  decide

end DBConnectionPool

end Hella

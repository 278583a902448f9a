import Hella.Lib.Runs
import Hella.Lib.Slots

/-!
# The connection pool

`DBConnectionPool` keeps its connections in a vector of slots, each busy or free. Every
method but `releaseConnection` and `testConnection` holds the lock of the pool while it
runs, also while it sleeps. `DBPools` keeps a connection of the pool for each thread.
-/
namespace Hella

open Runs

/-- A `java.sql.Connection`, by the order in which they are opened. -/
abbrev Connection := Nat

structure PooledConnection where
  connection : Connection
  busy : Bool := false
  deriving DecidableEq, Repr

namespace PooledConnection

def setConnection (connection : Connection) (pConn : PooledConnection) : PooledConnection :=
  { pConn with connection := connection }

def setBusy (busy : Bool) (pConn : PooledConnection) : PooledConnection := { pConn with busy := busy }

end PooledConnection

/-- What `testConnection` tries. -/
inductive Trial where
  | setAutoCommit (autoCommit : Bool)
  | execute (sql : String)
  deriving DecidableEq, Repr

/-- How the driver answers to `DriverManager.getConnection`. -/
inductive Attempt where
  /-- SQLException -/
  | refused
  /-- a connection, and what its `getMetaData().getMaxConnections()` is, or SQLException -/
  | made (driverMaxConnections : Option Int)
  deriving DecidableEq, Repr

/-- What the database does while the pool runs: which trials an open connection passes,
and how an attempt to connect ends. -/
structure Reply where
  works : Trial → Bool
  attempt : Attempt

structure DBConnectionPool where
  testTable : String := ""
  initialConnections : Int := 10
  incrementalConnections : Int := 5
  maxConnections : Int := 50
  connections : List PooledConnection := []
  /-- how many connections were opened so far -/
  opened : Nat := 0
  /-- the connections `close` was called on -/
  closed : List Connection := []
  deriving DecidableEq, Repr

/-- Which method has called. -/
inductive Caller where
  | createPool
  | getConnection
  | refreshConnections
  deriving DecidableEq, Repr

/-- Where the thread is that holds the lock of the pool. -/
inductive Point where
  /-- before `findFreeConnection`, which `getFreeConnection` calls twice -/
  | findFreeConnection (again : Bool)
  /-- in the loop of `createConnections` -/
  | createConnections (caller : Caller) (x : Nat)
  /-- in the loop of `refreshConnections` -/
  | refreshConnections (caller : Caller) (index : Nat)
  /-- in its `wait(5000)` -/
  | busyWait (caller : Caller) (index : Nat)
  /-- in the `wait(250)` of `getConnection` -/
  | retryWait
  deriving DecidableEq, Repr

inductive After where
  | continues (point : Point)
  | returns (connection : Connection)
  /-- a method without a result has ended -/
  | finished
  deriving DecidableEq, Repr

namespace Point

def caller : Point → Caller
  | .findFreeConnection _ | .retryWait => .getConnection
  | .createConnections caller _ | .refreshConnections caller _ | .busyWait caller _ => caller

end Point

namespace DBConnectionPool

variable (p : DBConnectionPool)

def modify (index : Nat) (f : PooledConnection → PooledConnection) : DBConnectionPool :=
  { p with connections := p.connections.modify index f }

def closeConnection (connection : Connection) : DBConnectionPool := { p with closed := p.closed ++ [connection] }

def trial : Trial := if p.testTable = "" then .setAutoCommit true else .execute ("select count(*) from " ++ p.testTable)

/-- The trial does not throw SQLException. -/
def usable (connection : Connection) (works : Trial → Bool) : Bool := !p.closed.contains connection && works p.trial

def testConnection (connection : Connection) (works : Trial → Bool) : Bool × DBConnectionPool :=
  if p.usable connection works then (true, p) else (false, p.closeConnection connection)

def newConnection : Attempt → Option Connection × DBConnectionPool
  | .refused => (none, p)
  | .made driverMaxConnections =>
    let q := { p with opened := p.opened + 1 }
    if p.connections.isEmpty then
      match driverMaxConnections with
      -- the new connection stays open, and nobody knows it
      | none => (none, q)
      | some driverMaxConnections =>
        if driverMaxConnections > 0 ∧ p.maxConnections > driverMaxConnections then
          (some p.opened, { q with maxConnections := driverMaxConnections })
        else (some p.opened, q)
    else (some p.opened, q)

/-- The slot is set busy before its connection is tested. -/
def findFreeConnection (reply : Reply) : Option Connection × DBConnectionPool :=
  match p.connections.findIdx? fun pConn => !pConn.busy with
  | none => (none, p)
  | some index =>
    match p.connections[index]? with
    | none => (none, p)
    | some pConn =>
      match (p.modify index (.setBusy true)).testConnection pConn.connection reply.works with
      | (true, q) => (some pConn.connection, q)
      | (false, q) =>
        match q.newConnection reply.attempt with
        | (none, q) => (none, q)
        | (some connection, q) => (some connection, q.modify index (.setConnection connection))

/-- The body of the loop in `createConnections` while the vector is not full. -/
def addConnection (attempt : Attempt) : DBConnectionPool :=
  match p.newConnection attempt with
  | (none, q) => q
  | (some connection, q) => { q with connections := q.connections ++ [{ connection := connection }] }

/-- What follows `createConnections`, and `refreshConnections` in its loop. -/
def proceed : Caller → After
  | .getConnection => .continues (.findFreeConnection true)
  | .createPool | .refreshConnections => .finished

def numConnections : Caller → Int
  | .createPool => p.initialConnections
  | .getConnection => p.incrementalConnections
  | .refreshConnections => 0

/-- The vector has reached the maximum. -/
def full : Bool := p.maxConnections > 0 ∧ (p.connections.length : Int) ≥ p.maxConnections

/-- The rest of the body in `refreshConnections` once it no longer waits. SQLException ends
the loop. -/
def refreshConnection (caller : Caller) (index : Nat) (pConn : PooledConnection) (attempt : Attempt) :
    After × DBConnectionPool :=
  match (p.closeConnection pConn.connection).newConnection attempt with
  | (none, q) => (proceed caller, q)
  | (some connection, q) =>
    (.continues (.refreshConnections caller (index + 1)),
      (q.modify index (.setConnection connection)).modify index (.setBusy false))

/-- What the thread that holds the lock does up to the next point. -/
def turn (reply : Reply) : Point → After × DBConnectionPool
  | .findFreeConnection again =>
    match p.findFreeConnection reply with
    | (some connection, q) => (.returns connection, q)
    | (none, q) => (.continues (if again then .retryWait else .createConnections .getConnection 0), q)
  | .createConnections caller x =>
    if (x : Int) < p.numConnections caller then
      if p.full then (.continues (.refreshConnections caller 0), p)
      else (.continues (.createConnections caller (x + 1)), p.addConnection reply.attempt)
    else (proceed caller, p)
  | .refreshConnections caller index =>
    match p.connections[index]? with
    | none => (proceed caller, p)
    | some pConn =>
      if pConn.busy then (.continues (.busyWait caller index), p)
      else p.refreshConnection caller index pConn reply.attempt
  | .busyWait caller index =>
    match p.connections[index]? with
    | none => (proceed caller, p)
    | some pConn => p.refreshConnection caller index pConn reply.attempt
  | .retryWait => (.continues (.findFreeConnection false), p)

def releaseConnection (connection : Connection) : DBConnectionPool :=
  match p.connections.findIdx? fun pConn => connection == pConn.connection with
  | some index => p.modify index (.setBusy false)
  | none => p.closeConnection connection

def releaseAll (connections : List Connection) : DBConnectionPool := connections.foldl releaseConnection p

/-- The body of the loop in `closeConnectionPool`. Others may release connections while it
waits for a busy slot. -/
def closeSlot (released : List Connection) (index : Nat) (pConn : PooledConnection) : DBConnectionPool :=
  let q := (if pConn.busy then p.releaseAll released else p).closeConnection pConn.connection
  { q with connections := q.connections.eraseIdx index }

/-- A release changes the flag of a slot at most. -/
theorem releaseConnection_connections (connection : Connection) :
    (p.releaseConnection connection).connections.map PooledConnection.connection =
      p.connections.map PooledConnection.connection := by
  unfold releaseConnection
  split
  · exact Slots.map_modify (PooledConnection.setBusy false) (fun _ => rfl) _ _
  · rfl

theorem releaseAll_connections (connections : List Connection) :
    (p.releaseAll connections).connections.map PooledConnection.connection =
      p.connections.map PooledConnection.connection := by
  induction connections generalizing p with
  | nil => rfl
  | cons connection rest ih =>
    exact (ih (p.releaseConnection connection)).trans (p.releaseConnection_connections connection)

theorem closeSlot_connections (released : List Connection) (index : Nat) (pConn : PooledConnection) :
    (p.closeSlot released index pConn).connections.map PooledConnection.connection =
      (p.connections.map PooledConnection.connection).eraseIdx index := by
  unfold closeSlot
  rw [← List.eraseIdx_map]
  split
  · exact congrArg (List.eraseIdx · index) (p.releaseAll_connections released)
  · rfl

theorem length_closeSlot (released : List Connection) {index : Nat} (inside : index < p.connections.length)
    (pConn : PooledConnection) : (p.closeSlot released index pConn).connections.length = p.connections.length - 1 := by
  have same := congrArg List.length (p.closeSlot_connections released index pConn)
  rwa [List.length_map, List.length_eraseIdx_of_lt (by rwa [List.length_map]), List.length_map] at same

/-- The loop of `closeConnectionPool` from an index of the enumeration on, and the
connections it closes. -/
def closeConnections (released : Nat → List Connection) (p : DBConnectionPool) (index : Nat) :
    List Connection × DBConnectionPool :=
  if inside : index < p.connections.length then
    let pConn := p.connections[index]
    let (closed, q) := closeConnections released (p.closeSlot (released index) index pConn) (index + 1)
    (pConn.connection :: closed, q)
  else ([], p)
termination_by p.connections.length - index
decreasing_by
  rw [p.length_closeSlot (released index) inside]
  omega

/-- `closeConnectionPool`; no slot is left when the vector has become null. -/
def closeConnectionPool (released : Nat → List Connection) : List Connection × DBConnectionPool :=
  let (closed, q) := closeConnections released p 0
  (closed, { q with connections := [] })

end DBConnectionPool

/-! ### Threads that call the pool -/

/-- The pool, what its callers hold, and which thread is where in a method of the pool. -/
structure Borrowing where
  pool : DBConnectionPool
  /-- which connections were returned to which thread, and not yet released by it -/
  held : List (Nat × Connection) := []
  lock : Option (Nat × Point)
  deriving DecidableEq, Repr

namespace Borrowing

inductive Label where
  | getConnection (thread : Nat)
  | refreshConnections (thread : Nat)
  | turn (reply : Reply)
  | releaseConnection (thread : Nat) (connection : Connection)

def proceed (s : Borrowing) (thread : Nat) : After × DBConnectionPool → Borrowing
  | (.continues point, pool) => { s with pool := pool, lock := some (thread, point) }
  | (.returns connection, pool) => { pool := pool, held := (thread, connection) :: s.held, lock := none }
  | (.finished, pool) => { s with pool := pool, lock := none }

/-- Calls wait for the lock. `releaseConnection` does not, and may come between any two
turns of the thread that has it. -/
inductive Step : Borrowing → Label → Borrowing → Prop where
  | getConnection {s : Borrowing} (thread : Nat) (free : s.lock = none) :
      Step s (.getConnection thread) { s with lock := some (thread, .findFreeConnection false) }
  | refreshConnections {s : Borrowing} (thread : Nat) (free : s.lock = none) :
      Step s (.refreshConnections thread) { s with lock := some (thread, .refreshConnections .refreshConnections 0) }
  | turn {s : Borrowing} {thread : Nat} {point : Point} (reply : Reply) (under : s.lock = some (thread, point)) :
      Step s (.turn reply) (s.proceed thread (s.pool.turn reply point))
  | releaseConnection {s : Borrowing} {thread : Nat} {connection : Connection} (holds : (thread, connection) ∈ s.held)
      (outside : ∀ point, s.lock ≠ some (thread, point)) :
      Step s (.releaseConnection thread connection)
        { s with pool := s.pool.releaseConnection connection, held := s.held.erase (thread, connection) }

/-- Some thread has begun to create the pool. -/
def system : System Borrowing Label where
  initial s := ∃ testTable initial incremental max thread, s =
    { pool :=
        { testTable := testTable, initialConnections := initial, incrementalConnections := incremental,
          maxConnections := max }
      lock := some (thread, .createConnections .createPool 0) }
  step := Step

end Borrowing

/-! ### A connection for each thread -/

/-- Where a thread is in `currentConnection`, which may have been called by
`closeConnection`. -/
inductive Stage where
  | idle
  | creatingPool
  /-- before or in `getConnection` of the pool, the second time after a failed test -/
  | fetching (closing again : Bool)
  | testing (closing : Bool)
  /-- in `closeConnection`, before `releaseConnection` -/
  | releasing
  deriving DecidableEq, Repr

/-- `n` threads with a connection of the pool each, or none. -/
structure DBPools (n : Nat) where
  connectionPool : DBConnectionPool
  currentConnThreadLocal : Fin n → Option Connection := fun _ => none
  stage : Fin n → Stage
  lock : Option (Fin n × Point)

namespace DBPools

inductive Label (n : Nat) where
  | currentConnection (thread : Fin n)
  | closeConnection (thread : Fin n)
  | getConnection (thread : Fin n)
  | turn (reply : Reply)
  | testConnection (thread : Fin n) (works : Trial → Bool)
  | releaseConnection (thread : Fin n)

variable {n : Nat} (s : DBPools n)

def setStage (thread : Fin n) (stage : Stage) : DBPools n := { s with stage := Function.update s.stage thread stage }

def set (thread : Fin n) (connection : Option Connection) : DBPools n :=
  { s with currentConnThreadLocal := Function.update s.currentConnThreadLocal thread connection }

/-- A call looks into its thread's own variable first. -/
def call (thread : Fin n) (closing : Bool) : DBPools n :=
  if (s.currentConnThreadLocal thread).isNone then s.setStage thread (.fetching closing false)
  else s.setStage thread (.testing closing)

/-- What follows `currentConnection`. -/
def ended (closing : Bool) : Stage := if closing then .releasing else .idle

/-- The thread's part in a turn of the pool. -/
def proceed (thread : Fin n) : After × DBConnectionPool → DBPools n
  | (.continues point, pool) => { s with connectionPool := pool, lock := some (thread, point) }
  | (.finished, pool) => { s with connectionPool := pool, lock := none }.setStage thread .idle
  | (.returns connection, pool) =>
    let s := { s with connectionPool := pool, lock := none }.set thread (some connection)
    match s.stage thread with
    | .fetching closing true => s.setStage thread (ended closing)
    | .fetching closing false => s.setStage thread (.testing closing)
    | _ => s

def tested (thread : Fin n) (closing : Bool) : Bool × DBConnectionPool → DBPools n
  | (true, pool) => { s with connectionPool := pool }.setStage thread (ended closing)
  | (false, pool) => { s with connectionPool := pool }.setStage thread (.fetching closing true)

/-- `releaseConnection`, and `set(null)`, which no other thread sees. -/
def release (thread : Fin n) (connection : Connection) : DBPools n :=
  ({ s with connectionPool := s.connectionPool.releaseConnection connection }.set thread none).setStage thread .idle

inductive Step : DBPools n → Label n → DBPools n → Prop where
  | currentConnection {s : DBPools n} {thread : Fin n} (idle : s.stage thread = .idle) :
      Step s (.currentConnection thread) (s.call thread false)
  | closeConnection {s : DBPools n} {thread : Fin n} (idle : s.stage thread = .idle) :
      Step s (.closeConnection thread) (s.call thread true)
  | getConnection {s : DBPools n} {thread : Fin n} {closing again : Bool}
    (fetching : s.stage thread = .fetching closing again)
      (free : s.lock = none) : Step s (.getConnection thread)
        { s with lock := some (thread, .findFreeConnection false) }
  | turn {s : DBPools n} {thread : Fin n} {point : Point} (reply : Reply) (under : s.lock = some (thread, point)) :
      Step s (.turn reply) (s.proceed thread (s.connectionPool.turn reply point))
  | testConnection {s : DBPools n} {thread : Fin n} {closing : Bool} {connection : Connection} (works : Trial → Bool)
      (testing : s.stage thread = .testing closing) (current : s.currentConnThreadLocal thread = some connection) :
      Step s (.testConnection thread works) (s.tested thread closing (s.connectionPool.testConnection connection works))
  | releaseConnection {s : DBPools n} {thread : Fin n} {connection : Connection}
    (releasing : s.stage thread = .releasing)
      (current : s.currentConnThreadLocal thread = some connection) :
      Step s (.releaseConnection thread) (s.release thread connection)

/-- Some thread has called `init` and has begun to create the pool. -/
def system (n : Nat) : System (DBPools n) (Label n) where
  initial s := ∃ testTable initial incremental max thread, s =
    { connectionPool :=
        { testTable := testTable, initialConnections := initial, incrementalConnections := incremental,
          maxConnections := max }
      stage := Function.update (fun _ => .idle) thread .creatingPool
      lock := some (thread, .createConnections .createPool 0) }
  step := Step

end DBPools

end Hella

import Qslary.Foundation.Transition

/-!
# The pool of client connections

`HttpConnectionPool` lends connections and takes them back through the deleter
of the `shared_ptr` it hands out.  Calls are atomic, as `mutex_` makes them, and
the run keeps what the pool itself does not: which holder has which connection,
and which objects have been deleted.
-/

namespace Qslary.Pool

open Qslary.Foundation

/-- What `gettimeofday` fills in; `tv_sec * 1000 + tv_usec` fits a `long`. -/
structure Timeval where
  sec : Nat
  usec : Nat
  usec_lt : usec < 1000000
  sec_le : sec * 1000 + 1000000 ≤ 2 ^ 63
  deriving DecidableEq

namespace Timeval

/-- The wall-clock time in microseconds since the epoch. -/
def micros (tv : Timeval) : Nat := tv.sec * 1000000 + tv.usec

end Timeval

/-- `GetCurrentMs`: the microseconds are added without being scaled. -/
def getCurrentMs (tv : Timeval) : UInt64 :=
  UInt64.ofNat (tv.sec * 1000 + tv.usec)

/--
A connection object, numbered in the order of creation.  `createTime` is the
field of the source; `created` is when the object was really made.
-/
structure HttpConnection where
  id : Nat
  createTime : UInt64
  created : Timeval
  deriving DecidableEq

/-- `new HttpConnection(sock)`: the constructor leaves `create_time` at `0`. -/
def HttpConnection.new (id : Nat) (created : Timeval) : HttpConnection := ⟨id, 0, created⟩

/-- The members of `HttpConnectionPool` that the two functions read. -/
structure HttpConnectionPool where
  maxAliveTime : UInt32
  conns : List HttpConnection
  total : Int32
  deriving DecidableEq

namespace HttpConnectionPool

def new (maxAliveTime : UInt32) : HttpConnectionPool := ⟨maxAliveTime, [], 0⟩

/-- `create_time + maxAliveTime_`, in 64 bits. -/
def deadline (pool : HttpConnectionPool) (conn : HttpConnection) : UInt64 :=
  conn.createTime + pool.maxAliveTime.toUInt64

end HttpConnectionPool

/-- What a pass over `conns_` leaves: `invalid_conns`, `ptr` and the list behind it. -/
structure Taken where
  invalid : List HttpConnection
  ptr : Option HttpConnection
  rest : List HttpConnection
  deriving DecidableEq

/-- The `while` loop of `getConnection`. -/
def takeConnection (pool : HttpConnectionPool) (isConnected : HttpConnection → Bool)
    (nowMs : UInt64) : List HttpConnection → Taken
  | [] => ⟨[], none, []⟩
  | conn :: conns =>
      if !isConnected conn then
        let taken := takeConnection pool isConnected nowMs conns
        { taken with invalid := conn :: taken.invalid }
      else if pool.deadline conn > nowMs then
        let taken := takeConnection pool isConnected nowMs conns
        { taken with invalid := conn :: taken.invalid }
      else
        ⟨[], some conn, conns⟩

/-- How the way from `host_` to a connected socket ends. -/
inductive Connecting where
  /-- `HostNameToAddress` stops the process with `assert(false)`. -/
  | resolveFails
  | noAddress
  | noSocket
  | connectFails
  | connects (time : Timeval)
  deriving DecidableEq

/-- A `shared_ptr` that `getConnection` returned and that has not been released. -/
structure Lease where
  holder : Nat
  conn : HttpConnection
  deriving DecidableEq

structure State where
  pool : HttpConnectionPool
  lent : List Lease
  deleted : List HttpConnection
  /-- The number of objects made, and of pointers handed out. -/
  made : Nat
  holders : Nat
  aborted : Bool
  deriving DecidableEq

namespace State

def initial (maxAliveTime : UInt32) : State :=
  ⟨.new maxAliveTime, [], [], 0, 0, false⟩

/-- The return of `HttpConnection::ptr(ptr, ReleasePtr)`. -/
def lend (s : State) (conn : HttpConnection) : State :=
  { s with lent := ⟨s.holders, conn⟩ :: s.lent, holders := s.holders + 1 }

/-- The first half of `getConnection`: the list is searched, what is invalid deleted. -/
def prune (s : State) (taken : Taken) : State :=
  { s with
    pool := { s.pool with
      conns := taken.rest
      total := s.pool.total - Int32.ofNat taken.invalid.length }
    deleted := taken.invalid ++ s.deleted }

/-- The second half, for a search that found nothing. -/
def connect (s : State) : Connecting → State
  | .resolveFails => { s with aborted := true }
  | .noAddress => s
  | .noSocket => s
  | .connectFails => s
  | .connects time =>
      { s with
        pool := { s.pool with total := s.pool.total + 1 }
        made := s.made + 1 }.lend (.new s.made time)

def getConnection (s : State) (isConnected : HttpConnection → Bool) (now : Timeval)
    (connecting : Connecting) : State :=
  let taken := takeConnection s.pool isConnected (getCurrentMs now) s.pool.conns
  match taken.ptr with
  | some conn => (s.prune taken).lend conn
  | none => (s.prune taken).connect connecting

/-- `ReleasePtr`, run when the last copy of the pointer of `lease` goes away. -/
def releasePtr (s : State) (isConnected : HttpConnection → Bool) (now : Timeval)
    (lease : Lease) : State :=
  let returned := { s with lent := s.lent.erase lease }
  if !isConnected lease.conn || s.pool.deadline lease.conn ≥ getCurrentMs now then
    { returned with
      pool := { s.pool with total := s.pool.total - 1 }
      deleted := lease.conn :: s.deleted }
  else
    { returned with pool := { s.pool with conns := s.pool.conns ++ [lease.conn] } }

end State

inductive Action where
  | getConnection (connecting : Connecting)
  | releasePtr (lease : Lease)
  deriving DecidableEq

/-- A call, with the time it is made at and which sockets it finds connected. -/
structure Call where
  action : Action
  now : Timeval
  isConnected : HttpConnection → Bool

namespace State

/-- The process has not aborted, and only lent pointers are released; any clock will do. -/
def guard (s : State) (call : Call) : Bool :=
  !s.aborted &&
    match call.action with
    | .getConnection _ => true
    | .releasePtr lease => decide (lease ∈ s.lent)

def perform (s : State) (call : Call) : State :=
  match call.action with
  | .getConnection connecting => s.getConnection call.isConnected call.now connecting
  | .releasePtr lease => s.releasePtr call.isConnected call.now lease

end State

def machine : Machine State Call Empty where
  guard := State.guard
  exec s call := .ok (s.perform call)

end Qslary.Pool

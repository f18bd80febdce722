import Mathlib.Logic.Function.Basic
import Qslary.Foundation.Transition

/-!
# The event registry of `IOManager`

`IOManager` keeps a map from file descriptors to callbacks, the kernel keeps the
interest set of the epoll instance, and the operations of `net/IOManager.cc` update
the two one after the other.  A closed descriptor leaves the interest set; the results
of `epoll_ctl` are not looked at, so a failing call is one without effect.
-/

namespace Qslary.Events

open Qslary.Foundation

abbrev EventMask := BitVec 32

def EPOLLIN : EventMask := 0x001
def EPOLLOUT : EventMask := 0x004
def EPOLLERR : EventMask := 0x008
def EPOLLHUP : EventMask := 0x010

/-- The descriptors open on something epoll accepts, and those watched with their masks. -/
structure Epoll where
  opened : Int → Bool
  interest : Int → Option EventMask

namespace Epoll

def ctlAdd (k : Epoll) (fd : Int) (events : EventMask) : Epoll :=
  if k.opened fd && (k.interest fd).isNone then
    { k with interest := Function.update k.interest fd (some events) }
  else k

def ctlMod (k : Epoll) (fd : Int) (events : EventMask) : Epoll :=
  if (k.interest fd).isSome then
    { k with interest := Function.update k.interest fd (some events) }
  else k

def openFd (k : Epoll) (fd : Int) : Epoll :=
  { k with opened := Function.update k.opened fd true }

def closeFd (k : Epoll) (fd : Int) : Epoll where
  opened := Function.update k.opened fd false
  interest := Function.update k.interest fd none

end Epoll

/-- Reading and writing differ in the event, the flag and the callback they use. -/
inductive Direction where
  | read
  | write
  deriving DecidableEq, Repr

namespace Direction

def other : Direction → Direction
  | read => write
  | write => read

def event : Direction → EventMask
  | read => EPOLLIN
  | write => EPOLLOUT

end Direction

variable {C : Type}

/-- A `std::function`, possibly empty. -/
abbrev Callback (C : Type) := Option C

structure FdCallback (C : Type) where
  concernRead : Bool := false
  concernWrite : Bool := false
  readCallback : Callback C := none
  writeCallback : Callback C := none
  deriving DecidableEq, Repr

namespace FdCallback

def concern (f : FdCallback C) : Direction → Bool
  | .read => f.concernRead
  | .write => f.concernWrite

def register (f : FdCallback C) (cb : Callback C) : Direction → FdCallback C
  | .read => { f with concernRead := true, readCallback := cb }
  | .write => { f with concernWrite := true, writeCallback := cb }

def unregister (f : FdCallback C) : Direction → FdCallback C
  | .read => { f with concernRead := false }
  | .write => { f with concernWrite := false }

/-- The callbacks passed to `scheduler`, and `eventNumber`. -/
def TriggerEvent (f : FdCallback C) (events : EventMask) : List (Callback C) × Nat :=
  let (scheduled, eventNumber) :=
    if f.concernRead && events &&& EPOLLIN != 0 then ([f.readCallback], 1) else ([], 0)
  if f.concernRead && events &&& EPOLLOUT != 0 then
    (scheduled ++ [f.writeCallback], eventNumber + 1)
  else (scheduled, eventNumber)

end FdCallback

inductive Fault where
  /-- `mFdGroups[fd]` is null. -/
  | nullEntry
  /-- `mFdGroups.erase(mFdGroups.end())` -/
  | eraseEnd
  deriving DecidableEq, Repr

structure IOManager (C : Type) where
  mWakeupFd : Int
  mFdGroups : Int → Option (FdCallback C)
  epoll : Epoll
  pendingEventCount : UInt64

namespace IOManager

def UpdateEpoll (m : IOManager C) (fd : Int) (events : EventMask) : IOManager C :=
  match m.mFdGroups fd with
  | none =>
      { m with
        mFdGroups := Function.update m.mFdGroups fd (some {})
        epoll := m.epoll.ctlAdd fd events }
  | some _ => { m with epoll := m.epoll.ctlMod fd events }

/-- The entry is there: `UpdateEpoll` has just made sure of it. -/
def AddEvent (m : IOManager C) (d : Direction) (fd : Int) (cb : Callback C) :
    IOManager C × Bool :=
  let m := m.UpdateEpoll fd d.event
  ({ m with
      mFdGroups := Function.update m.mFdGroups fd
        ((m.mFdGroups fd).map fun f => f.register cb d) }, true)

def AddReadEvent (m : IOManager C) (fd : Int) (cb : Callback C) : IOManager C × Bool :=
  m.AddEvent .read fd cb

def AddWriteEvent (m : IOManager C) (fd : Int) (cb : Callback C) : IOManager C × Bool :=
  m.AddEvent .write fd cb

def CancelEvent (m : IOManager C) (d : Direction) (fd : Int) : IOManager C × Bool :=
  match m.mFdGroups fd with
  | none => (m, true)
  | some f =>
      if !f.concern d then (m, true)
      else
        ({ m with mFdGroups := Function.update m.mFdGroups fd (some (f.unregister d)) }, true)

def CancelReadEvent (m : IOManager C) (fd : Int) : IOManager C × Bool :=
  m.CancelEvent .read fd

def CancelWriteEvent (m : IOManager C) (fd : Int) : IOManager C × Bool :=
  m.CancelEvent .write fd

def CancelAll (m : IOManager C) (fd : Int) : IOManager C × Bool :=
  let (m, done) := m.CancelReadEvent fd
  if done then m.CancelWriteEvent fd else (m, false)

def DelFileDesc (m : IOManager C) (fd : Int) : Except Fault (IOManager C × Bool) :=
  match m.mFdGroups fd with
  | none => .error .eraseEnd
  | some _ => .ok ({ m with mFdGroups := Function.update m.mFdGroups fd none }, true)

/-- The scheduled callbacks are returned; `pendingFunctors_` belongs to the scheduler. -/
def ProcessFdEvent (m : IOManager C) (fd : Int) (events : EventMask) :
    Except Fault (IOManager C × List (Callback C)) :=
  let events :=
    if events &&& (EPOLLERR ||| EPOLLHUP) != 0 then events ||| (EPOLLIN ||| EPOLLOUT)
    else events
  match m.mFdGroups fd with
  | none => .error .nullEntry
  | some f =>
      let (scheduled, num) := f.TriggerEvent events
      .ok ({ m with pendingEventCount := m.pendingEventCount - UInt64.ofNat num }, scheduled)

def closeF (m : IOManager C) (fd : Int) : IOManager C :=
  { m with epoll := m.epoll.closeFd fd }

/--
The hooked `close` of `base/Hook.cc`.  `ctx` says whether the descriptor has an
`FdContext`, `iomanager` whether `GetIOManager()` is this manager.
-/
def close (m : IOManager C) (fd : Int) (threadHookEnable ctx iomanager : Bool) : IOManager C :=
  if threadHookEnable == false then m.closeF fd
  else if ctx then
    let m := if iomanager then (m.CancelAll fd).1 else m
    m.closeF fd
  else m.closeF fd

/-- The constructor, in a process in which `opened` are the open descriptors. -/
def constructed (opened : Int → Bool) (mWakeupFd timerfd : Int) (handleRead : Callback C) :
    IOManager C :=
  let epoll : Epoll := ⟨opened, fun _ => none⟩
  let epoll := ((epoll.openFd timerfd).openFd mWakeupFd).ctlAdd mWakeupFd EPOLLIN
  let m : IOManager C := ⟨mWakeupFd, fun _ => none, epoll, 0⟩
  (m.AddReadEvent timerfd handleRead).1

end IOManager

/-! ## Runs -/

inductive Op (C : Type) where
  | add (d : Direction) (fd : Int) (cb : Callback C)
  | cancel (d : Direction) (fd : Int)
  | delFileDesc (fd : Int)
  | close (fd : Int) (threadHookEnable ctx iomanager : Bool)
  | openFd (fd : Int)
  deriving DecidableEq, Repr

def perform (m : IOManager C) : Op C → Except Fault (IOManager C)
  | .add .read fd cb => .ok (m.AddReadEvent fd cb).1
  | .add .write fd cb => .ok (m.AddWriteEvent fd cb).1
  | .cancel .read fd => .ok (m.CancelReadEvent fd).1
  | .cancel .write fd => .ok (m.CancelWriteEvent fd).1
  | .delFileDesc fd => (m.DelFileDesc fd).map Prod.fst
  | .close fd threadHookEnable ctx iomanager => .ok (m.close fd threadHookEnable ctx iomanager)
  | .openFd fd => .ok { m with epoll := m.epoll.openFd fd }

def machine (C : Type) : Machine (IOManager C) (Op C) Fault where
  guard _ _ := true
  exec := perform

end Qslary.Events

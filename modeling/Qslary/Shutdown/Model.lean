import Mathlib.Data.Finset.Basic
import Qslary.Events.Dispatch
import Qslary.Scheduler.Model
import Qslary.Timers.Model

/-!
# The whole `IOManager`

An `IOManager` is a `Scheduler` and a `TimerManger` with an event registry, and its
`IsClean` looks at all of them.  The three models are run side by side: calls of `Add` and
`Cancel`, the loop body of `Idle` for one reported event, the steps of the workers and of
the timers, in any order.  `awaited` is no field of the class: it records the pairs that
are registered and have not been triggered since.
-/

namespace Qslary.Shutdown

open Qslary.Foundation
open Qslary.Events (Callback Direction EventMask FdCallback widened)
open Qslary.Scheduler (Report)
open Qslary.Timers (Seconds)

/-- A stop of one of the three parts. -/
inductive Fault where
  | registry (fault : Events.Fault)
  | scheduler (fault : Scheduler.Fault)
  | timers (fault : Timers.Fault)
  deriving DecidableEq, Repr

structure IOManager (n : Nat) (C D : Type) where
  registry : Events.IOManager C
  scheduler : Scheduler.State n C
  timers : Timers.System C D
  awaited : Finset (Int × Direction)

variable {n : Nat} {C D : Type}

/-- Whether `TriggerEvent` calls for this side; both of its tests are of `concernRead`. -/
def triggers (f : FdCallback C) (events : EventMask) (d : Direction) : Bool :=
  f.concernRead && events &&& d.event != 0

/-- Whether a report on `fd` triggers the pair. -/
def triggered (m : Events.IOManager C) (fd : Int) (events : EventMask)
    (pair : Int × Direction) : Bool :=
  match m.mFdGroups fd with
  | none => false
  | some f => pair.1 == fd && triggers f (widened events) pair.2

namespace IOManager

/-- The constructor with its `start()`. -/
def constructed (opened : Int → Bool) (mWakeupFd timerfd : Int) (handleRead : Callback C) :
    IOManager n C D where
  registry := .constructed opened mWakeupFd timerfd handleRead
  scheduler := .started n C
  timers := .initial
  awaited := {(timerfd, .read)}

/-- The `IsClean` that is given a timeout. -/
def IsCleanTimeout (m : IOManager n C D) (timeout : UInt64) : Bool :=
  timeout == ~~~0 && m.registry.pendingEventCount == 0 && m.scheduler.IsClean

def IsClean (m : IOManager n C D) : Bool :=
  let timeout := 0
  m.IsCleanTimeout timeout

def AddEvent (m : IOManager n C D) (d : Direction) (fd : Int) (cb : Callback C) :
    IOManager n C D :=
  { m with
    registry := (m.registry.AddEvent d fd cb).1
    awaited := insert (fd, d) m.awaited }

def CancelEvent (m : IOManager n C D) (d : Direction) (fd : Int) : IOManager n C D :=
  { m with
    registry := (m.registry.CancelEvent d fd).1
    awaited := m.awaited.erase (fd, d) }

/-- The loop body of `Idle` on worker `w`, which goes on to schedule the callbacks. -/
def deliver (m : IOManager n C D) (w : Fin n) (fd : Int) (events : EventMask) :
    Except Fault (IOManager n C D) :=
  if fd = m.registry.mWakeupFd then
    .ok { m with scheduler := m.scheduler.goto w (.dispatch Report.wakeupFd.chores) }
  else do
    let (registry, callbacks) ← (m.registry.ProcessFdEvent fd events).mapError .registry
    return { m with
      registry := registry
      scheduler := m.scheduler.goto w (.dispatch (Report.fd callbacks).chores)
      awaited := m.awaited.filter fun pair => !triggered m.registry fd events pair }

end IOManager

/-! ## Runs -/

inductive Action (n : Nat) (C D : Type) where
  | add (d : Direction) (fd : Int) (cb : Callback C)
  | cancel (d : Direction) (fd : Int)
  | deliver (w : Fin n) (fd : Int) (events : EventMask)
  | scheduler (action : Scheduler.Action n C)
  | timers (action : Timers.Action C D)
  deriving DecidableEq, Repr

namespace IOManager

/-- Events come one by one: the first from `epoll_wait`, the others of the same array. -/
def reports (m : IOManager n C D) (w : Fin n) (fd : Int) : Bool :=
  match m.scheduler.pc w with
  | .waiting => fd != m.registry.mWakeupFd || m.scheduler.wakeups > 0
  | .dispatch [] => true
  | _ => false

def guard (m : IOManager n C D) : Action n C D → Bool
  | .add _ _ _ => true
  | .cancel _ _ => true
  | .deliver w fd _ => m.reports w fd
  | .scheduler (.epollWait _ _) => false
  | .scheduler action => m.scheduler.guard action
  | .timers action => m.timers.guard action

def exec [Seconds D] (m : IOManager n C D) : Action n C D → Except Fault (IOManager n C D)
  | .add d fd cb => .ok (m.AddEvent d fd cb)
  | .cancel d fd => .ok (m.CancelEvent d fd)
  | .deliver w fd events => m.deliver w fd events
  | .scheduler action => do
      let scheduler ← (m.scheduler.exec .ioManager action).mapError .scheduler
      return { m with scheduler := scheduler }
  | .timers action => do
      let (timers, _) ← (m.timers.perform action).mapError .timers
      return { m with timers := timers }

end IOManager

def machine (n : Nat) (C D : Type) [Seconds D] :
    Machine (IOManager n C D) (Action n C D) Fault where
  guard := IOManager.guard
  exec := IOManager.exec

end Qslary.Shutdown

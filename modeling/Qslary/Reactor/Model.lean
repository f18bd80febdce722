import Qslary.Scheduler.Steps
import Qslary.Timers.Timerfd

/-!
# The timer descriptor under the workers of an `IOManager`

`IOManager` watches the timer descriptor, level-triggered, with `handleRead` as its
read callback.  A worker whose `epoll_wait` reports the descriptor queues a fiber for
`handleRead`; any worker may execute it, later, while other fibers add and cancel
timers.  The steps of the scheduler and those of `handleRead` interleave freely.
-/

namespace Qslary.Reactor

open Qslary.Foundation

/-- What is queued: the read callback of the timer descriptor, or anything else. -/
inductive Work (U : Type) where
  | handleRead
  | other (cb : U)
  deriving DecidableEq, Repr

/-- Where a fiber stands in `handleRead`; in `calling` it is in the loop over the callbacks. -/
inductive Stage where
  | start
  | read (now : Timers.Timestamp)
  | calling (batch : Timers.Batch)
  | done
  deriving DecidableEq, Repr

variable {n : Nat} {U D : Type}

def isRead : Option (Work U) → Bool
  | some .handleRead => true
  | _ => false

structure State (n : Nat) (U D : Type) where
  scheduler : Scheduler.State n (Work U)
  manger : Timers.TimerManger U D
  timerfd : Timers.Timerfd
  stage : Nat → Stage

/-- `caller` is the worker whose fiber makes the call, or `none` for another thread. -/
inductive Action (n : Nat) (U D : Type) where
  | scheduler (action : Scheduler.Action n (Work U))
  | expire
  | addTimer (caller : Option (Fin n)) (p : Timers.Addr) (cb : U)
      (expiration : Timers.Timestamp) (interval : D) (t : Timers.Timestamp)
  | cancel (caller : Option (Fin n)) (timerId : Timers.TimerId)
  | readTimerfd (w : Fin n) (now : Timers.Timestamp)
  | getExpired (w : Fin n)
  | call (w : Fin n)
  | reset (w : Fin n) (t : Timers.Timestamp)

inductive Fault where
  /-- `assert(false)` in `readTimerfd` -/
  | readTimerfd
  | scheduler (fault : Scheduler.Fault)
  | timers (fault : Timers.Fault)
  deriving DecidableEq, Repr

/-- The number of times a list of events makes a worker queue `handleRead`. -/
def choreReads (chores : List (Scheduler.Chore (Work U))) : Nat :=
  chores.countP fun chore =>
    match chore with
    | .schedule cb => isRead cb
    | .drain => false

namespace State

/-- After the constructor of `IOManager`. -/
def constructed : State n U D := ⟨.started n (Work U), .initial, .idle, fun _ => .start⟩

/-- The fiber of worker `w`, if it is at the code of `handleRead` itself. -/
def reader (s : State n U D) (w : Fin n) : Option Nat :=
  (s.scheduler.current w).filter fun f => isRead (s.scheduler.fibers f).task

/-- Worker `w` is at code that may make any call: a callback, queued or of a timer. -/
def free (s : State n U D) (w : Fin n) : Bool :=
  match s.scheduler.current w with
  | none => false
  | some f =>
      !isRead (s.scheduler.fibers f).task ||
        match s.stage f with
        | .calling batch => decide (batch.rest.length < batch.expired.length)
        | _ => false

/--
What the environment of the scheduler does: only the report of an expired descriptor
queues `handleRead`, once for each `epoll_wait`; and what `handleRead` does outside the
timers' callbacks is in the other actions, up to its return.
-/
def admits (s : State n U D) : Scheduler.Action n (Work U) → Bool
  | .scheduler callbacks => callbacks.all fun cb => !isRead cb
  | .epollWait _ reports =>
      decide (choreReads (reports.flatMap Scheduler.Report.chores) ≤
        if s.timerfd = .expired then 1 else 0)
  | .call w (.scheduler callbacks) => s.free w && callbacks.all fun cb => !isRead cb
  | .call w (.finish false) =>
      match s.reader w with
      | some f => decide (s.stage f = .done)
      | none => true
  | .call w _ => s.free w
  | _ => true

def allowed (s : State n U D) : Option (Fin n) → Bool
  | none => true
  | some w => s.free w

def guard (s : State n U D) : Action n U D → Bool
  | .scheduler action => s.scheduler.guard action && s.admits action
  | .expire =>
      match s.timerfd with
      | .armed _ _ => true
      | _ => false
  | .addTimer caller p _ _ _ _ =>
      s.allowed caller && (s.manger.heap p).isNone && decide (p < Timers.uintptrMax)
  | .cancel caller _ => s.allowed caller
  | .readTimerfd w _ =>
      match s.reader w with
      | some f => decide (s.stage f = .start)
      | none => false
  | .getExpired w =>
      match (s.reader w).map s.stage with
      | some (.read _) => true
      | _ => false
  | .call w =>
      match (s.reader w).map s.stage with
      | some (.calling ⟨_, _, _ :: _⟩) => true
      | _ => false
  | .reset w _ =>
      match (s.reader w).map s.stage with
      | some (.calling ⟨_, _, []⟩) => true
      | _ => false

def setStage (s : State n U D) (f : Nat) (stage : Stage) : State n U D :=
  { s with stage := Function.update s.stage f stage }

def timersOp {α : Type} (result : Except Timers.Fault α) : Except Fault α :=
  match result with
  | .ok value => .ok value
  | .error fault => .error (.timers fault)

/-- The step of the fiber `f` on a worker that is at the code of `handleRead`. -/
def handleRead [Timers.Seconds D] (s : State n U D) (f : Nat) :
    Action n U D → Except Fault (State n U D)
  | .readTimerfd _ now =>
      match s.timerfd.readTimerfd with
      | some timerfd => .ok ({ s with timerfd := timerfd }.setStage f (.read now))
      | none => .error .readTimerfd
  | .getExpired _ =>
      match s.stage f with
      | .read now => do
          let (m, expired) ← timersOp (s.manger.getExpired now)
          let m := { m with callingExpiredTimers := true, cancelingTimers := .empty }
          return { s with manger := m }.setStage f (.calling ⟨now, expired, expired⟩)
      | _ => .ok s
  | .call _ =>
      match s.stage f with
      | .calling ⟨now, expired, entry :: rest⟩ => do
          let _ ← timersOp (s.manger.deref entry.second)
          return s.setStage f (.calling ⟨now, expired, rest⟩)
      | _ => .ok s
  | .reset _ t =>
      match s.stage f with
      | .calling ⟨now, expired, _⟩ => do
          let m := { s.manger with callingExpiredTimers := false }
          let (m, armed) ← timersOp (m.reset expired now)
          let timerfd := Timers.Clocked.rearm s.timerfd armed t
          return { s with manger := m, timerfd := timerfd }.setStage f .done
      | _ => .ok s
  | _ => .ok s

def exec [Timers.Seconds D] (s : State n U D) (a : Action n U D) :
    Except Fault (State n U D) :=
  match a with
  | .scheduler action =>
      match s.scheduler.exec .ioManager action with
      | .ok scheduler => .ok { s with scheduler := scheduler }
      | .error fault => .error (.scheduler fault)
  | .expire => .ok { s with timerfd := .expired }
  | .addTimer _ p cb expiration interval t => do
      let (m, _, armed) ← timersOp (s.manger.addTimer p cb expiration interval)
      return { s with manger := m, timerfd := Timers.Clocked.rearm s.timerfd armed t }
  | .cancel _ timerId => do
      let m ← timersOp (s.manger.cancel timerId)
      return { s with manger := m }
  | .readTimerfd w _ => (s.reader w).elim (.ok s) fun f => s.handleRead f a
  | .getExpired w => (s.reader w).elim (.ok s) fun f => s.handleRead f a
  | .call w => (s.reader w).elim (.ok s) fun f => s.handleRead f a
  | .reset w _ => (s.reader w).elim (.ok s) fun f => s.handleRead f a

end State

def machine (n : Nat) (U D : Type) [Timers.Seconds D] :
    Machine (State n U D) (Action n U D) Fault where
  guard := State.guard
  exec := State.exec

end Qslary.Reactor

import Mathlib.Logic.Function.Basic
import Qslary.Foundation.Transition

/-!
# The fiber scheduler

`Scheduler::run` of `net/Scheduler.cc` on any number of workers, with the fibers of
`base/Fiber.cc` and the `Wakeup` and `Idle` of `Scheduler` itself or of `IOManager`.
A step is one access to what the threads share: a critical section of `mutex_`, a read
or a write of a counter or of `state_`, a context switch.  What the code of a fiber does
between its calls into the scheduler is left open.
-/

namespace Qslary.Scheduler

open Qslary.Foundation

/-- Schedulers with one and with two workers have a worker `0`. -/
instance oneWorker : NeZero 1 := ⟨Nat.one_ne_zero⟩

instance twoWorkers : NeZero 2 := ⟨nofun⟩

/-- Whose `Wakeup` and `Idle` the workers call. -/
inductive Kind where
  | scheduler
  | ioManager
  deriving DecidableEq, Repr

inductive FiberState where
  | INIT | HOLD | EXEC | TERM | READY | EXCEPTION
  deriving DecidableEq, Repr

namespace FiberState

def runnable (state : FiberState) : Bool :=
  state == INIT || state == HOLD || state == READY

def ended (state : FiberState) : Bool :=
  state == TERM || state == EXCEPTION

end FiberState

/-- What `ctx_` holds: the start of `FiberRun`, a point to go on from, or a used context. -/
inductive Context where
  | fresh
  | suspended
  | stale
  deriving DecidableEq, Repr

/-- `task` is the callback the fiber was made with; `cb` is `cb_`. -/
structure Fiber (C : Type) where
  state : FiberState := .INIT
  ctx : Context := .fresh
  task : Option C := none
  cb : Option C := none
  deriving DecidableEq, Repr

/-- A call of `Wakeup` at its test of `hasIdleThreads()`, or at its `write`. -/
inductive Wake where
  | test
  | write
  deriving DecidableEq, Repr

/-- What `epoll_wait` reports: `mWakeupFd`, or a descriptor with callbacks to schedule. -/
inductive Report (C : Type) where
  | wakeupFd
  | fd (callbacks : List (Option C))
  deriving DecidableEq, Repr

/-- What `IOManager::Idle` has left to do for the reported events. -/
inductive Chore (C : Type) where
  | drain
  | schedule (cb : Option C)
  deriving DecidableEq, Repr

def Report.chores {C : Type} : Report C → List (Chore C)
  | .wakeupFd => [.drain]
  | .fd callbacks => callbacks.map .schedule

/-- Where a worker stands in `run`; the argument `f` is `doing`. -/
inductive Pc (C : Type) where
  | scan
  | found (f : Nat) (call : Wake)
  | took (f : Nat)
  | counted (f : Nat)
  | entered (f : Nat)
  | exec (f : Nat)
  | spawning (f : Nat) (call : Wake)
  | out (f : Nat)
  | back (f : Nat)
  | settle (f : Nat)
  | mark (f : Nat)
  | requeue (f : Nat)
  | requeued (call : Wake)
  | idleTest
  | idleCounted
  | idling
  | waiting
  | dispatch (chores : List (Chore C))
  | dispatching (call : Wake) (chores : List (Chore C))
  | idleOut
  | idleBack
  | idleDone
  | left
  deriving DecidableEq, Repr

inductive Fault where
  /-- `assert(state_ != State::EXEC)` in `swapIn` -/
  | swapInAssert
  /-- `swapcontext` into a context that has not been saved since it was last resumed -/
  | staleContext
  /-- `assert(cur->state_ == State::EXEC)` in `YieldToHold` and `YieldToReady` -/
  | yieldAssert
  deriving DecidableEq, Repr

/--
Fibers are named by `id_`, of which those below `nextId` have been made.  `outside` are
the `scheduler` calls of other threads that have got to `Wakeup`, `wakeups` is the
counter of `mWakeupFd`, and `ran` lists the fibers whose callback has been called.
-/
structure State (n : Nat) (C : Type) where
  fibers : Nat → Fiber C
  nextId : Nat
  pendingFunctors : List Nat
  activeThreadCount : Nat
  idleThreadCount : Nat
  autoStop : Bool
  clean : Bool
  pc : Fin n → Pc C
  idleState : Fin n → FiberState
  outside : List Wake
  wakeups : Nat
  ran : List Nat

variable {n : Nat} {C : Type}

namespace State

/-- After `start()`. -/
def started (n : Nat) (C : Type) : State n C where
  fibers _ := {}
  nextId := 0
  pendingFunctors := []
  activeThreadCount := 0
  idleThreadCount := 0
  autoStop := false
  clean := false
  pc _ := .scan
  idleState _ := .INIT
  outside := []
  wakeups := 0
  ran := []

def goto (s : State n C) (w : Fin n) (pc : Pc C) : State n C :=
  { s with pc := Function.update s.pc w pc }

def setFiber (s : State n C) (f : Nat) (fiber : Fiber C) : State n C :=
  { s with fibers := Function.update s.fibers f fiber }

def setState (s : State n C) (f : Nat) (state : FiberState) : State n C :=
  s.setFiber f { s.fibers f with state := state }

def setIdle (s : State n C) (w : Fin n) (state : FiberState) : State n C :=
  { s with idleState := Function.update s.idleState w state }

/-! ## The queue -/

def schedulerNoLock (s : State n C) (callback : Option C) : State n C × Bool :=
  let needWakeup := s.pendingFunctors.isEmpty
  ({ s.setFiber s.nextId { task := callback, cb := callback } with
      nextId := s.nextId + 1
      pendingFunctors := s.pendingFunctors ++ [s.nextId] }, needWakeup)

/-- The critical section of `scheduler(cb)` and of `scheduler(begin, end)`. -/
def enqueue (s : State n C) : List (Option C) → State n C × Bool
  | [] => (s, false)
  | callback :: callbacks =>
      let (s, first) := s.schedulerNoLock callback
      let (s, rest) := s.enqueue callbacks
      (s, first || rest)

/-- `scheduler(Fiber::ptr)` -/
def schedulerFiber (s : State n C) (f : Nat) : State n C :=
  { s with pendingFunctors := s.pendingFunctors ++ [f] }

/-- The fiber the locked scan takes, if any. -/
def pick (s : State n C) : Option Nat :=
  s.pendingFunctors.find? fun f => (s.fibers f).state.runnable

def hasIdleThreads (s : State n C) : Bool := s.idleThreadCount > 0

/-- One step of `Wakeup`, and where the call is then, unless it has returned. -/
def Wakeup (kind : Kind) (s : State n C) (call : Wake) : State n C × Option Wake :=
  match kind, call with
  | .scheduler, _ => (s, none)
  | .ioManager, .test => if s.hasIdleThreads then (s, none) else (s, some .write)
  | .ioManager, .write => ({ s with wakeups := s.wakeups + 1 }, none)

/-- The rest of a `scheduler` call after its critical section. -/
def afterEnqueue (w : Fin n) (waking idle : Pc C) : State n C × Bool → State n C
  | (s, needWakeup) => s.goto w (if needWakeup then waking else idle)

def afterWakeup (w : Fin n) (waking : Wake → Pc C) (idle : Pc C) :
    State n C × Option Wake → State n C
  | (s, some call) => s.goto w (waking call)
  | (s, none) => s.goto w idle

/-! ## Fibers -/

def swapIn (s : State n C) (f : Nat) : Except Fault (State n C) :=
  if (s.fibers f).state = .EXEC then .error .swapInAssert
  else .ok (s.setState f .EXEC)

/-- The `swapcontext` of `swapIn`: a fresh context starts `FiberRun`, which calls `cb_`. -/
def resume (s : State n C) (f : Nat) : Except Fault (State n C) :=
  let s' := s.setFiber f { s.fibers f with ctx := .stale }
  match (s.fibers f).ctx with
  | .fresh => .ok { s' with ran := s.ran ++ [f] }
  | .suspended => .ok s'
  | .stale => .error .staleContext

/-- The `swapcontext` of `swapOut`. -/
def suspend (s : State n C) (f : Nat) : State n C :=
  s.setFiber f { s.fibers f with ctx := .suspended }

/-- `YieldToHold` and `YieldToReady` up to their `swapOut`. -/
def yieldTo (s : State n C) (f : Nat) (state : FiberState) : Except Fault (State n C) :=
  if (s.fibers f).state = .EXEC then .ok (s.setState f state) else .error .yieldAssert

/-- The end of `FiberRun` up to its `swapOut`. -/
def finish (s : State n C) (f : Nat) (thrown : Bool) : State n C :=
  if thrown then s.setState f .EXCEPTION
  else s.setFiber f { s.fibers f with cb := none, state := .TERM }

def IsClean (s : State n C) : Bool :=
  s.autoStop && s.clean && s.pendingFunctors.isEmpty && s.activeThreadCount == 0

/-! ## Workers -/

/-- The next step of `run` or of `Idle` on worker `w`. -/
def advance (kind : Kind) (s : State n C) (w : Fin n) : Except Fault (State n C) :=
  match s.pc w with
  | .scan =>
      match s.pick with
      | some f =>
          .ok ({ s with pendingFunctors := s.pendingFunctors.erase f }.goto w (.found f .test))
      | none => .ok (s.goto w .idleTest)
  | .found f call => .ok (afterWakeup w (.found f) (.took f) (s.Wakeup kind call))
  | .took f => .ok ({ s with activeThreadCount := s.activeThreadCount + 1 }.goto w (.counted f))
  | .counted f => do
      let s ← s.swapIn f
      return s.goto w (.entered f)
  | .entered f => do
      let s ← s.resume f
      return s.goto w (.exec f)
  | .exec _ => .ok s
  | .spawning f call => .ok (afterWakeup w (.spawning f) (.exec f) (s.Wakeup kind call))
  | .out f => .ok ((s.suspend f).goto w (.back f))
  | .back f => .ok ({ s with activeThreadCount := s.activeThreadCount - 1 }.goto w (.settle f))
  | .settle f =>
      if (s.fibers f).state = .READY then .ok (s.goto w (.requeue f))
      else if (s.fibers f).state.ended then .ok (s.goto w .scan)
      else .ok (s.goto w (.mark f))
  | .mark f => .ok ((s.setState f .HOLD).goto w .scan)
  | .requeue f => .ok (afterEnqueue w (.requeued .test) .scan (s.enqueue [(s.fibers f).cb]))
  | .requeued call => .ok (afterWakeup w .requeued .scan (s.Wakeup kind call))
  | .idleTest =>
      if (s.idleState w).ended then .ok (s.goto w .left)
      else .ok ({ s with idleThreadCount := s.idleThreadCount + 1 }.goto w .idleCounted)
  | .idleCounted =>
      if s.idleState w = .EXEC then .error .swapInAssert
      else .ok ((s.setIdle w .EXEC).goto w .idling)
  | .idling =>
      match kind with
      | .scheduler =>
          if s.IsClean then .ok ((s.setIdle w .TERM).goto w .idleOut)
          else if s.idleState w = .EXEC then .ok ((s.setIdle w .HOLD).goto w .idleOut)
          else .error .yieldAssert
      | .ioManager => .ok (s.goto w .waiting)
  | .waiting => .ok s
  | .dispatch [] => .ok (s.goto w .idleOut)
  | .dispatch (.drain :: chores) => .ok ({ s with wakeups := 0 }.goto w (.dispatch chores))
  | .dispatch (.schedule cb :: chores) =>
      .ok (afterEnqueue w (.dispatching .test chores) (.dispatch chores) (s.enqueue [cb]))
  | .dispatching call chores =>
      .ok (afterWakeup w (fun call => .dispatching call chores) (.dispatch chores)
        (s.Wakeup kind call))
  | .idleOut => .ok (s.goto w .idleBack)
  | .idleBack =>
      if (s.idleState w).ended then .ok (s.goto w .idleDone)
      else .ok ((s.setIdle w .HOLD).goto w .idleDone)
  | .idleDone => .ok ({ s with idleThreadCount := s.idleThreadCount - 1 }.goto w .scan)
  | .left => .ok s

/-- The code of a fiber and `epoll_wait` decide themselves when to go on; `read` waits. -/
def canAdvance (s : State n C) (w : Fin n) : Bool :=
  match s.pc w with
  | .exec _ => false
  | .waiting => false
  | .left => false
  | .dispatch (.drain :: _) => s.wakeups > 0
  | _ => true

end State

/-! ## Runs -/

/-- What the code of a fiber can do next. -/
inductive Call (C : Type) where
  | scheduler (callbacks : List (Option C))
  | schedulerFiber (f : Nat)
  | yieldToHold
  | yieldToReady
  | finish (thrown : Bool)
  deriving DecidableEq, Repr

/-- A call of a thread that is no worker, a step of a worker, or of the fiber it executes. -/
inductive Action (n : Nat) (C : Type) where
  | scheduler (callbacks : List (Option C))
  | schedulerFiber (f : Nat)
  | wakeup (i : Nat)
  | stop
  | stopClean
  | advance (w : Fin n)
  | epollWait (w : Fin n) (reports : List (Report C))
  | call (w : Fin n) (call : Call C)
  deriving DecidableEq, Repr

def Report.isWakeup : Report C → Bool
  | .wakeupFd => true
  | .fd _ => false

namespace State

/-- The fiber whose code worker `w` is at. -/
def current (s : State n C) (w : Fin n) : Option Nat :=
  match s.pc w with
  | .exec f => some f
  | _ => none

def guard (s : State n C) : Action n C → Bool
  | .scheduler _ => true
  | .schedulerFiber f => f < s.nextId
  | .wakeup i => i < s.outside.length
  | .stop => !s.autoStop
  | .stopClean => s.autoStop && !s.clean
  | .advance w => s.canAdvance w
  | .epollWait w reports =>
      match s.pc w with
      | .waiting => !reports.any Report.isWakeup || s.wakeups > 0
      | _ => false
  | .call w (.schedulerFiber f) => (s.current w).isSome && f < s.nextId
  | .call w _ => (s.current w).isSome

/-- The fiber `f` on worker `w` makes a call. -/
def perform (s : State n C) (w : Fin n) (f : Nat) : Call C → Except Fault (State n C)
  | .scheduler callbacks =>
      .ok (afterEnqueue w (.spawning f .test) (.exec f) (s.enqueue callbacks))
  | .schedulerFiber f' => .ok (s.schedulerFiber f')
  | .yieldToHold => do
      let s ← s.yieldTo f .HOLD
      return s.goto w (.out f)
  | .yieldToReady => do
      let s ← s.yieldTo f .READY
      return s.goto w (.out f)
  | .finish thrown => .ok ((s.finish f thrown).goto w (.out f))

def exec (kind : Kind) (s : State n C) : Action n C → Except Fault (State n C)
  | .scheduler callbacks =>
      let (s, needWakeup) := s.enqueue callbacks
      .ok { s with outside := if needWakeup then s.outside ++ [.test] else s.outside }
  | .schedulerFiber f => .ok (s.schedulerFiber f)
  | .wakeup i =>
      match s.outside[i]? with
      | none => .ok s
      | some call =>
          let (s, next) := s.Wakeup kind call
          .ok { s with outside := s.outside.take i ++ next.toList ++ s.outside.drop (i + 1) }
  | .stop => .ok { s with autoStop := true }
  | .stopClean => .ok { s with clean := true }
  | .advance w => s.advance kind w
  | .epollWait w reports => .ok (s.goto w (.dispatch (reports.flatMap Report.chores)))
  | .call w call =>
      match s.current w with
      | none => .ok s
      | some f => s.perform w f call

end State

def machine (kind : Kind) (n : Nat) (C : Type) : Machine (State n C) (Action n C) Fault where
  guard := State.guard
  exec := State.exec kind

end Qslary.Scheduler

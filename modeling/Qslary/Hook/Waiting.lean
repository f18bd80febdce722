import Mathlib.Algebra.Order.Ring.Rat
import Qslary.Events.Model
import Qslary.Hook.Model

/-!
# The hooked calls that wait

Where the C library would block the thread, a hooked call arms a timer of the
`IOManager`, or registers an event, and yields the fiber.  A call is therefore a
coroutine: other fibers run while it is held, and it goes on in whatever state they
leave.  What the C library's own function answers is an argument.
-/

namespace Qslary.Hook

open Qslary.Descriptors (FdContext Fd SO_RCVTIMEO)
open Qslary.Events (Direction Callback IOManager)

def EINTR : Nat := 4
def EBADF : Nat := 9
def EAGAIN : Nat := 11
def EINPROGRESS : Nat := 115

def SOL_SOCKET : Nat := 1
def SO_SNDTIMEO : Nat := 21

/-- What a function of the C library returns, and `errno` after it. -/
structure Answer where
  n : Int
  errno : Nat
  deriving DecidableEq, Repr

def Answer.failed (a : Answer) (errno : Nat) : Bool := a.n = -1 ∧ a.errno = errno

inductive Coroutine (σ : Type) where
  | returned (s : σ) (n : Int)
  | held (s : σ) (resume : σ → Coroutine σ)

namespace Coroutine

variable {σ : Type}

/-- The state at the first `YieldToHold`, or else at the return. -/
def state : Coroutine σ → σ
  | .returned s _ => s
  | .held s _ => s

/--
The call is held `k` times, each time in a state that meets `armed`, and then returns as
`result` says, whatever has been done to the state in between.
-/
def Holds (armed : σ → Prop) (result : σ → Int → Prop) : Nat → Coroutine σ → Prop
  | 0, .returned s n => result s n
  | k + 1, .held s resume => armed s ∧ ∀ s', Holds armed result k (resume s')
  | _, _ => False

end Coroutine

inductive TimerCallback where
  | scheduler (fiber : Nat)
  | cancelEvent (d : Direction) (fd : Int)
  | cancelAll (fd : Int)
  deriving DecidableEq, Repr

/-- A call of `runAfter`: its number, its delay, and what it is to do. -/
structure ArmedTimer where
  timerId : Nat
  delay : ℚ
  cb : TimerCallback
  deriving DecidableEq

/-- What a hooked call sees of its thread; `C` is for the functions a scheduler can run. -/
structure Thread (C : Type) where
  threadHookEnable : Bool
  process : Process
  iomanager : IOManager C
  timers : List ArmedTimer
  numCreated : Nat
  fiber : Nat
  errno : Nat

/-- `timespec`, as `nanosleep` takes it. -/
structure Timespec where
  tvSec : Nat
  tvNsec : Nat
  sec_lt : tvSec < 2 ^ 63
  nsec_lt : tvNsec < 1000000000

structure Timeval where
  tvSec : Int
  tvUsec : Int
  deriving DecidableEq

/-- A conversion to `int`. -/
def toInt (n : Int) : Int := n.bmod (2 ^ 32)

namespace Thread

variable {C : Type}

def runAfter (t : Thread C) (delay : ℚ) (cb : TimerCallback) : Thread C × Nat :=
  let timerId := t.numCreated + 1
  ({ t with timers := t.timers ++ [⟨timerId, delay, cb⟩], numCreated := timerId }, timerId)

def cancel (t : Thread C) (timerId : Nat) : Thread C :=
  { t with timers := t.timers.filter fun timer => timer.timerId != timerId }

/-- Returning what the C library's function has answered. -/
def answer (t : Thread C) (a : Answer) : Coroutine (Thread C) :=
  .returned { t with errno := a.errno } a.n

def fail (t : Thread C) (errno : Nat) : Coroutine (Thread C) :=
  .returned { t with errno := errno } (-1)

/-- `iomanager->scheduler(fiber)` after the delay. -/
def sleepFor (t : Thread C) (delay : ℚ) : Coroutine (Thread C) :=
  .held (t.runAfter delay (.scheduler t.fiber)).1 fun t => .returned t 0

def sleep (t : Thread C) (seconds : UInt32) (sleep_f : Answer) : Coroutine (Thread C) :=
  if t.threadHookEnable == false then t.answer sleep_f else t.sleepFor seconds.toNat

def usleep (t : Thread C) (usec : UInt32) (usleep_f : Answer) : Coroutine (Thread C) :=
  if t.threadHookEnable == false then t.answer usleep_f
  else t.sleepFor ((usec.toNat : ℚ) / 1000)

def nanaosleep (t : Thread C) (req : Timespec) (nanaosleep_f : Answer) : Coroutine (Thread C) :=
  if t.threadHookEnable == false then t.answer nanaosleep_f
  else
    let timeoutMs := toInt (req.tvSec + req.tvNsec / 1000 / 1000)
    t.sleepFor timeoutMs

/-- The end of a connection that has been waited for. -/
def socketError (t : Thread C) (getsockopt_f : Answer) (error : Nat) : Coroutine (Thread C) :=
  if getsockopt_f.n = -1 then t.answer getsockopt_f
  else if error = 0 then .returned t 0
  else t.fail error

/--
`connect_f` and `getsockopt_f` are what the two answer, the latter with the error it
finds.  `AddWriteEvent` returns a `bool`, and 0 is waited for.  The quotient of the
timeout is the exact one.
-/
def connectWithTimeout (t : Thread C) (sockfd : Fd) (timeoutMs : UInt64) (connect_f : Answer)
    (getsockopt_f : Answer) (error : Nat) : Coroutine (Thread C) :=
  if t.threadHookEnable == false then t.answer connect_f
  else
    match t.process.context sockfd with
    | none => t.fail EBADF
    | some (_, fdctx) =>
        if fdctx.isClosed then t.fail EBADF
        else if fdctx.isSocket == false || fdctx.userNonblock then t.answer connect_f
        else if connect_f.n = 0 then t.answer connect_f
        else if !connect_f.failed EINPROGRESS then t.answer connect_f
        else
          let (t, timerId) := t.runAfter ((timeoutMs.toNat : ℚ) / 1000) (.cancelAll sockfd.val)
          let (iomanager, rt) := t.iomanager.AddWriteEvent sockfd.val none
          let t := { t with iomanager := iomanager }
          if rt.toNat = 0 then .held t fun t => (t.cancel timerId).socketError getsockopt_f error
          else t.socketError getsockopt_f error

end Thread

/-! ## Reading and writing -/

/-- The answers of a function called again and again: some, and from then on the last one. -/
structure Answers where
  queued : List Answer
  last : Answer
  final : last.failed EINTR = false ∧ last.failed EAGAIN = false

/-- The answer that ends the loop on `EINTR`. -/
def Answers.uninterrupted (answers : Answers) : Answer :=
  (answers.queued.find? fun n => !n.failed EINTR).getD answers.last

def Answers.head (answers : Answers) : Answer := answers.queued.headD answers.last

/-- The functions that are `do_io` with an event and a timeout. -/
inductive OriginFun where
  | accept
  | read
  | readv
  | recv
  | recvfrom
  | recvmsg
  | write
  | writev
  | send
  | sendto
  | sendmsg
  deriving DecidableEq, Repr

namespace OriginFun

def event : OriginFun → Direction
  | accept | read | readv | recv | recvfrom | recvmsg => .read
  | write | writev | send | sendto | sendmsg => .write

def timeoutSo : OriginFun → Nat
  | accept | read | readv | recv | recvfrom | recvmsg => SO_RCVTIMEO
  | write | writev | send | sendto | sendmsg => SO_SNDTIMEO

end OriginFun

/-- No `goto` leads to the label `retry`. -/
def Thread.doIo {C : Type} (t : Thread C) (fd : Fd) (fun_ : OriginFun) (answers : Answers) :
    Coroutine (Thread C) :=
  if t.threadHookEnable == false then t.answer answers.head
  else
    match t.process.context fd with
    | none => t.answer answers.head
    | some (_, fdctx) =>
        if fdctx.isClosed then t.fail EBADF
        else if !fdctx.isSocket || fdctx.userNonblock then t.answer answers.head
        else
          let timeout := fdctx.getTimeout fun_.timeoutSo
          let n := answers.uninterrupted
          if n.failed EAGAIN then
            let (t, timerId) := t.runAfter timeout.toNat (.cancelEvent fun_.event fd.val)
            let t := { t with iomanager := (t.iomanager.AddEvent fun_.event fd.val none).1 }
            .held t fun t => .returned (t.cancel timerId) n.n
          else t.answer n

/-! ## Timeouts -/

def Process.setsockopt (p : Process) (threadHookEnable : Bool) (sockfd : Fd)
    (level optname : Nat) (v : Timeval) : Process :=
  if threadHookEnable == false then p
  else if level = SOL_SOCKET ∧ (optname = SO_RCVTIMEO ∨ optname = SO_SNDTIMEO) then
    match p.context sockfd with
    | none => p
    | some (c, fdctx) =>
        p.store c (fdctx.setTimeout optname
          (UInt64.ofInt (v.tvSec * 1000 + v.tvUsec.tdiv 1000)))
  else p

namespace Socket

def timeval (val : UInt64) : Timeval :=
  ⟨toInt ((val / 1000).toNat), toInt (((val % 1000) * 1000).toNat)⟩

def setSendTimeout (p : Process) (threadHookEnable : Bool) (socketfd : Fd) (val : UInt64) :
    Process :=
  p.setsockopt threadHookEnable socketfd SOL_SOCKET SO_SNDTIMEO (timeval val)

def setRecvTimeout (p : Process) (threadHookEnable : Bool) (socketfd : Fd) (val : UInt64) :
    Process :=
  p.setsockopt threadHookEnable socketfd SOL_SOCKET SO_RCVTIMEO (timeval val)

end Socket

end Qslary.Hook

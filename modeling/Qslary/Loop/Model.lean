import Qslary.Poller.Matching

/-!
# `EventLoop`

A loop polls, lets the channels that are ready call back, and then runs in a fiber each the
functors that any thread has queued.  The callbacks and functors are the user's: they change
channels, queue more functors, stop the loop, and destroy channels.  The channel that the
constructor makes for `wakeupFd_` is left out: `wakeup` writes nothing, and nothing reads.
-/

namespace Qslary.Loop

open Qslary.Foundation
open Qslary.Events (EventMask)
open Qslary.Poller (POLLIN POLLPRI POLLOUT Channels EPollPoller)

def POLLERR : EventMask := 0x008
def POLLHUP : EventMask := 0x010
def POLLNVAL : EventMask := 0x020
def POLLRDHUP : EventMask := 0x2000

def kInitEventListSize : Nat := 16

inductive Callback where
  | close
  | error
  | read
  | write
  deriving DecidableEq

/-- What `handleEventWithGuard` calls, in this order. -/
def callbacks (revents : EventMask) : List Callback :=
  (if revents &&& POLLHUP != 0 && revents &&& POLLIN == 0 then [.close] else []) ++
    (if revents &&& (POLLERR ||| POLLNVAL) != 0 then [.error] else []) ++
    (if revents &&& (POLLIN ||| POLLPRI ||| POLLRDHUP) != 0 then [.read] else []) ++
    if revents &&& POLLOUT != 0 then [.write] else []

/-- How a fiber comes back from `swapIn`. -/
inductive FiberState where
  | TERM
  | EXCEPTION
  | READY
  | HOLD
  deriving DecidableEq

variable {χ F : Type}

/-- Where the thread of the loop is; a callback that runs is the first of its list. -/
inductive LoopPc (χ F : Type) where
  | outside
  | testing
  | polling
  | events (rest : List χ)
  | inChannel (callbacks : List Callback) (rest : List χ)
  | swapping
  | calling (fiber : F) (functors : List F)
  | inFiber (fiber : F) (functors : List F)
  deriving DecidableEq

/-- The user's code runs. -/
def LoopPc.callsUser : LoopPc χ F → Bool
  | .outside | .inChannel (_ :: _) _ | .inFiber _ _ => true
  | _ => false

/-- The `for` of `doPendingFunctors`, and the `while` behind it. -/
def LoopPc.forFunctors : List F → LoopPc χ F
  | [] => .testing
  | fiber :: functors => .calling fiber functors

inductive Fault where
  | assertion
  | destroyed
  | null
  deriving DecidableEq

/-- `handlesEvent` is `eventHandling_` of a channel, `eventsSize` the size of `events_`, and
`inScheduler` whether `GetSchedulerFirstFiber` has a fiber for the thread of the loop. -/
structure EventLoop (χ F : Type) where
  inScheduler : Bool
  looping_ : Bool
  quit_ : Bool
  eventHandling_ : Bool
  callingPendingFunctors_ : Bool
  iteration_ : Nat
  poller_ : EPollPoller χ
  eventsSize : Nat
  revents_ : χ → EventMask
  handlesEvent : χ → Bool
  destroyed : χ → Bool
  activeChannels_ : List χ
  currentActiveChannel_ : Option χ
  pendingFunctors_ : List F
  pc : LoopPc χ F

/-- What the user's code asks of the loop in its thread. -/
inductive Request (χ F : Type) where
  | channel (a : Poller.Answered χ)
  | destroy (c : χ)
  | queueInLoop (cb : F)
  | quit
  | loop

/-- `queueInLoop` and `quit` come from other threads. -/
inductive Action (χ F : Type) where
  | own (request : Request χ F)
  | queueInLoop (cb : F)
  | quit
  | test
  | pollReturns (reports : List (χ × EventMask))
  | handle (guarded : Bool)
  | proceed
  | handled
  | swap
  | swapIn
  | swapOut (state : FiberState)

namespace EventLoop

def new (inScheduler : Bool) : EventLoop χ F where
  inScheduler := inScheduler
  looping_ := false
  quit_ := false
  eventHandling_ := false
  callingPendingFunctors_ := false
  iteration_ := 0
  poller_ := .start
  eventsSize := kInitEventListSize
  revents_ _ := 0
  handlesEvent _ := false
  destroyed _ := false
  activeChannels_ := []
  currentActiveChannel_ := none
  pendingFunctors_ := []
  pc := .outside

/-- `wakeup` does nothing, whether it is called or not. -/
def queueInLoop (l : EventLoop χ F) (cb : F) : EventLoop χ F :=
  { l with pendingFunctors_ := l.pendingFunctors_ ++ [cb] }

def quit (l : EventLoop χ F) : EventLoop χ F := { l with quit_ := true }

def loop (l : EventLoop χ F) : Except Fault (EventLoop χ F) :=
  if l.looping_ then .error .assertion
  else .ok { l with looping_ := true, quit_ := false, pc := .testing }

/-- The test of `while`, and `activeChannels_.clear()` behind it. -/
def test (l : EventLoop χ F) : EventLoop χ F :=
  if l.quit_ then { l with looping_ := false, pc := .outside }
  else { l with activeChannels_ := [], pc := .polling }

section

variable [DecidableEq χ] (chs : Channels χ)

/-- The kernel finds the channels by what they were registered with. -/
def epollWait (l : EventLoop χ F) (reports : List (χ × EventMask)) : List (χ × EventMask) :=
  reports.filterMap fun report =>
    (l.poller_.epoll (chs.fd report.1)).map fun event => (event.ptr, report.2)

def fillActiveChannels :
    List (χ × EventMask) → EventLoop χ F → Except Fault (EventLoop χ F)
  | [], l => .ok l
  | (channel, revents) :: events, l =>
      if l.destroyed channel then .error .destroyed
      else if l.poller_.channels_ (chs.fd channel) = some channel then
        fillActiveChannels events { l with
          revents_ := Function.update l.revents_ channel revents
          activeChannels_ := l.activeChannels_ ++ [channel] }
      else .error .assertion

def poll (l : EventLoop χ F) (reports : List (χ × EventMask)) :
    Except Fault (EventLoop χ F) := do
  let events := l.epollWait chs reports
  if events = [] then return l
  if l.eventsSize < events.length then throw .assertion
  let l ← fillActiveChannels chs events l
  return if events.length = l.eventsSize then { l with eventsSize := l.eventsSize * 2 } else l

def pollReturns (l : EventLoop χ F) (reports : List (χ × EventMask)) :
    Except Fault (EventLoop χ F) := do
  let l ← l.poll chs reports
  return { l with
    iteration_ := l.iteration_ + 1, eventHandling_ := true, pc := .events l.activeChannels_ }

/-- `handleEvent`; the guard is missing only where the channel is tied to an object that is no
more. -/
def handle (l : EventLoop χ F) (guarded : Bool) : Except Fault (EventLoop χ F) :=
  match l.pc with
  | .events (c :: rest) =>
      let l := { l with currentActiveChannel_ := some c }
      if l.destroyed c then .error .destroyed
      else if guarded then .ok { l with
        handlesEvent := Function.update l.handlesEvent c true
        pc := .inChannel (callbacks (l.revents_ c)) rest }
      else .ok { l with pc := .events rest }
  | _ => .ok l

/-- `handleEventWithGuard` behind a callback, and behind the last one. -/
def proceed (l : EventLoop χ F) : Except Fault (EventLoop χ F) :=
  match l.currentActiveChannel_, l.pc with
  | some c, .inChannel later rest =>
      if l.destroyed c then .error .destroyed
      else match later with
        | _ :: later => .ok { l with pc := .inChannel later rest }
        | [] => .ok { l with
            handlesEvent := Function.update l.handlesEvent c false, pc := .events rest }
  | _, _ => .ok l

/-- `doPendingFunctors` is entered. -/
def handled (l : EventLoop χ F) : EventLoop χ F :=
  { l with
    currentActiveChannel_ := none
    eventHandling_ := false
    callingPendingFunctors_ := true
    pc := .swapping }

def swap (l : EventLoop χ F) : EventLoop χ F :=
  { l with pendingFunctors_ := [], pc := .forFunctors l.pendingFunctors_ }

/-- The fiber is a new one; `Fiber::swapIn` saves the context in that of the scheduler's fiber. -/
def swapIn (l : EventLoop χ F) : Except Fault (EventLoop χ F) :=
  match l.pc with
  | .calling fiber functors =>
      if l.inScheduler then .ok { l with pc := .inFiber fiber functors } else .error .null
  | _ => .ok l

/-- A fiber that has yielded is reset against the assertion of `Fiber::reset`; one that is
ready has been queued again before that. -/
def swapOut (l : EventLoop χ F) (state : FiberState) : Except Fault (EventLoop χ F) :=
  match l.pc, state with
  | .inFiber _ functors, .TERM | .inFiber _ functors, .EXCEPTION =>
      .ok { l with callingPendingFunctors_ := false, pc := .forFunctors functors }
  | .inFiber _ _, .READY | .inFiber _ _, .HOLD => .error .assertion
  | _, _ => .ok l

/-- `EventLoop::removeChannel` lets a channel that is active go only while it is handled. -/
def removesOther (l : EventLoop χ F) : Poller.Call χ → Bool
  | .remove c => l.eventHandling_ && l.currentActiveChannel_ != some c &&
      l.activeChannels_.contains c
  | _ => false

def callChannel (l : EventLoop χ F) (a : Poller.Answered χ) : Except Fault (EventLoop χ F) :=
  if l.removesOther a.call then .error .assertion
  else match a.call.exec chs a.refused l.poller_ with
    | .ok poller => .ok { l with poller_ := poller }
    | .error .assertFailed => .error .assertion

/-- `~Channel` -/
def destroy (l : EventLoop χ F) (c : χ) : Except Fault (EventLoop χ F) :=
  if l.handlesEvent c || (l.poller_.channel c).addedToLoop_ ||
      l.poller_.channels_ (chs.fd c) == some c then .error .assertion
  else .ok { l with destroyed := Function.update l.destroyed c true }

def request (l : EventLoop χ F) : Request χ F → Except Fault (EventLoop χ F)
  | .channel a => l.callChannel chs a
  | .destroy c => l.destroy chs c
  | .queueInLoop cb => .ok (l.queueInLoop cb)
  | .quit => .ok l.quit
  | .loop => l.loop

/-- The owner of a channel asks nothing of one that it has destroyed. -/
def asks (l : EventLoop χ F) : Request χ F → Bool
  | .channel a => !l.destroyed a.call.target && (Poller.Call.machine chs).guard l.poller_ a
  | .destroy c => !l.destroyed c
  | _ => true

def guard (l : EventLoop χ F) : Action χ F → Bool
  | .own request => l.pc.callsUser && l.asks chs request
  | .queueInLoop _ | .quit => true
  | .test => match l.pc with
      | .testing => true
      | _ => false
  | .pollReturns reports => match l.pc with
      | .polling => reports.length ≤ l.eventsSize && (reports.map Prod.fst).Nodup &&
          reports.all fun report => (l.poller_.epoll (chs.fd report.1)).isSome
      | _ => false
  | .handle _ => match l.pc with
      | .events (_ :: _) => true
      | _ => false
  | .proceed => match l.pc with
      | .inChannel _ _ => true
      | _ => false
  | .handled => match l.pc with
      | .events [] => true
      | _ => false
  | .swap => match l.pc with
      | .swapping => true
      | _ => false
  | .swapIn => match l.pc with
      | .calling _ _ => true
      | _ => false
  | .swapOut _ => match l.pc with
      | .inFiber _ _ => true
      | _ => false

def exec (l : EventLoop χ F) : Action χ F → Except Fault (EventLoop χ F)
  | .own request => l.request chs request
  | .queueInLoop cb => .ok (l.queueInLoop cb)
  | .quit => .ok l.quit
  | .test => .ok l.test
  | .pollReturns reports => l.pollReturns chs reports
  | .handle guarded => l.handle guarded
  | .proceed => l.proceed
  | .handled => .ok l.handled
  | .swap => .ok l.swap
  | .swapIn => l.swapIn
  | .swapOut state => l.swapOut state

def machine : Machine (EventLoop χ F) (Action χ F) Fault := ⟨guard chs, exec chs⟩

end

end EventLoop

end Qslary.Loop

import Qslary.Events.Model

/-!
# Channels and `EPollPoller`

A channel asks for events on its descriptor, and the poller passes that on to the kernel.
It writes down what it has done in three places: `index_` of the channel, its own map
`channels_`, and the interest set of the epoll instance.  The kernel refuses to add a
descriptor that is there and to change one that is not, and it may refuse any other
`epoll_ctl`, for a file that cannot be watched, a closed descriptor, or want of memory.
-/

namespace Qslary.Poller

open Qslary.Foundation
open Qslary.Events (EventMask)

def POLLIN : EventMask := 0x001
def POLLPRI : EventMask := 0x002
def POLLOUT : EventMask := 0x004

def kNoneEvent : EventMask := 0
def kReadEvent : EventMask := POLLIN ||| POLLPRI
def kWriteEvent : EventMask := POLLOUT

def kNew : Int := -1
def kAdded : Int := 1
def kDeleted : Int := 2

structure Channel where
  events_ : EventMask
  index_ : Int
  addedToLoop_ : Bool
  deriving DecidableEq, Repr

namespace Channel

/-- The constructor. -/
def new : Channel := ⟨0, -1, false⟩

def isNoneEvent (ch : Channel) : Bool := ch.events_ == kNoneEvent

end Channel

/-- The channels of a loop, each with a descriptor of its own. -/
structure Channels (χ : Type) where
  fd : χ → Int
  distinct : ∀ {c c'}, fd c = fd c' → c = c'

variable {χ : Type}

/-- `struct epoll_event` -/
structure Event (χ : Type) where
  events : EventMask
  ptr : χ
  deriving DecidableEq

inductive Operation where
  | EPOLL_CTL_ADD
  | EPOLL_CTL_MOD
  | EPOLL_CTL_DEL
  deriving DecidableEq, Repr

/-- The interest set. -/
abbrev Epoll (χ : Type) := Int → Option (Event χ)

/-- What the interest set itself decides: `none` is `EEXIST` or `ENOENT`. -/
def Epoll.ctl (k : Epoll χ) (operation : Operation) (fd : Int) (event : Event χ) :
    Option (Epoll χ) :=
  match operation, k fd with
  | .EPOLL_CTL_ADD, none => some (Function.update k fd (some event))
  | .EPOLL_CTL_MOD, some _ => some (Function.update k fd (some event))
  | .EPOLL_CTL_DEL, some _ => some (Function.update k fd none)
  | _, _ => none

inductive Fault where
  | assertFailed
  deriving DecidableEq, Repr

def assert (cond : Bool) : Except Fault Unit :=
  if cond then .ok () else .error .assertFailed

/-- `failed` are the calls of `epoll_ctl` that failed with `EEXIST` or `ENOENT`. -/
structure EPollPoller (χ : Type) where
  channel : χ → Channel
  channels_ : Int → Option χ
  epoll : Epoll χ
  failed : List (Operation × Int)

namespace EPollPoller

variable [DecidableEq χ] (chs : Channels χ)

def start : EPollPoller χ where
  channel _ := .new
  channels_ _ := none
  epoll _ := none
  failed := []

def setChannel (p : EPollPoller χ) (c : χ) (ch : Channel) : EPollPoller χ :=
  { p with channel := Function.update p.channel c ch }

def set_index (p : EPollPoller χ) (c : χ) (idx : Int) : EPollPoller χ :=
  p.setChannel c { p.channel c with index_ := idx }

variable (refused : Bool)

/-- Whatever `epoll_ctl` returns is printed at most; `refused` is what the kernel answers where the
descriptor is or is not there as it has to be. -/
def update (p : EPollPoller χ) (operation : Operation) (c : χ) : EPollPoller χ :=
  match p.epoll.ctl operation (chs.fd c) ⟨(p.channel c).events_, c⟩ with
  | some epoll => if refused then p else { p with epoll := epoll }
  | none => { p with failed := p.failed ++ [(operation, chs.fd c)] }

def updateChannel (p : EPollPoller χ) (c : χ) : Except Fault (EPollPoller χ) := do
  let index := (p.channel c).index_
  let fd := chs.fd c
  if index = kNew ∨ index = kDeleted then
    if index = kNew then
      assert (p.channels_ fd).isNone
      let p := { p with channels_ := Function.update p.channels_ fd (some c) }
      return (p.set_index c kAdded).update chs refused .EPOLL_CTL_ADD c
    else
      assert (p.channels_ fd).isSome
      assert (p.channels_ fd = some c)
      return (p.set_index c kAdded).update chs refused .EPOLL_CTL_ADD c
  else
    assert (p.channels_ fd).isSome
    assert (p.channels_ fd = some c)
    assert (index = kAdded)
    if (p.channel c).isNoneEvent then
      return (p.update chs refused .EPOLL_CTL_DEL c).set_index c kDeleted
    else
      return p.update chs refused .EPOLL_CTL_MOD c

def removeChannel (p : EPollPoller χ) (c : χ) : Except Fault (EPollPoller χ) := do
  let fd := chs.fd c
  assert (p.channels_ fd).isSome
  assert (p.channels_ fd = some c)
  assert (p.channel c).isNoneEvent
  let index := (p.channel c).index_
  assert (index = kAdded ∨ index = kDeleted)
  let n := if (p.channels_ fd).isSome then 1 else 0
  let p := { p with channels_ := Function.update p.channels_ fd none }
  assert (n = 1)
  if index = kAdded then
    return (p.update chs refused .EPOLL_CTL_DEL c).set_index c kNew
  else
    return p.set_index c kNew

/-! ## The operations of a channel -/

/-- `Channel::update` with the events just set. -/
def setEvents (p : EPollPoller χ) (c : χ) (events : EventMask) :
    Except Fault (EPollPoller χ) :=
  let p := p.setChannel c { p.channel c with events_ := events, addedToLoop_ := true }
  p.updateChannel chs refused c

def enableReading (p : EPollPoller χ) (c : χ) : Except Fault (EPollPoller χ) :=
  p.setEvents chs refused c ((p.channel c).events_ ||| kReadEvent)

def disableReading (p : EPollPoller χ) (c : χ) : Except Fault (EPollPoller χ) :=
  p.setEvents chs refused c ((p.channel c).events_ &&& ~~~kReadEvent)

def enableWriting (p : EPollPoller χ) (c : χ) : Except Fault (EPollPoller χ) :=
  p.setEvents chs refused c ((p.channel c).events_ ||| kWriteEvent)

def disableWriting (p : EPollPoller χ) (c : χ) : Except Fault (EPollPoller χ) :=
  p.setEvents chs refused c ((p.channel c).events_ &&& ~~~kWriteEvent)

def disableAll (p : EPollPoller χ) (c : χ) : Except Fault (EPollPoller χ) :=
  p.setEvents chs refused c kNoneEvent

def remove (p : EPollPoller χ) (c : χ) : Except Fault (EPollPoller χ) := do
  assert (p.channel c).isNoneEvent
  let p := p.setChannel c { p.channel c with addedToLoop_ := false }
  p.removeChannel chs refused c

end EPollPoller

inductive Call (χ : Type) where
  | enableReading (c : χ)
  | disableReading (c : χ)
  | enableWriting (c : χ)
  | disableWriting (c : χ)
  | disableAll (c : χ)
  | remove (c : χ)

def Call.exec [DecidableEq χ] (chs : Channels χ) (refused : Bool) (p : EPollPoller χ) :
    Call χ → Except Fault (EPollPoller χ)
  | .enableReading c => p.enableReading chs refused c
  | .disableReading c => p.disableReading chs refused c
  | .enableWriting c => p.enableWriting chs refused c
  | .disableWriting c => p.disableWriting chs refused c
  | .disableAll c => p.disableAll chs refused c
  | .remove c => p.remove chs refused c

/-- A call, and whether the kernel refuses the `epoll_ctl` that comes of it. -/
structure Answered (χ : Type) where
  call : Call χ
  refused : Bool

/-- The owner of a channel removes it once it is in the loop and asks for nothing. -/
def Call.machine [DecidableEq χ] (chs : Channels χ) :
    Machine (EPollPoller χ) (Answered χ) Fault where
  guard p a :=
    match a.call with
    | .remove c => (p.channel c).addedToLoop_ && (p.channel c).isNoneEvent
    | _ => true
  exec p a := a.call.exec chs a.refused p

end Qslary.Poller

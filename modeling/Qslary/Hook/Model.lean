import Mathlib.Logic.Function.Basic
import Qslary.Descriptors.PartialMap

/-!
# The hooked calls on one descriptor's mode

`base/Hook.cc` puts its own functions before those of the C library.  A socket with a
context is non-blocking for the kernel, and the context keeps what the user asked for;
`fcntl` and `ioctl` stand between the two.  The functions of the C library end in `_f`.
-/

namespace Qslary.Hook

open Qslary.Foundation
open Qslary.Descriptors (FdContext FdContextManager Fd)

/-- File status flags, an `int`. -/
abbrev Status := BitVec 32

def O_NONBLOCK : Status := 0x800

def Status.nonblock (flags : Status) : Bool := flags &&& O_NONBLOCK != 0

def Status.others (flags : Status) : Status := flags &&& ~~~O_NONBLOCK

/--
The kernel's rules for `F_SETFL` apart from `O_NONBLOCK`: the flags it changes, and
whether it takes a request, by the flags held and those asked for.
-/
structure Rules where
  settable : Status
  taken : Int → Status → Status → Bool

/-- The flags after a request that is taken. -/
def Rules.change (rules : Rules) (held asked : Status) : Status :=
  (held &&& ~~~rules.settable) ||| (asked &&& rules.settable)

/-- The contexts with the kernel they see, and the status flags that are not `O_NONBLOCK`. -/
structure Process where
  manager : FdContextManager
  flags : Int → Status

namespace Process

/-- `FdMgr::getInstance()->getFdContext(fd)`: the object, and its number. -/
def context (p : Process) (fd : Fd) : Option (Nat × FdContext) :=
  (p.manager.contextOf fd.val).bind fun c => (p.manager.objects[c]?).map fun ctx => (c, ctx)

def store (p : Process) (c : Nat) (ctx : FdContext) : Process :=
  { p with manager := { p.manager with objects := p.manager.objects.set c ctx } }

def nonblock (p : Process) (fd : Fd) : Bool := p.manager.kernel.nonblock fd.val

def setNonblock (p : Process) (fd : Fd) (v : Bool) : Process :=
  { p with
    manager := { p.manager with
      kernel := { p.manager.kernel with
        nonblock := Function.update p.manager.kernel.nonblock fd.val v } } }

def isOpen (p : Process) (fd : Fd) : Bool := (p.manager.kernel.fstat fd.val).isSome

/-- `fcntl_f(fd, F_SETFL, arg)` -/
def setfl_f (rules : Rules) (p : Process) (fd : Fd) (arg : Status) : Process × Status :=
  if p.isOpen fd && rules.taken fd.val (p.flags fd.val).others arg.others then
    ({ p.setNonblock fd arg.nonblock with
        flags := Function.update p.flags fd.val (rules.change (p.flags fd.val) arg) }, 0)
  else (p, -1)

/-- `fcntl_f(fd, F_GETFL)` -/
def getfl_f (p : Process) (fd : Fd) : Status :=
  if p.isOpen fd then
    (p.flags fd.val).others ||| (if p.nonblock fd then O_NONBLOCK else 0)
  else -1

/-- `ioctl_f(fd, FIONBIO, &v)` -/
def fionbio_f (p : Process) (fd : Fd) (v : BitVec 32) : Process × Status :=
  if p.isOpen fd then (p.setNonblock fd (v != 0), 0) else (p, -1)

/-- `fcntl(fd, F_SETFL, arg)` -/
def setfl (rules : Rules) (p : Process) (fd : Fd) (arg : Status) : Process × Status :=
  match p.context fd with
  | none => p.setfl_f rules fd arg
  | some (c, ctx) =>
      if ctx.isClosed || !ctx.isSocket then p.setfl_f rules fd arg
      else
        let ctx := ctx.setUserNonBlock arg.nonblock
        let arg := if ctx.sysNonblock then arg ||| O_NONBLOCK else arg &&& ~~~O_NONBLOCK
        (p.store c ctx).setfl_f rules fd arg

/-- `fcntl(fd, F_GETFL)` -/
def getfl (p : Process) (fd : Fd) : Status :=
  let arg := p.getfl_f fd
  match p.context fd with
  | none => arg
  | some (_, ctx) =>
      if ctx.isClosed || !ctx.isSocket then arg
      else if ctx.userNonblock then arg ||| O_NONBLOCK
      else arg &&& ~~~O_NONBLOCK

/-- `ioctl(fd, FIONBIO, &v)` -/
def fionbio (p : Process) (fd : Fd) (v : BitVec 32) : Process × Status :=
  let userNonblock := v != 0
  match p.context fd with
  | none => p.fionbio_f fd v
  | some (c, ctx) =>
      if ctx.isClosed || !ctx.isSocket then p.fionbio_f fd v
      else (p.store c (ctx.setUserNonBlock userNonblock)).fionbio_f fd v

end Process

end Qslary.Hook

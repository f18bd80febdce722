import Qslary.Foundation.Block
import Qslary.Foundation.Transition

/-!
# Descriptor contexts

`FdContextManager` keeps a vector of shared pointers, indexed by the descriptor, and
makes a context the first time it is asked for.  A lookup holds the read lock, and what
creates a context holds the write lock; between the two sections of `getFdContext`
nothing is locked.
-/

namespace Qslary.Descriptors

open Qslary.Foundation

/-- What the kernel knows of the descriptors that are open: sockets, and `O_NONBLOCK`. -/
structure Kernel where
  fstat : Int → Option Bool
  nonblock : Int → Bool

def Kernel.setNonblock (kernel : Kernel) (fd : Int) : Kernel :=
  { kernel with nonblock := fun other => if other = fd then true else kernel.nonblock other }

def SO_RCVTIMEO : Nat := 20

structure FdContext where
  isInit : Bool
  isSocket : Bool
  sysNonblock : Bool
  userNonblock : Bool
  isClosed : Bool
  fd : Int
  recvTimeout : UInt64
  sendTimeout : UInt64
  deriving DecidableEq, Repr

namespace FdContext

def init (ctx : FdContext) (kernel : Kernel) : FdContext × Kernel :=
  if ctx.isInit then (ctx, kernel)
  else
    let isSocket := (kernel.fstat ctx.fd).getD false
    ({ ctx with
        isInit := (kernel.fstat ctx.fd).isSome, isSocket := isSocket, sysNonblock := isSocket,
        userNonblock := false, isClosed := false, recvTimeout := -1, sendTimeout := -1 },
      if isSocket && !kernel.nonblock ctx.fd then kernel.setNonblock ctx.fd else kernel)

def new (fd : Int) (kernel : Kernel) : FdContext × Kernel :=
  init ⟨false, false, false, false, false, fd, -1, -1⟩ kernel

def setUserNonBlock (ctx : FdContext) (v : Bool) : FdContext :=
  { ctx with userNonblock := v }

def setTimeout (ctx : FdContext) (type : Nat) (v : UInt64) : FdContext :=
  if type = SO_RCVTIMEO then { ctx with recvTimeout := v } else { ctx with sendTimeout := v }

def getTimeout (ctx : FdContext) (type : Nat) : UInt64 :=
  if type = SO_RCVTIMEO then ctx.recvTimeout else ctx.sendTimeout

end FdContext

inductive Fault where
  /-- `fds_[fd]` past the end -/
  | outOfBounds
  deriving DecidableEq, Repr

/-- A `FdContext::ptr` is the number of the object, in the order in which they are made. -/
abbrev Ptr := Option Nat

/-- The manager, the context objects made so far, and the kernel. -/
structure FdContextManager where
  fds : List Ptr
  objects : List FdContext
  kernel : Kernel

namespace FdContextManager

def new (kernel : Kernel) : FdContextManager := ⟨List.replicate 64 none, [], kernel⟩

/-- `(size_t)fd` -/
def sizeT (fd : Int) : Nat := (fd % 2 ^ 64).toNat

/-- What the manager has for a descriptor. -/
def contextOf (m : FdContextManager) (fd : Int) : Ptr :=
  if 0 ≤ fd then (m.fds[fd.toNat]?).join else none

/-- The section of `getFdContext` under the read lock; it may return already. -/
def lookup (m : FdContextManager) (fd : Int) (autoCreat : Bool) : Option Ptr :=
  if sizeT fd < m.fds.length then
    let found := (m.fds[sizeT fd]?).join
    if found.isSome || !autoCreat then some found else none
  else none

/-- The section of `getFdContext` under the write lock. -/
def create (m : FdContextManager) (fd : Int) : Except Fault (FdContextManager × Nat) :=
  -- `fd * 1.5` is exact in `double`.
  let fds := if m.fds.length ≤ sizeT fd then Block.resize m.fds (fd * 3 / 2).toNat none else m.fds
  let (ctx, kernel) := FdContext.new fd m.kernel
  if sizeT fd < fds.length then
    .ok (⟨fds.set (sizeT fd) (some m.objects.length), m.objects ++ [ctx], kernel⟩,
      m.objects.length)
  else .error .outOfBounds

def getFdContext (m : FdContextManager) (fd : Int) (autoCreat : Bool) :
    Except Fault (FdContextManager × Ptr) :=
  if fd = -1 then .ok (m, none)
  else
    match m.lookup fd autoCreat with
    | some found => .ok (m, found)
    | none =>
        if autoCreat then do
          let (m, ctx) ← m.create fd
          .ok (m, some ctx)
        else .ok (m, none)

def delFdContext (m : FdContextManager) (fd : Int) : Except Fault FdContextManager :=
  if m.fds.length < sizeT fd then .ok m
  else if sizeT fd < m.fds.length then .ok { m with fds := m.fds.set (sizeT fd) none }
  else .error .outOfBounds

end FdContextManager

end Qslary.Descriptors

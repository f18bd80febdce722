import Mathlib.Algebra.Order.Ring.Rat
import Mathlib.Tactic.Linarith
import Qslary.Foundation.OrderedSet
import Qslary.Foundation.Transition

/-!
# The timer manager

`Timer`, `TimerId` and `TimerManger` of `net/Timer.h` and `net/Timer.cc`.  Timers
are objects on an explicit heap, so that a freed address can be handed out again
and a stale pointer can be followed by mistake; following one is a fault, and so
is every failed `assert` of `insert`, `cancel` and `getExpired`.

An `Entry` is the `std::pair<Timestamp, Timer *>` that keys `timers_`, and an
`ActiveTimer` the `std::pair<Timer *, int64_t>` that keys the other two sets; both
compare lexicographically.  A `Timestamp` is its `microSecondsSinceEpoch_`.

`TimerManger::handleRead` is cut at its callback loop into `handleRead` (up to the
loop), `call` (one iteration) and `finish` (after the loop).  Whatever a callback
does to the manager happens as `addTimer` and `cancel` actions between two calls.
The timer descriptor itself is kept apart: `addTimer` and `reset` return the
timestamp they hand to `resetTimerfd`, if they call it.
-/

namespace Qslary.Timers

open Qslary.Foundation

abbrev Timestamp := Int

namespace Timestamp

def kMicroSecondsPerSecond : Int := 1000 * 1000

def invalid : Timestamp := 0

def valid (t : Timestamp) : Bool := decide (0 < t)

end Timestamp

/--
What the timer code uses of `double`: the literal `0`, the test `> 0.0`, and the
cast of `seconds * kMicroSecondsPerSecond` to an integer.
-/
class Seconds (D : Type) where
  zero : D
  isPositive : D → Bool
  toMicros : D → Int
  isPositive_zero : isPositive zero = false
  toMicros_nonneg : ∀ {d : D}, isPositive d = true → 0 ≤ toMicros d

instance : Seconds ℚ where
  zero := 0
  isPositive d := decide (0 < d)
  toMicros d :=
    (d.num * Timestamp.kMicroSecondsPerSecond).tdiv d.den
  isPositive_zero := by simp
  toMicros_nonneg := by
    intro d hd
    have hnum : 0 < d.num := Rat.num_pos.mpr (of_decide_eq_true hd)
    apply Int.tdiv_nonneg
    · exact mul_nonneg hnum.le (by decide)
    · exact Int.natCast_nonneg _

def addTime {D : Type} [Seconds D] (timestamp : Timestamp) (seconds : D) : Timestamp :=
  timestamp + Seconds.toMicros seconds

abbrev Addr := Nat

def uintptrMax : Addr := 2 ^ 64 - 1

structure Timer (C D : Type) where
  cb : C
  expiration : Timestamp
  interval : D
  recurring : Bool
  sequence : Nat
  deriving DecidableEq, Repr

structure TimerId where
  timer : Addr
  sequence : Nat
  deriving DecidableEq, Repr

abbrev ActiveTimer := TimerId

structure Entry where
  first : Timestamp
  second : Addr
  deriving DecidableEq, Repr

instance : LinearOrder TimerId :=
  LinearOrder.lift' (fun id => toLex (id.timer, id.sequence)) fun a b h => by
    cases a; cases b; simpa using h

instance : LinearOrder Entry :=
  LinearOrder.lift' (fun e => toLex (e.first, e.second)) fun a b h => by
    cases a; cases b; simpa using h

theorem Entry.lt_iff {a b : Entry} :
    a < b ↔ a.first < b.first ∨ a.first = b.first ∧ a.second < b.second :=
  Prod.Lex.toLex_lt_toLex

theorem Entry.le_iff {a b : Entry} :
    a ≤ b ↔ a.first < b.first ∨ a.first = b.first ∧ a.second ≤ b.second :=
  Prod.Lex.toLex_le_toLex

inductive Fault where
  | sizesDiffer
  | notInserted
  | notErased
  | notAfterNow
  | danglingTimer
  deriving DecidableEq, Repr

def check (condition : Bool) (fault : Fault) : Except Fault Unit :=
  if condition then .ok () else .error fault

structure TimerManger (C D : Type) where
  heap : Addr → Option (Timer C D)
  numCreated : Nat
  timers : OrderedSet Entry
  activeTimers : OrderedSet ActiveTimer
  callingExpiredTimers : Bool
  cancelingTimers : OrderedSet ActiveTimer

namespace Timer

variable {C D : Type} [Seconds D]

def new (cb : C) (expiration : Timestamp) (interval : D) (sequence : Nat) : Timer C D :=
  ⟨cb, expiration, interval, Seconds.isPositive interval, sequence⟩

def restart (timer : Timer C D) (now : Timestamp) : Timer C D :=
  if timer.recurring then
    { timer with expiration := addTime now timer.interval }
  else
    { timer with expiration := Timestamp.invalid }

@[simp] theorem restart_sequence (timer : Timer C D) (now : Timestamp) :
    (timer.restart now).sequence = timer.sequence := by
  unfold restart
  split <;> rfl

@[simp] theorem restart_interval (timer : Timer C D) (now : Timestamp) :
    (timer.restart now).interval = timer.interval := by
  unfold restart
  split <;> rfl

@[simp] theorem restart_recurring (timer : Timer C D) (now : Timestamp) :
    (timer.restart now).recurring = timer.recurring := by
  unfold restart
  split <;> rfl

theorem restart_of_recurring {timer : Timer C D} (h : timer.recurring = true)
    (now : Timestamp) :
    timer.restart now = { timer with expiration := addTime now timer.interval } := by
  simp [restart, h]

end Timer

namespace TimerManger

variable {C D : Type}

def initial : TimerManger C D :=
  ⟨fun _ => none, 0, .empty, .empty, false, .empty⟩

def assertSizes (m : TimerManger C D) : Except Fault Unit :=
  check (m.timers.size == m.activeTimers.size) .sizesDiffer

def deref (m : TimerManger C D) (p : Addr) : Except Fault (Timer C D) :=
  match m.heap p with
  | some timer => .ok timer
  | none => .error .danglingTimer

def free (m : TimerManger C D) (p : Addr) : TimerManger C D :=
  { m with heap := Function.update m.heap p none }

def store (m : TimerManger C D) (p : Addr) (timer : Timer C D) : TimerManger C D :=
  { m with heap := Function.update m.heap p (some timer) }

def earliestChanged (m : TimerManger C D) (expiration : Timestamp) : Bool :=
  match m.timers.front? with
  | none => true
  | some entry => decide (expiration < entry.first)

def insert (m : TimerManger C D) (p : Addr) : Except Fault (TimerManger C D × Bool) := do
  m.assertSizes
  let timer ← m.deref p
  let earliestChanged := m.earliestChanged timer.expiration
  let entry : Entry := ⟨timer.expiration, p⟩
  check (decide (entry ∉ m.timers)) .notInserted
  let m := { m with timers := m.timers.insert entry }
  let active : ActiveTimer := ⟨p, timer.sequence⟩
  check (decide (active ∉ m.activeTimers)) .notInserted
  let m := { m with activeTimers := m.activeTimers.insert active }
  m.assertSizes
  return (m, earliestChanged)

def addTimer [Seconds D] (m : TimerManger C D) (p : Addr) (cb : C) (expiration : Timestamp)
    (interval : D) : Except Fault (TimerManger C D × TimerId × Option Timestamp) := do
  let sequence := m.numCreated + 1
  let timer := Timer.new cb expiration interval sequence
  let m := { m.store p timer with numCreated := sequence }
  let (m, earliestChanged) ← m.insert p
  return (m, ⟨p, sequence⟩, if earliestChanged then some expiration else none)

def cancel (m : TimerManger C D) (timerId : TimerId) : Except Fault (TimerManger C D) := do
  m.assertSizes
  let m ←
    if timerId ∈ m.activeTimers then do
      let timer ← m.deref timerId.timer
      let entry : Entry := ⟨timer.expiration, timerId.timer⟩
      check (decide (entry ∈ m.timers)) .notErased
      let m := { m with timers := m.timers.erase entry }
      let m := m.free timerId.timer
      pure { m with activeTimers := m.activeTimers.erase timerId }
    else if m.callingExpiredTimers then
      pure { m with cancelingTimers := m.cancelingTimers.insert timerId }
    else
      pure m
  m.assertSizes
  return m

/-- The loop of `getExpired` that takes the expired timers out of `activeTimers_`. -/
def eraseActive : TimerManger C D → List Entry → Except Fault (TimerManger C D)
  | m, [] => pure m
  | m, entry :: rest => do
      let timer ← m.deref entry.second
      let active : ActiveTimer := ⟨entry.second, timer.sequence⟩
      check (decide (active ∈ m.activeTimers)) .notErased
      eraseActive { m with activeTimers := m.activeTimers.erase active } rest

def getExpired (m : TimerManger C D) (now : Timestamp) :
    Except Fault (TimerManger C D × List Entry) := do
  m.assertSizes
  let sentry : Entry := ⟨now, uintptrMax⟩
  let fromEnd := m.timers.notBelow sentry
  check (match fromEnd.front? with
    | none => true
    | some entry => decide (now < entry.first)) .notAfterNow
  let expired := (m.timers.below sentry).toList
  let m ← eraseActive { m with timers := fromEnd } expired
  m.assertSizes
  return (m, expired)

/-- The loop of `reset`: recurring timers go back in, the others are deleted. -/
def requeue [Seconds D] (now : Timestamp) :
    TimerManger C D → List Entry → Except Fault (TimerManger C D)
  | m, [] => pure m
  | m, entry :: rest => do
      let timer ← m.deref entry.second
      if timer.recurring ∧ (⟨entry.second, timer.sequence⟩ : ActiveTimer) ∉ m.cancelingTimers then
        let (m, _) ← (m.store entry.second (timer.restart now)).insert entry.second
        requeue now m rest
      else
        requeue now (m.free entry.second) rest

def reset [Seconds D] (m : TimerManger C D) (expired : List Entry) (now : Timestamp) :
    Except Fault (TimerManger C D × Option Timestamp) := do
  let m ← m.requeue now expired
  let nextExpire ←
    match m.timers.front? with
    | none => pure Timestamp.invalid
    | some entry => (m.deref entry.second).map Timer.expiration
  return (m, if Timestamp.valid nextExpire then some nextExpire else none)

end TimerManger

/-! ## Whole runs -/

/-- The locals of a `handleRead` that is running its callbacks. -/
structure Batch where
  now : Timestamp
  expired : List Entry
  rest : List Entry
  deriving DecidableEq, Repr

structure Call (C D : Type) where
  entry : Entry
  timer : Timer C D
  deriving DecidableEq, Repr

structure System (C D : Type) where
  manger : TimerManger C D
  batch : Option Batch
  calls : List (Call C D)

inductive Action (C D : Type) where
  | addTimer (p : Addr) (cb : C) (expiration : Timestamp) (interval : D)
  | cancel (timerId : TimerId)
  | handleRead (now : Timestamp)
  | call (sequence : Nat)
  | finish
  deriving DecidableEq, Repr

namespace Action

variable {C D : Type} [Seconds D]

def runAt (p : Addr) (time : Timestamp) (cb : C) : Action C D :=
  .addTimer p cb time Seconds.zero

def runAfter (p : Addr) (now : Timestamp) (delay : D) (cb : C) : Action C D :=
  .addTimer p cb (addTime now delay) Seconds.zero

def runEvery (p : Addr) (now : Timestamp) (interval : D) (cb : C) : Action C D :=
  .addTimer p cb (addTime now interval) interval

end Action

namespace System

variable {C D : Type}

def initial : System C D := ⟨.initial, none, []⟩

def outside (s : System C D) : List Entry :=
  match s.batch with
  | none => []
  | some b => b.expired

/--
What the environment promises: `new` returns an address that is not in use and is
not `UINTPTR_MAX`, `handleRead` is not re-entered, and the callback loop runs in
order and to its end.
-/
def guard (s : System C D) : Action C D → Bool
  | .addTimer p _ _ _ => (s.manger.heap p).isNone && decide (p < uintptrMax)
  | .cancel _ => true
  | .handleRead _ => s.batch.isNone
  | .call sequence =>
      match s.batch with
      | some ⟨_, _, entry :: _⟩ =>
          (s.manger.heap entry.second).all fun timer => timer.sequence == sequence
      | _ => false
  | .finish =>
      match s.batch with
      | some ⟨_, _, []⟩ => true
      | _ => false

def perform [Seconds D] (s : System C D) :
    Action C D → Except Fault (System C D × Option Timestamp)
  | .addTimer p cb expiration interval => do
      let (m, _, armed) ← s.manger.addTimer p cb expiration interval
      return ({ s with manger := m }, armed)
  | .cancel timerId => do
      let m ← s.manger.cancel timerId
      return ({ s with manger := m }, none)
  | .handleRead now => do
      let (m, expired) ← s.manger.getExpired now
      let m := { m with callingExpiredTimers := true, cancelingTimers := .empty }
      return ({ s with manger := m, batch := some ⟨now, expired, expired⟩ }, none)
  | .call _ =>
      match s.batch with
      | some ⟨now, expired, entry :: rest⟩ => do
          let timer ← s.manger.deref entry.second
          return ({ s with
            batch := some ⟨now, expired, rest⟩
            calls := s.calls ++ [⟨entry, timer⟩] }, none)
      | _ => return (s, none)
  | .finish =>
      match s.batch with
      | some b => do
          let m := { s.manger with callingExpiredTimers := false }
          let (m, armed) ← m.reset b.expired b.now
          return ({ s with manger := m, batch := none }, armed)
      | none => return (s, none)

end System

def machine (C D : Type) [Seconds D] : Machine (System C D) (Action C D) Fault where
  guard := System.guard
  exec s a := (s.perform a).map Prod.fst

end Qslary.Timers

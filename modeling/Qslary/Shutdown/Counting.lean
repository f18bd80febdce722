import Mathlib.Data.Finset.Card
import Qslary.Shutdown.Model

/-!
# The count of pending events

Nothing ever adds to `pendingEventCount_`, and `ProcessFdEvent` takes away the number of
sides that `TriggerEvent` has called.  From the constructor on the count is therefore right
only while nothing has been triggered, and then it is right for no more than an empty set
of pairs; the first trigger takes it below zero.  `IsClean()` passes a timeout of `0` to
the test for `~0ull`, so that it is false in every state.
-/

namespace Qslary.Shutdown

open Qslary.Foundation
open Qslary.Events (Callback Direction EventMask FdCallback concerned widened)
open Qslary.Timers (Seconds)

variable {n : Nat} {C D : Type}

namespace IOManager

/-- Stop was requested, no fiber is pending, no worker is active and no timer is waiting. -/
def Quiescent (m : IOManager n C D) : Prop :=
  (m.scheduler.autoStop = true ∧ m.scheduler.clean = true) ∧
    m.scheduler.pendingFunctors = [] ∧ m.scheduler.activeThreadCount = 0 ∧
    m.timers.manger.timers.front? = none

instance (m : IOManager n C D) : Decidable m.Quiescent := inferInstanceAs (Decidable (_ ∧ _))

/-- The count and the answer of `IsClean()` are right. -/
structure Exact (m : IOManager n C D) : Prop where
  counts : m.registry.pendingEventCount.toNat = m.awaited.card
  isClean_iff : m.IsClean = true ↔ m.Quiescent ∧ m.registry.pendingEventCount = 0

def CountsNothing (m : IOManager n C D) : Prop := m.registry.pendingEventCount = 0

/-- Only an `Add` may raise the count: elsewhere a higher count has wrapped. -/
def NoWrap (m : IOManager n C D) : Action n C D → IOManager n C D → Prop
  | .add _ _ _, _ => True
  | _, m' => m'.registry.pendingEventCount ≤ m.registry.pendingEventCount

/-- A report finds no side to trigger: reading is not registered, or no event is of use. -/
def Untriggered (m : IOManager n C D) : Action n C D → Prop
  | .deliver _ fd events =>
      fd = m.registry.mWakeupFd ∨ concerned (m.registry.mFdGroups fd) .read = false ∨
        events &&& (Direction.read.events ||| Direction.write.events) = 0
  | _ => True

instance (m : IOManager n C D) : ∀ action, Decidable (m.Untriggered action)
  | .deliver _ _ _ => inferInstanceAs (Decidable (_ ∨ _))
  | .add _ _ _ => isTrue trivial
  | .cancel _ _ => isTrue trivial
  | .scheduler _ => isTrue trivial
  | .timers _ => isTrue trivial

end IOManager

/-! ## What a step does to the registry -/

namespace IOManager

/-- The registry and the pairs that wait after an action. -/
inductive Moves (m : IOManager n C D) :
    Action n C D → Events.IOManager C → Finset (Int × Direction) → Prop
  | add (d : Direction) (fd : Int) (cb : Callback C) :
      Moves m (.add d fd cb) (m.registry.AddEvent d fd cb).1 (insert (fd, d) m.awaited)
  | cancel (d : Direction) (fd : Int) :
      Moves m (.cancel d fd) (m.registry.CancelEvent d fd).1 (m.awaited.erase (fd, d))
  | wakeup {w : Fin n} {fd : Int} {events : EventMask} (hfd : fd = m.registry.mWakeupFd) :
      Moves m (.deliver w fd events) m.registry m.awaited
  | report {w : Fin n} {fd : Int} {events : EventMask} {f : FdCallback C}
      (hfd : fd ≠ m.registry.mWakeupFd) (hentry : m.registry.mFdGroups fd = some f) :
      Moves m (.deliver w fd events)
        { m.registry with
          pendingEventCount := m.registry.pendingEventCount -
            UInt64.ofNat (f.TriggerEvent (widened events)).2 }
        (m.awaited.filter fun pair => !triggered m.registry fd events pair)
  | scheduler (action : Scheduler.Action n C) : Moves m (.scheduler action) m.registry m.awaited
  | timers (action : Timers.Action C D) : Moves m (.timers action) m.registry m.awaited

theorem moves_of_deliver {m m' : IOManager n C D} {w : Fin n} {fd : Int} {events : EventMask}
    (h : m.deliver w fd events = .ok m') :
    m.Moves (.deliver w fd events) m'.registry m'.awaited := by
  unfold deliver at h
  split at h
  · rename_i hfd
    cases h
    exact .wakeup hfd
  · rename_i hfd
    cases hentry : m.registry.mFdGroups fd with
    | none =>
        simp only [Events.IOManager.ProcessFdEvent, hentry] at h
        cases h
    | some f =>
        simp only [Events.IOManager.ProcessFdEvent, hentry] at h
        cases h
        exact .report hfd hentry

theorem moves_of_step [Seconds D] {m m' : IOManager n C D} {action : Action n C D}
    (h : (machine n C D).step m action = some m') : m.Moves action m'.registry m'.awaited := by
  have hexec := ((machine n C D).step_eq_some_iff.mp h).2
  cases action with
  | add d fd cb =>
      cases hexec
      exact .add d fd cb
  | cancel d fd =>
      cases hexec
      exact .cancel d fd
  | deliver w fd events => exact moves_of_deliver hexec
  | scheduler action =>
      obtain ⟨scheduler, -, hret⟩ := bind_eq_ok.mp hexec
      cases hret
      exact .scheduler action
  | timers action =>
      obtain ⟨timers, -, hret⟩ := bind_eq_ok.mp hexec
      cases hret
      exact .timers action

end IOManager

/-! ## What a step takes from the count -/

theorem triggerEvent_number (f : FdCallback C) (events : EventMask) :
    (f.TriggerEvent events).2 =
      (triggers f events .read).toNat + (triggers f events .write).toNat := by
  have hin : triggers f events .read = (f.concernRead && events &&& Events.EPOLLIN != 0) := rfl
  have hout : triggers f events .write = (f.concernRead && events &&& Events.EPOLLOUT != 0) := rfl
  unfold FdCallback.TriggerEvent
  rw [hin, hout]
  cases (f.concernRead && events &&& Events.EPOLLIN != 0) <;>
    cases (f.concernRead && events &&& Events.EPOLLOUT != 0) <;> rfl

/-- How many sides the action triggers. -/
def number (m : IOManager n C D) : Action n C D → Nat
  | .deliver _ fd events =>
      if fd = m.registry.mWakeupFd then 0
      else
        match m.registry.mFdGroups fd with
        | none => 0
        | some f => (f.TriggerEvent (widened events)).2
  | _ => 0

namespace IOManager

variable {m m' : IOManager n C D} {action : Action n C D}

theorem number_le (m : IOManager n C D) (action : Action n C D) : number m action ≤ 2 := by
  cases action with
  | deliver w fd events =>
      simp only [number]
      split
      · omega
      · cases m.registry.mFdGroups fd with
        | none => exact Nat.zero_le _
        | some f =>
            have hread := Bool.toNat_le (triggers f (widened events) .read)
            have hwrite := Bool.toNat_le (triggers f (widened events) .write)
            simp only [triggerEvent_number]
            omega
  | add d fd cb => exact Nat.zero_le _
  | cancel d fd => exact Nat.zero_le _
  | scheduler action => exact Nat.zero_le _
  | timers action => exact Nat.zero_le _

theorem number_eq_zero_iff : number m action = 0 ↔ m.Untriggered action := by
  cases action with
  | deliver w fd events =>
      simp only [number, Untriggered]
      split
      · rename_i hfd
        simp [hfd]
      · rename_i hfd
        cases hentry : m.registry.mFdGroups fd with
        | none => simp [concerned]
        | some f =>
            have hmask := BitVec.and_or_distrib_left (x := events)
              (y := Direction.read.events) (z := Direction.write.events)
            have hin := Events.widened_and_event events .read
            have hout := Events.widened_and_event events .write
            simp only [triggerEvent_number, triggers, hin, hout, hmask, hfd, concerned,
              FdCallback.concern, false_or]
            cases f.concernRead <;> simp
  | add d fd cb => simp [number, Untriggered]
  | cancel d fd => simp [number, Untriggered]
  | scheduler action => simp [number, Untriggered]
  | timers action => simp [number, Untriggered]

/-- No step adds to the count, and a report takes away the sides it triggers. -/
theorem count_of_moves {registry : Events.IOManager C} {awaited : Finset (Int × Direction)}
    (h : m.Moves action registry awaited) :
    registry.pendingEventCount =
      m.registry.pendingEventCount - UInt64.ofNat (number m action) := by
  cases h with
  | add d fd cb => simp [number, Events.IOManager.addEvent_count]
  | cancel d fd => simp [number, Events.IOManager.cancelEvent_count]
  | wakeup hfd => simp [number, hfd]
  | report hfd hentry => simp [number, hfd, hentry]
  | scheduler action => simp [number]
  | timers action => simp [number]

theorem wraps_iff {number : Nat} (hlt : number < 2 ^ 64) :
    (0 : UInt64) - UInt64.ofNat number ≤ 0 ↔ number = 0 := by
  rw [UInt64.le_iff_toNat_le, UInt64.toNat_sub, UInt64.toNat_ofNat_of_lt' hlt]
  simp only [UInt64.toNat_zero]
  omega

theorem isClean_eq (m : IOManager n C D) : m.IsClean = false := by
  have htimeout : ((0 : UInt64) == ~~~0) = false := by decide
  simp only [IsClean, IsCleanTimeout, htimeout, Bool.false_and]

/-- With a count of zero. -/
theorem exact_iff (hcount : m.CountsNothing) : m.Exact ↔ m.awaited = ∅ ∧ ¬m.Quiescent := by
  unfold CountsNothing at hcount
  constructor
  · intro h
    have hcard := h.counts
    have hclean := h.isClean_iff
    rw [hcount, UInt64.toNat_zero] at hcard
    rw [isClean_eq, hcount] at hclean
    refine ⟨Finset.card_eq_zero.mp hcard.symm, fun hquiet => ?_⟩
    exact Bool.false_ne_true (hclean.mpr ⟨hquiet, rfl⟩)
  · rintro ⟨hempty, hbusy⟩
    refine ⟨?_, ?_⟩
    · rw [hcount, hempty]
      rfl
    · rw [isClean_eq, hcount]
      exact iff_of_false Bool.false_ne_true fun h => hbusy h.1

section Constructed

variable (opened : Int → Bool) (mWakeupFd timerfd : Int) (handleRead : Callback C)

theorem constructed_countsNothing :
    (constructed opened mWakeupFd timerfd handleRead : IOManager n C D).CountsNothing := by
  simp only [CountsNothing, constructed, Events.IOManager.constructed, Events.IOManager.AddReadEvent,
    Events.IOManager.addEvent_count]

end Constructed

/-! ## Steps and runs -/

variable [Seconds D]

/-- From a count of zero a step wraps if it triggers anything. -/
theorem noWrap_iff (hcount : m.CountsNothing) (h : (machine n C D).step m action = some m') :
    m.NoWrap action m' ↔ m.Untriggered action := by
  have hafter := count_of_moves (moves_of_step h)
  have hle := number_le m action
  unfold CountsNothing at hcount
  have hwrap : m'.registry.pendingEventCount ≤ m.registry.pendingEventCount ↔
      m.Untriggered action := by
    rw [← number_eq_zero_iff, hafter, hcount]
    exact wraps_iff (by omega)
  cases action with
  | add d fd cb => exact iff_of_true trivial trivial
  | cancel d fd => exact hwrap
  | deliver w fd events => exact hwrap
  | scheduler action => exact hwrap
  | timers action => exact hwrap

theorem countsNothing_of_step (hcount : m.CountsNothing)
    (huntriggered : m.Untriggered action) (h : (machine n C D).step m action = some m') :
    m'.CountsNothing := by
  have hafter := count_of_moves (moves_of_step h)
  unfold CountsNothing at hcount
  rw [number_eq_zero_iff.mpr huntriggered, hcount] at hafter
  exact hafter

end IOManager

/--
In the last state of a run of a manager the count is right, has never wrapped, and
`IsClean()` is right, if and only if the run has triggered nothing, no pair is registered
and the manager is not quiescent.
-/
theorem pending_events_counted_iff [Seconds D] (opened : Int → Bool) (mWakeupFd timerfd : Int)
    (handleRead : Callback C) (actions : List (Action n C D)) (m : IOManager n C D)
    (hrun : (machine n C D).run (.constructed opened mWakeupFd timerfd handleRead) actions =
      some m) :
    (machine n C D).Always IOManager.NoWrap (.constructed opened mWakeupFd timerfd handleRead)
        actions ∧ m.Exact ↔
      (machine n C D).Meets IOManager.Untriggered
        (.constructed opened mWakeupFd timerfd handleRead) actions ∧
      m.awaited = ∅ ∧ ¬m.Quiescent := by
  have hstart : (IOManager.constructed opened mWakeupFd timerfd handleRead :
      IOManager n C D).CountsNothing :=
    IOManager.constructed_countsNothing opened mWakeupFd timerfd handleRead
  rw [Machine.always_iff_meets_of_run IOManager.noWrap_iff IOManager.countsNothing_of_step hstart
    hrun]
  apply and_congr_right
  intro hmeets
  apply IOManager.exact_iff
  exact Machine.invariant_of_meets IOManager.countsNothing_of_step hstart hmeets hrun

/-- Worker `0` from its first scan to `epoll_wait`. -/
def waits : List (Action 1 Nat ℚ) :=
  List.replicate 4 (.scheduler (.advance 0))

/-- A registration is cancelled before its report comes, and that of the timers as well. -/
def cancelled : List (Action 1 Nat ℚ) :=
  waits ++ [.add .write 5 (some 2), .cancel .write 5, .deliver 0 5 Events.EPOLLIN,
    .cancel .read 4]

abbrev sample : IOManager 1 Nat ℚ := .constructed (fun _ => true) 3 4 (some 1)

theorem pending_events_counted_cancelled :
    ∃ m, (machine 1 Nat ℚ).run sample cancelled = some m ∧
      (machine 1 Nat ℚ).Always IOManager.NoWrap sample cancelled ∧ m.Exact := by
  have hrun : ((machine 1 Nat ℚ).run sample cancelled).any
      (fun m => decide (m.awaited = ∅ ∧ ¬m.Quiescent)) = true := by decide
  cases hm : (machine 1 Nat ℚ).run sample cancelled with
  | none =>
      rw [hm] at hrun
      cases hrun
  | some m =>
      rw [hm] at hrun
      have hcond := of_decide_eq_true hrun
      have hmeets : (machine 1 Nat ℚ).Meets IOManager.Untriggered sample cancelled := by decide
      exact ⟨m, rfl, (pending_events_counted_iff (fun _ => true) 3 4 (some 1) cancelled m hm).mpr
        ⟨hmeets, hcond⟩⟩

/-- The first timer expires: its report is taken from a count that never rose. -/
def expired : List (Action 1 Nat ℚ) :=
  waits ++ [.deliver 0 4 Events.EPOLLIN]

/-- Stop is requested with nothing left to wait for. -/
def stopped : List (Action 1 Nat ℚ) :=
  [.cancel .read 4, .scheduler .stop, .scheduler .stopClean]

theorem pending_events_wrap :
    (∃ m, (machine 1 Nat ℚ).run sample expired = some m ∧ m.awaited = ∅ ∧
      m.registry.pendingEventCount = 0xffffffffffffffff ∧
      ¬((machine 1 Nat ℚ).Always IOManager.NoWrap sample expired ∧ m.Exact)) ∧
    ∃ m, (machine 1 Nat ℚ).run sample stopped = some m ∧ m.awaited = ∅ ∧
      m.registry.pendingEventCount = 0 ∧ m.Quiescent ∧ m.IsClean = false ∧ ¬m.Exact := by
  have hexpired : ((machine 1 Nat ℚ).run sample expired).any (fun m => decide (m.awaited = ∅ ∧
      m.registry.pendingEventCount = 0xffffffffffffffff)) = true := by decide
  have hstopped : ((machine 1 Nat ℚ).run sample stopped).any (fun m => decide (m.awaited = ∅ ∧
      m.registry.pendingEventCount = 0 ∧ m.Quiescent)) = true := by decide
  constructor
  · cases hm : (machine 1 Nat ℚ).run sample expired with
    | none =>
        rw [hm] at hexpired
        cases hexpired
    | some m =>
        rw [hm] at hexpired
        obtain ⟨hempty, hcount⟩ := of_decide_eq_true hexpired
        refine ⟨m, rfl, hempty, hcount, fun h => ?_⟩
        have hcard := h.2.counts
        rw [hcount, hempty] at hcard
        exact absurd hcard (by decide)
  · cases hm : (machine 1 Nat ℚ).run sample stopped with
    | none =>
        rw [hm] at hstopped
        cases hstopped
    | some m =>
        rw [hm] at hstopped
        obtain ⟨hempty, hcount, hquiet⟩ := of_decide_eq_true hstopped
        have hclean := IOManager.isClean_eq m
        refine ⟨m, rfl, hempty, hcount, hquiet, hclean, fun h => ?_⟩
        have htrue := h.isClean_iff.mpr ⟨hquiet, hcount⟩
        rw [hclean] at htrue
        cases htrue

end Qslary.Shutdown

import Qslary.Events.Dispatch
import Qslary.Hook.Blocking
import Qslary.Hook.Waiting

/-!
# Reading and writing as the blocking call would

`do_io` asks again after `EINTR`.  After `EAGAIN` it registers an empty callback, so that
nothing schedules the fiber when the descriptor is ready, and a fiber that is resumed all
the same returns the failure it was held for.
-/

namespace Qslary.Hook

open Qslary.Descriptors (FdContext Fd)
open Qslary.Events (Direction Callback IOManager)

inductive Retry where
  | eintr
  | eagain
  deriving DecidableEq, Repr

def Retry.answer : Retry → Answer
  | .eintr => ⟨-1, EINTR⟩
  | .eagain => ⟨-1, EAGAIN⟩

variable {C : Type}

/-- Delivering the awaited event schedules a function that wakes the fiber. -/
def Rescheduled (wakes : C → Prop) (d : Direction) (fd : Fd) (t : Thread C) : Prop :=
  ∃ m scheduled c, t.iomanager.ProcessFdEvent fd.val d.event = .ok (m, scheduled) ∧
    some c ∈ scheduled ∧ wakes c

/-- Held once for each `EAGAIN` until the event comes, and then returning the last answer. -/
def BehavesBlocking (wakes : C → Prop) (fd : Fd) (fun_ : OriginFun) (retries : List Retry)
    (last : Answer) : Coroutine (Thread C) → Prop :=
  Coroutine.Holds (Rescheduled wakes fun_.event fd)
    (fun t n => n = last.n ∧ t.errno = last.errno) (retries.count .eagain)

/-- A socket of a hooking thread that is to block, as the user sees it. -/
structure UserBlocking (t : Thread C) (fd : Fd) (fdctx : FdContext) : Prop where
  hooked : t.threadHookEnable = true
  context : ∃ c, t.process.context fd = some (c, fdctx)
  isOpen : fdctx.isClosed = false
  isSocket : fdctx.isSocket = true
  blocking : fdctx.userNonblock = false

section

variable {t : Thread C} {fd : Fd} {fdctx : FdContext}

theorem doIo_eq (h : UserBlocking t fd fdctx) (fun_ : OriginFun) (answers : Answers) :
    t.doIo fd fun_ answers =
      if answers.uninterrupted.failed EAGAIN then
        let armed := t.runAfter ((fdctx.getTimeout fun_.timeoutSo).toNat : ℚ)
          (.cancelEvent fun_.event fd.val)
        .held { armed.1 with iomanager := (t.iomanager.AddEvent fun_.event fd.val none).1 }
          fun t => .returned (t.cancel armed.2) answers.uninterrupted.n
      else t.answer answers.uninterrupted := by
  obtain ⟨c, hcontext⟩ := h.context
  unfold Thread.doIo
  rw [h.hooked, hcontext]
  simp only [h.isOpen, h.isSocket, h.blocking]
  rfl

/-- The awaited event is for one side of the entry only. -/
theorem scheduled_event (f : Events.FdCallback C) (d : Direction) :
    (f.TriggerEvent (Events.widened d.event)).1 = if f.concernRead then [f.callback d] else [] := by
  rw [Events.triggerEvent_scheduled]
  cases d with
  | read =>
      have hin : (Events.widened Direction.read.event &&& Events.EPOLLIN != 0) = true := by decide
      have hout : (Events.widened Direction.read.event &&& Events.EPOLLOUT != 0) = false := by
        decide
      rw [hin, hout]
      cases f.concernRead <;> rfl
  | write =>
      have hin : (Events.widened Direction.write.event &&& Events.EPOLLIN != 0) = false := by
        decide
      have hout : (Events.widened Direction.write.event &&& Events.EPOLLOUT != 0) = true := by
        decide
      rw [hin, hout]
      cases f.concernRead <;> rfl

/-- A side without a callback schedules nothing that could wake a fiber. -/
theorem not_rescheduled (wakes : C → Prop) {d : Direction} {m : IOManager C}
    (hregistered : t.iomanager = (m.AddEvent d fd.val none).1) : ¬ Rescheduled wakes d fd t := by
  rintro ⟨after, scheduled, c, hprocess, hmem, -⟩
  have hentry : t.iomanager.mFdGroups fd.val =
      some (((m.mFdGroups fd.val).getD {}).register none d) := by
    rw [hregistered, Events.IOManager.addEvent_groups, Function.update_self]
  obtain ⟨after', heq⟩ := Events.processFdEvent_eq hentry d.event
  rw [hprocess, scheduled_event] at heq
  cases heq
  split at hmem
  · rw [List.mem_singleton] at hmem
    cases d <;> cases hmem
  · cases hmem

theorem find?_retries (retries : List Retry) :
    (retries.map Retry.answer).find? (fun n => !n.failed EINTR) =
      if .eagain ∈ retries then some ⟨-1, EAGAIN⟩ else none := by
  induction retries with
  | nil => rfl
  | cons retry retries ih =>
      cases retry with
      | eintr => simpa [Retry.answer, Answer.failed, EINTR] using ih
      | eagain => simp [Retry.answer, Answer.failed, EINTR, EAGAIN]

end

/-- The answers of a call that is to be tried again some times. -/
def retrying (retries : List Retry) (last : Answer)
    (final : last.failed EINTR = false ∧ last.failed EAGAIN = false) : Answers :=
  ⟨retries.map Retry.answer, last, final⟩

/-- The answer is the one of the blocking call only if no `EAGAIN` comes before it. -/
theorem do_io_blocking_iff (wakes : C → Prop) {t : Thread C} {fd : Fd} {fdctx : FdContext}
    (h : UserBlocking t fd fdctx) (fun_ : OriginFun) (retries : List Retry) {last : Answer}
    (final : last.failed EINTR = false ∧ last.failed EAGAIN = false) :
    BehavesBlocking wakes fd fun_ retries last (t.doIo fd fun_ (retrying retries last final)) ↔
      .eagain ∉ retries := by
  have huninterrupted : (retrying retries last final).uninterrupted =
      if .eagain ∈ retries then ⟨-1, EAGAIN⟩ else last := by
    rw [Answers.uninterrupted, retrying, find?_retries]
    split
    · rfl
    · rfl
  rw [doIo_eq h, huninterrupted]
  by_cases hmem : .eagain ∈ retries
  · have hcount : retries.count .eagain ≠ 0 := fun hzero => List.count_eq_zero.mp hzero hmem
    obtain ⟨k, hk⟩ := Nat.exists_eq_succ_of_ne_zero hcount
    have hfailed : (⟨-1, EAGAIN⟩ : Answer).failed EAGAIN = true := by decide
    rw [if_pos hmem, if_pos hfailed, BehavesBlocking, hk]
    constructor
    · rintro ⟨hrescheduled, -⟩
      exact absurd hrescheduled (not_rescheduled wakes rfl)
    · intro hnot
      exact absurd hmem hnot
  · rw [if_neg hmem, final.2, BehavesBlocking, List.count_eq_zero.mpr hmem]
    exact ⟨fun _ => hmem, fun _ => ⟨rfl, rfl⟩⟩

/-- A thread with one socket, which has just got its context. -/
def listening : Thread Nat where
  threadHookEnable := true
  process :=
    { manager :=
        { fds := (List.replicate 64 none).set 5 (some 0)
          objects := [(FdContext.new listener.val sockets).1]
          kernel := (FdContext.new listener.val sockets).2 }
      flags := fun _ => 2 }
  iomanager := .constructed (fun fd => fd = 5) 4 3 none
  timers := []
  numCreated := 0
  fiber := 7
  errno := 0

theorem listening_blocking :
    UserBlocking listening listener (FdContext.new listener.val sockets).1 :=
  ⟨rfl, ⟨0, rfl⟩, rfl, rfl, rfl⟩

theorem do_io_interrupted :
    BehavesBlocking (fun c => c = 7) listener .read [.eintr, .eintr] ⟨3, 0⟩
      (listening.doIo listener .read (retrying [.eintr, .eintr] ⟨3, 0⟩ (by decide))) ↔
      Retry.eagain ∉ [Retry.eintr, Retry.eintr] :=
  do_io_blocking_iff _ listening_blocking .read [.eintr, .eintr] (by decide)

/-- After one `EAGAIN` nothing ever schedules the fiber. -/
theorem do_io_hangs :
    ¬ BehavesBlocking (fun _ => True) listener .read [.eagain] ⟨3, 0⟩
      (listening.doIo listener .read (retrying [.eagain] ⟨3, 0⟩ (by decide))) := by
  rw [doIo_eq listening_blocking]
  rintro ⟨hrescheduled, -⟩
  exact not_rescheduled _ rfl hrescheduled

end Qslary.Hook

import Qslary.Timers.Runs

/-!
# Arming the timer descriptor

The descriptor is idle, armed with a deadline, or expired and unread.
`resetTimerfd` replaces the deadline and drops an unread expiration; reading an
expiration leaves the descriptor idle, and reading anything else trips the assert of
`readTimerfd`.  `t` is what `Timestamp::now` returns inside `howMuchTimeFromNow`.

The descriptor is armed by `addTimer` when the earliest expiration changed and at the
end of `reset`, which leaves it alone when the earliest expiration is not `valid()`.
-/

namespace Qslary.Timers

open Qslary.Foundation

variable {C D : Type} [Seconds D]

inductive Timerfd where
  | idle
  | armed (deadline armedAt : Timestamp)
  | expired
  deriving DecidableEq, Repr

structure Timespec where
  tv_sec : Int
  tv_nsec : Int
  deriving DecidableEq, Repr

def howMuchTimeFromNow (expiration t : Timestamp) : Timespec :=
  let microseconds := expiration - t
  let microseconds := if microseconds < 100 then 100 else microseconds
  ⟨microseconds.tdiv Timestamp.kMicroSecondsPerSecond,
    microseconds.tmod Timestamp.kMicroSecondsPerSecond * 1000⟩

namespace Timerfd

/-- `timerfd_settime` with a relative one-shot value; a zero value disarms. -/
def settime (t : Timestamp) (value : Timespec) : Timerfd :=
  if value = ⟨0, 0⟩ then .idle
  else .armed
    (t + value.tv_sec * Timestamp.kMicroSecondsPerSecond + value.tv_nsec.tdiv 1000) t

def resetTimerfd (expiration t : Timestamp) : Timerfd :=
  settime t (howMuchTimeFromNow expiration t)

/-- `none` is the failed assert. -/
def readTimerfd : Timerfd → Option Timerfd
  | .expired => some .idle
  | _ => none

theorem resetTimerfd_eq (expiration t : Timestamp) :
    resetTimerfd expiration t = .armed (max expiration (t + 100)) t := by
  obtain ⟨micros, hmicros, hpos⟩ : ∃ micros : Int,
      micros = max (expiration - t) 100 ∧ 100 ≤ micros := ⟨_, rfl, le_max_right _ _⟩
  have hvalue : howMuchTimeFromNow expiration t =
      ⟨micros / 1000000, micros % 1000000 * 1000⟩ := by
    have hif : (if expiration - t < 100 then 100 else expiration - t) = micros := by
      rw [hmicros]
      split <;> lia
    simp only [howMuchTimeFromNow, hif, Timestamp.kMicroSecondsPerSecond]
    rw [Int.tdiv_eq_ediv_of_nonneg (by omega), Int.tmod_eq_emod_of_nonneg (by omega)]
    norm_num
  have hne : ¬ (⟨micros / 1000000, micros % 1000000 * 1000⟩ : Timespec) = ⟨0, 0⟩ := by
    intro hzero
    injection hzero with hsec hnsec
    omega
  have hnsec : (micros % 1000000 * 1000).tdiv 1000 = micros % 1000000 := by
    rw [Int.tdiv_eq_ediv_of_nonneg (by omega)]
    omega
  rw [resetTimerfd, hvalue, settime, if_neg hne]
  simp only [hnsec, Timestamp.kMicroSecondsPerSecond]
  congr 1
  have hdiv := Int.mul_ediv_add_emod micros 1000000
  lia

/-- The descriptor will wake a reader in time for an expiration. -/
def Covers (fd : Timerfd) (expiration : Timestamp) : Prop :=
  fd = .expired ∨
    ∃ deadline armedAt, fd = .armed deadline armedAt ∧
      deadline ≤ max expiration (armedAt + 100)

theorem Covers.mono {fd : Timerfd} {first second : Timestamp} (h : fd.Covers first)
    (hle : first ≤ second) : fd.Covers second := by
  rcases h with rfl | ⟨deadline, armedAt, rfl, hdeadline⟩
  · exact Or.inl rfl
  · exact Or.inr ⟨deadline, armedAt, rfl, hdeadline.trans (max_le_max_right _ hle)⟩

theorem covers_resetTimerfd {first second : Timestamp} (t : Timestamp) (hle : first ≤ second) :
    (resetTimerfd first t).Covers second := by
  rw [resetTimerfd_eq]
  exact Or.inr ⟨_, _, rfl, max_le_max_right _ hle⟩

end Timerfd

/-! ## The manager with its descriptor -/

structure Clocked (C D : Type) where
  system : System C D
  timerfd : Timerfd

/-- An action of the manager, with the clock `resetTimerfd` would read, or the expiry. -/
inductive ClockedAction (C D : Type) where
  | timer (action : Action C D) (t : Timestamp)
  | expire

namespace Clocked

def initial : Clocked C D := ⟨.initial, .idle⟩

def isHandleRead : Action C D → Bool
  | .handleRead _ => true
  | _ => false

def guard (s : Clocked C D) : ClockedAction C D → Bool
  | .timer action _ =>
      s.system.guard action && (!isHandleRead action || decide (s.timerfd = .expired))
  | .expire =>
      match s.timerfd with
      | .armed _ _ => true
      | _ => false

def rearm (timerfd : Timerfd) (armed : Option Timestamp) (t : Timestamp) : Timerfd :=
  match armed with
  | none => timerfd
  | some expiration => .resetTimerfd expiration t

/-- A failed `readTimerfd` is the fault `none`. -/
def exec (s : Clocked C D) : ClockedAction C D → Except (Option Fault) (Clocked C D)
  | .timer action t => do
      let timerfd ←
        if isHandleRead action then
          match s.timerfd.readTimerfd with
          | some timerfd => .ok timerfd
          | none => .error none
        else .ok s.timerfd
      match s.system.perform action with
      | .ok (system, armed) => .ok ⟨system, rearm timerfd armed t⟩
      | .error fault => .error (some fault)
  | .expire => .ok { s with timerfd := .expired }

end Clocked

def clockedMachine (C D : Type) [Seconds D] :
    Machine (Clocked C D) (ClockedAction C D) (Option Fault) where
  guard := Clocked.guard
  exec := Clocked.exec

namespace Clocked

variable {s s' : Clocked C D} {a : ClockedAction C D}

/--
The invariant that survives a batch.  While callbacks run the descriptor may be idle,
but only if every waiting timer has a valid expiration, because `reset` re-arms for
exactly those.
-/
structure Inv (s : Clocked C D) : Prop where
  inv : s.system.Inv
  now_pos : ∀ b, s.system.batch = some b → 0 < b.now
  covers : ∀ e, s.system.manger.timers.front? = some e →
    s.system.batch = none ∨ e.first ≤ 0 → s.timerfd.Covers e.first

def ReadsPositive : ClockedAction C D → Prop
  | .timer (.handleRead now) _ => 0 < now
  | _ => True

theorem moves_of_step (h : s.Inv) {action : Action C D} {t : Timestamp}
    (hstep : (clockedMachine C D).step s (.timer action t) = some s') :
    ∃ fd armed, Moves s.system action s'.system armed ∧ s'.timerfd = rearm fd armed t ∧
      (isHandleRead action = false → fd = s.timerfd) := by
  obtain ⟨hguard, hexec⟩ := (Machine.step_eq_some_iff _).mp hstep
  have hguard : s.system.guard action = true ∧
      (isHandleRead action = false ∨ s.timerfd = .expired) := by
    simpa [clockedMachine, guard] using hguard
  obtain ⟨next, armed, hperform, hmove⟩ := System.perform_moves h.inv hguard.1
  simp only [clockedMachine, exec, hperform] at hexec
  cases hread : isHandleRead action with
  | false =>
      simp only [hread, bind, Except.bind] at hexec
      cases hexec
      exact ⟨s.timerfd, armed, hmove, rfl, fun _ => rfl⟩
  | true =>
      have hfd : s.timerfd = .expired := by simpa [hread] using hguard.2
      simp only [hread, hfd, Timerfd.readTimerfd, bind, Except.bind] at hexec
      cases hexec
      exact ⟨.idle, armed, hmove, rfl, by simp⟩

end Clocked

/-! ## The earliest entry along the moves -/

section Earliest

variable {m : TimerManger C D} {e : Entry}

omit [Seconds D] in
theorem first_le_of_front {timers : OrderedSet Entry} {f : Entry} (hf : timers.front? = some f)
    (he : e ∈ timers) : f.first ≤ e.first := by
  have hle := (OrderedSet.front?_eq_some_iff.mp hf).2 e he
  rw [Entry.le_iff] at hle
  lia

theorem exists_front {timers : OrderedSet Entry} (he : e ∈ timers) :
    ∃ f, timers.front? = some f := by
  cases hfront : timers.front? with
  | none => exact absurd he (OrderedSet.front?_eq_none_iff.mp hfront e)
  | some f => exact ⟨f, rfl⟩

omit [Seconds D] in
theorem earliestChanged_iff (expiration : Timestamp) :
    m.earliestChanged expiration = true ↔ ∀ e ∈ m.timers, expiration < e.first := by
  unfold TimerManger.earliestChanged
  cases hfront : m.timers.front? with
  | none =>
      have hempty := OrderedSet.front?_eq_none_iff.mp hfront
      simp only [true_iff]
      intro e he
      exact absurd he (hempty e)
  | some f =>
      simp only [decide_eq_true_eq]
      constructor
      · intro hlt e he
        exact hlt.trans_le (first_le_of_front hfront he)
      · intro hall
        exact hall f (OrderedSet.front?_eq_some_iff.mp hfront).1

/-- A waiting timer after `reset` was waiting before, or was put back after `now`. -/
theorem mem_timers_of_requeued {m' : TimerManger C D} {out : List Entry} {now : Timestamp}
    (hwf : WF m out) (hwf' : WF m' [])
    (hreq : TimerManger.Requeued now { m with callingExpiredTimers := false } m' out)
    (he : e ∈ m'.timers) : e ∈ m.timers ∨ now ≤ e.first := by
  obtain ⟨timer, halloc, hexp, hactive⟩ := (hwf'.mem_timers e).mp he
  by_cases hout : e.second ∈ out.map Entry.second
  · right
    obtain ⟨f, hf, hfe⟩ := List.mem_map.mp hout
    obtain ⟨before, hbefore, -⟩ := hwf.mem_out f hf
    have hheap := hreq.heap_out f hf before hbefore
    rw [hfe, halloc] at hheap
    split at hheap
    · rename_i hkeeps
      have hrecurring : before.recurring = true := by
        simp only [TimerManger.keeps, Bool.and_eq_true] at hkeeps
        exact hkeeps.1
      have hpositive := (hwf.recurring_eq hbefore).symm.trans hrecurring
      have hmicros := Seconds.toMicros_nonneg hpositive
      rw [Timer.restart_of_recurring hrecurring] at hheap
      cases hheap
      simp only [addTime] at hexp
      lia
    · cases hheap
  · left
    have hsame : m.heap e.second = some timer := (hreq.heap_other _ hout) ▸ halloc
    exact (hwf.mem_timers e).mpr ⟨timer, hsame, hexp,
      (hreq.active_other ⟨e.second, timer.sequence⟩ hout).mp hactive⟩

end Earliest

namespace Clocked

variable {s s' : Clocked C D} {a : ClockedAction C D}

/-- What covered the earliest timer still covers it when every timer is no earlier. -/
private theorem Inv.covers_of_mem (h : s.Inv) {e f : Entry} (hf : f ∈ s.system.manger.timers)
    (hle : f.first ≤ e.first) (hneed : s.system.batch = none ∨ e.first ≤ 0) :
    s.timerfd.Covers e.first := by
  obtain ⟨front, hfront⟩ := exists_front hf
  have hfirst := first_le_of_front hfront hf
  refine (h.covers front hfront ?_).mono (hfirst.trans hle)
  rcases hneed with hbatch | hpos
  · exact Or.inl hbatch
  · exact Or.inr ((hfirst.trans hle).trans hpos)

theorem Inv.of_timer (h : s.Inv) {action : Action C D} {t : Timestamp}
    (hpos : ReadsPositive (.timer action t))
    (hstep : (clockedMachine C D).step s (.timer action t) = some s') : s'.Inv := by
  obtain ⟨fd, armed, hmove, hfd, hsame⟩ := moves_of_step h hstep
  have hinv := h.inv.of_moves hmove
  obtain ⟨system, timerfd⟩ := s'
  simp only at hmove hfd hinv
  subst hfd
  cases hmove with
  | addTimer p cb expiration interval timer htimer hfree hp =>
      obtain rfl := hsame rfl
      subst htimer
      refine ⟨hinv, h.now_pos, ?_⟩
      intro e he hneed
      have hmem : e = ⟨expiration, p⟩ ∨ e ∈ s.system.manger.timers :=
        OrderedSet.mem_insert.mp (OrderedSet.front?_eq_some_iff.mp he).1
      cases hchanged : s.system.manger.earliestChanged expiration with
      | true =>
          have hall := (earliestChanged_iff expiration).mp hchanged
          apply Timerfd.covers_resetTimerfd
          rcases hmem with rfl | hmem
          · exact le_refl _
          · exact (hall e hmem).le
      | false =>
          have hsome : ∃ f ∈ s.system.manger.timers, f.first ≤ expiration := by
            by_contra hnone
            push Not at hnone
            rw [(earliestChanged_iff expiration).mpr hnone] at hchanged
            cases hchanged
          obtain ⟨f, hf, hle⟩ := hsome
          rcases hmem with rfl | hmem
          · exact h.covers_of_mem hf hle hneed
          · exact h.covers_of_mem hmem (le_refl _) hneed
  | cancelActive p timer halloc hactive =>
      obtain rfl := hsame rfl
      refine ⟨hinv, h.now_pos, ?_⟩
      intro e he hneed
      have hmem := OrderedSet.mem_erase.mp (OrderedSet.front?_eq_some_iff.mp he).1
      exact h.covers_of_mem hmem.2 (le_refl _) hneed
  | cancelInBatch id hid hbatch =>
      obtain rfl := hsame rfl
      exact ⟨hinv, h.now_pos, h.covers⟩
  | cancelNothing id hid hbatch =>
      obtain rfl := hsame rfl
      exact ⟨hinv, h.now_pos, h.covers⟩
  | handleRead now hbatch =>
      refine ⟨hinv, ?_, ?_⟩
      · rintro b ⟨⟩
        exact hpos
      · intro e he hneed
        rcases hneed with hnone | hle
        · cases hnone
        · have hmem := (OrderedSet.front?_eq_some_iff.mp he).1
          have hlt := ((TimerManger.mem_expire_timers_iff (h.inv.wf_idle hbatch) now e).mp hmem).2
          have hpos : 0 < now := hpos
          lia
  | call now expired entry rest timer hbatch halloc =>
      obtain rfl := hsame rfl
      have hnow : 0 < now := h.now_pos _ hbatch
      refine ⟨hinv, ?_, ?_⟩
      · rintro b ⟨⟩
        exact hnow
      · intro e he hneed
        rcases hneed with hnone | hle
        · cases hnone
        · exact h.covers e he (Or.inr hle)
  | finish now expired m hbatch hwf hreq =>
      obtain rfl := hsame rfl
      refine ⟨hinv, by rintro b ⟨⟩, ?_⟩
      intro e he _
      have hpos : 0 < now := h.now_pos _ hbatch
      have hnext : m.nextArm = if Timestamp.valid e.first then some e.first else none := by
        simp only at he
        simp [TimerManger.nextArm, he, Option.filter]
      change (rearm s.timerfd m.nextArm t).Covers e.first
      rw [hnext]
      cases hvalid : Timestamp.valid e.first with
      | true => exact Timerfd.covers_resetTimerfd t (le_refl _)
      | false =>
          have hle : e.first ≤ 0 := not_lt.mp (of_decide_eq_false hvalid)
          have hmem := (OrderedSet.front?_eq_some_iff.mp he).1
          rcases mem_timers_of_requeued (h.inv.wf_batch hbatch) hwf hreq hmem with hold | hnow
          · exact h.covers_of_mem hold (le_refl _) (Or.inr hle)
          · lia

theorem Inv.of_step (h : s.Inv) (hpos : ReadsPositive a)
    (hstep : (clockedMachine C D).step s a = some s') : s'.Inv := by
  cases a with
  | timer action t => exact h.of_timer hpos hstep
  | expire =>
      obtain ⟨-, hexec⟩ := (Machine.step_eq_some_iff _).mp hstep
      cases hexec
      exact ⟨h.inv, h.now_pos, fun _ _ _ => Or.inl rfl⟩

theorem initial_inv : (initial : Clocked C D).Inv := by
  refine ⟨System.initial_inv, by rintro b ⟨⟩, ?_⟩
  rintro e ⟨⟩

end Clocked

/--
No lost wakeup.  In every run in which the clock read by `handleRead` is after the
epoch, whenever no `handleRead` is in progress and a timer waits, the descriptor is
expired and unread, or armed no later than the earliest expiration or 100us after it
was armed.
-/
theorem timerfd_never_unarmed (acts : List (ClockedAction C D)) (s : Clocked C D)
    (hclock : ∀ a ∈ acts, Clocked.ReadsPositive a)
    (hrun : (clockedMachine C D).run .initial acts = some s)
    (hidle : s.system.batch = none) (e : Entry)
    (hearliest : s.system.manger.timers.front? = some e) :
    s.timerfd = .expired ∨
      ∃ deadline armedAt, s.timerfd = .armed deadline armedAt ∧
        deadline ≤ max e.first (armedAt + 100) := by
  have hmeets : (clockedMachine C D).Meets (fun _ a => Clocked.ReadsPositive a) .initial acts :=
    Machine.meets_of_forall fun _ a ha => hclock a ha
  have hinv : s.Inv := Machine.invariant_of_meets Clocked.Inv.of_step Clocked.initial_inv
    hmeets hrun
  exact hinv.covers e hearliest (Or.inl hidle)

/-- A callback adds a timer with an invalid timestamp, which `reset` does not arm for. -/
def invalidTimestampActions : List (ClockedAction Unit ℚ) :=
  [ .timer (.runAt 16 50 ()) 10
  , .expire
  , .timer (.handleRead 200) 200
  , .timer (.call 1) 200
  , .timer (.runAt 32 (-5) ()) 210
  , .timer .finish 220 ]

theorem timerfd_never_unarmed_invalid :
    ∃ s, (clockedMachine Unit ℚ).run .initial invalidTimestampActions = some s ∧
      (s.timerfd = .expired ∨
        ∃ deadline armedAt, s.timerfd = .armed deadline armedAt ∧
          deadline ≤ max (-5) (armedAt + 100)) := by
  have hrun : ((clockedMachine Unit ℚ).run .initial invalidTimestampActions).map
      (fun s => (s.system.batch, s.system.manger.timers.front?)) =
        some (none, some ⟨-5, 32⟩) := by decide
  obtain ⟨s, hs, heq⟩ := Option.map_eq_some_iff.mp hrun
  injection heq with hbatch hfront
  refine ⟨s, hs, timerfd_never_unarmed _ s ?_ hs hbatch _ hfront⟩
  simp [invalidTimestampActions, Clocked.ReadsPositive, Action.runAt]

end Qslary.Timers

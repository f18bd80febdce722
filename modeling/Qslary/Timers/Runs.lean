import Qslary.Timers.Operations

/-!
# Runs of the timer manager

`Moves` lists everything a step can do.  On a state that satisfies `Inv` the
executable `perform` never faults and always makes one of these moves, so every
later proof about runs is a case analysis on `Moves`.
-/

namespace Qslary.Timers

open Qslary.Foundation

variable {C D : Type} [Seconds D]

namespace System

structure Inv (s : System C D) : Prop where
  wf : WF s.manger s.outside
  calling_eq : s.manger.callingExpiredTimers = s.batch.isSome
  rest_suffix : ∀ b, s.batch = some b → b.rest <:+ b.expired
  expired_sorted : ∀ b, s.batch = some b → b.expired.Pairwise (· < ·)

end System

inductive Moves (s : System C D) : Action C D → System C D → Option Timestamp → Prop
  | addTimer (p : Addr) (cb : C) (expiration : Timestamp) (interval : D) (timer : Timer C D)
      (htimer : timer = .new cb expiration interval (s.manger.numCreated + 1))
      (hfree : s.manger.heap p = none) (hp : p < uintptrMax) :
      Moves s (.addTimer p cb expiration interval)
        { s with manger := (s.manger.alloc p timer).attach p timer }
        (if s.manger.earliestChanged expiration then some expiration else none)
  | cancelActive (p : Addr) (timer : Timer C D) (halloc : s.manger.heap p = some timer)
      (hactive : (⟨p, timer.sequence⟩ : ActiveTimer) ∈ s.manger.activeTimers) :
      Moves s (.cancel ⟨p, timer.sequence⟩)
        { s with manger := (s.manger.detach p timer).free p } none
  | cancelInBatch (id : TimerId) (hid : id ∉ s.manger.activeTimers)
      (hbatch : s.batch.isSome = true) :
      Moves s (.cancel id)
        { s with manger := { s.manger with
            cancelingTimers := s.manger.cancelingTimers.insert id } } none
  | cancelNothing (id : TimerId) (hid : id ∉ s.manger.activeTimers)
      (hbatch : s.batch = none) : Moves s (.cancel id) s none
  | handleRead (now : Timestamp) (hbatch : s.batch = none) :
      Moves s (.handleRead now)
        { s with
          manger := { s.manger.expire now with
            callingExpiredTimers := true, cancelingTimers := .empty }
          batch := some ⟨now, s.manger.expired now, s.manger.expired now⟩ } none
  | call (now : Timestamp) (expired : List Entry) (entry : Entry) (rest : List Entry)
      (timer : Timer C D) (hbatch : s.batch = some ⟨now, expired, entry :: rest⟩)
      (halloc : s.manger.heap entry.second = some timer) :
      Moves s (.call timer.sequence)
        { s with
          batch := some ⟨now, expired, rest⟩
          calls := s.calls ++ [⟨entry, timer⟩] } none
  | finish (now : Timestamp) (expired : List Entry) (m : TimerManger C D)
      (hbatch : s.batch = some ⟨now, expired, []⟩) (hwf : WF m [])
      (hreq : TimerManger.Requeued now { s.manger with callingExpiredTimers := false } m
        expired) :
      Moves s .finish { s with manger := m, batch := none } m.nextArm

namespace System

variable {s s' : System C D} {a : Action C D} {armed : Option Timestamp}

theorem Inv.wf_idle (h : s.Inv) (hbatch : s.batch = none) : WF s.manger [] := by
  have hwf := h.wf
  rwa [outside, hbatch] at hwf

theorem Inv.wf_batch (h : s.Inv) {b : Batch} (hbatch : s.batch = some b) :
    WF s.manger b.expired := by
  have hwf := h.wf
  rwa [outside, hbatch] at hwf

/-- The timer whose turn it is has not been freed. -/
theorem Inv.guard_call (h : s.Inv) {sequence : Nat} (hguard : s.guard (.call sequence) = true) :
    ∃ now expired entry rest timer, s.batch = some ⟨now, expired, entry :: rest⟩ ∧
      s.manger.heap entry.second = some timer ∧ timer.sequence = sequence := by
  simp only [guard] at hguard
  split at hguard
  · rename_i now expired entry rest hbatch
    have hentry : entry ∈ expired := (h.rest_suffix _ hbatch).mem List.mem_cons_self
    obtain ⟨timer, halloc, -⟩ := (h.wf_batch hbatch).mem_out entry hentry
    rw [halloc, Option.all_some, beq_iff_eq] at hguard
    exact ⟨now, expired, entry, rest, timer, hbatch, halloc, hguard⟩
  · cases hguard

omit [Seconds D] in
theorem guard_finish (hguard : s.guard .finish = true) :
    ∃ now expired, s.batch = some ⟨now, expired, []⟩ := by
  simp only [guard] at hguard
  split at hguard
  · exact ⟨_, _, ‹_›⟩
  · cases hguard

theorem perform_moves (h : s.Inv) (hguard : s.guard a = true) :
    ∃ s' armed, s.perform a = .ok (s', armed) ∧ Moves s a s' armed := by
  cases a with
  | addTimer p cb expiration interval =>
      simp only [guard, Bool.and_eq_true, Option.isNone_iff_eq_none, decide_eq_true_eq] at hguard
      refine ⟨_, _, ?_, .addTimer p cb expiration interval _ rfl hguard.1 hguard.2⟩
      simp only [perform, TimerManger.addTimer_eq h.wf hguard.1 hguard.2, bind, Except.bind]
      rfl
  | cancel id =>
      by_cases hid : id ∈ s.manger.activeTimers
      · obtain ⟨timer, halloc, hseq⟩ := h.wf.active_alloc id hid
        obtain ⟨p, sequence⟩ := id
        subst hseq
        refine ⟨_, _, ?_, .cancelActive p timer halloc hid⟩
        simp only [perform, TimerManger.cancel_eq_of_active h.wf halloc hid, bind, Except.bind]
        rfl
      · have hcancel := TimerManger.cancel_eq_of_not_active h.wf hid
        have hcalling := h.calling_eq
        cases hbatch : s.batch with
        | none =>
            rw [hbatch, Option.isSome_none] at hcalling
            rw [hcalling, if_neg Bool.false_ne_true] at hcancel
            refine ⟨_, _, ?_, .cancelNothing id hid hbatch⟩
            simp only [perform, hcancel, bind, Except.bind]
            rfl
        | some b =>
            rw [hbatch, Option.isSome_some] at hcalling
            rw [hcalling, if_pos rfl] at hcancel
            refine ⟨_, _, ?_, .cancelInBatch id hid (by rw [hbatch]; rfl)⟩
            simp only [perform, hcancel, hcalling, bind, Except.bind]
            rfl
  | handleRead now =>
      have hbatch : s.batch = none := by simpa [guard] using hguard
      refine ⟨_, _, ?_, .handleRead now hbatch⟩
      simp only [perform, TimerManger.getExpired_eq (h.wf_idle hbatch), bind, Except.bind]
      rfl
  | call sequence =>
      obtain ⟨now, expired, entry, rest, timer, hbatch, halloc, rfl⟩ := h.guard_call hguard
      refine ⟨_, _, ?_, .call now expired entry rest timer hbatch halloc⟩
      simp only [perform, hbatch, TimerManger.deref, halloc, bind, Except.bind]
      rfl
  | finish =>
      obtain ⟨now, expired, hbatch⟩ := guard_finish hguard
      have hwf : WF { s.manger with callingExpiredTimers := false } expired :=
        (h.wf_batch hbatch).of_eq rfl rfl rfl rfl
      obtain ⟨m, hm, hwf, hreq⟩ := TimerManger.reset_spec now hwf
      refine ⟨_, _, ?_, .finish now expired m hbatch hwf hreq⟩
      simp only [perform, hbatch, hm, bind, Except.bind]
      rfl

theorem Inv.of_moves (h : s.Inv) (hmove : Moves s a s' armed) : s'.Inv := by
  cases hmove with
  | addTimer p cb expiration interval timer htimer hfree hp =>
      have halloc : WF (s.manger.alloc p timer) (⟨timer.expiration, p⟩ :: s.outside) :=
        h.wf.alloc hfree hp (by rw [htimer]; rfl) (by rw [htimer]; rfl)
      exact ⟨halloc.attach (by simp [TimerManger.alloc, TimerManger.store]),
        h.calling_eq, h.rest_suffix, h.expired_sorted⟩
  | cancelActive p timer halloc hactive =>
      exact ⟨(h.wf.detach halloc hactive).free, h.calling_eq, h.rest_suffix, h.expired_sorted⟩
  | cancelInBatch id hid hbatch =>
      exact ⟨h.wf.of_eq rfl rfl rfl rfl, h.calling_eq, h.rest_suffix, h.expired_sorted⟩
  | cancelNothing id hid hbatch => exact h
  | handleRead now hbatch =>
      refine ⟨?_, rfl, ?_, ?_⟩
      · exact (TimerManger.expire_wf (h.wf_idle hbatch) now).of_eq rfl rfl rfl rfl
      · rintro b ⟨⟩
        exact List.suffix_refl _
      · rintro b ⟨⟩
        exact (s.manger.timers.below _).sorted
  | call now expired entry rest timer hbatch halloc =>
      have hwf : WF s.manger expired := h.wf_batch hbatch
      have hsorted : expired.Pairwise (· < ·) := h.expired_sorted _ hbatch
      refine ⟨hwf, ?_, ?_, ?_⟩
      · rw [h.calling_eq, hbatch]
        rfl
      · rintro b ⟨⟩
        exact (List.suffix_cons entry rest).trans (h.rest_suffix _ hbatch)
      · rintro b ⟨⟩
        exact hsorted
  | finish now expired m hbatch hwf hreq =>
      refine ⟨hwf, ?_, ?_, ?_⟩
      · exact hreq.calling_eq
      · rintro b ⟨⟩
      · rintro b ⟨⟩

theorem initial_inv : (initial : System C D).Inv := by
  refine ⟨?_, rfl, by rintro b ⟨⟩, by rintro b ⟨⟩⟩
  constructor
  · intro e
    simp [initial, TimerManger.initial]
  · intro id hid
    simp [initial, TimerManger.initial] at hid
  all_goals simp [initial, TimerManger.initial, outside]

theorem moves_of_step (h : s.Inv) (hstep : (machine C D).step s a = some s') :
    ∃ armed, s.perform a = .ok (s', armed) ∧ Moves s a s' armed := by
  obtain ⟨hguard, hexec⟩ := (Machine.step_eq_some_iff _).mp hstep
  obtain ⟨next, armed, hperform, hmove⟩ := perform_moves h hguard
  have hnext : next = s' := by
    change (s.perform a).map Prod.fst = .ok s' at hexec
    rw [hperform] at hexec
    exact Except.ok.inj hexec
  subst hnext
  exact ⟨armed, hperform, hmove⟩

theorem Inv.of_step (h : s.Inv) (hstep : (machine C D).step s a = some s') : s'.Inv := by
  obtain ⟨armed, -, hmove⟩ := moves_of_step h hstep
  exact h.of_moves hmove

theorem Inv.of_run (h : s.Inv) {acts : List (Action C D)}
    (hrun : (machine C D).run s acts = some s') : s'.Inv :=
  Machine.run_invariant Inv.of_step h hrun

theorem Inv.safe (h : s.Inv) : (machine C D).Safe s := by
  intro a hguard
  obtain ⟨next, armed, hperform, -⟩ := perform_moves h hguard
  refine ⟨next, ?_⟩
  change (s.perform a).map Prod.fst = .ok next
  rw [hperform]
  rfl

end System

/--
In every state of every run, also between the callbacks of a batch, `timers_` and
`activeTimers_` list the same allocated timers, and no action the environment can
take next trips an assert or follows a dangling pointer.
-/
theorem indexes_agree (acts : List (Action C D)) (s : System C D)
    (hrun : (machine C D).run .initial acts = some s) :
    (∀ t p, (⟨t, p⟩ : Entry) ∈ s.manger.timers ↔
      ∃ timer, s.manger.heap p = some timer ∧ timer.expiration = t ∧
        (⟨p, timer.sequence⟩ : ActiveTimer) ∈ s.manger.activeTimers) ∧
    s.manger.timers.size = s.manger.activeTimers.size ∧
    (machine C D).Safe s := by
  have hinv : s.Inv := System.initial_inv.of_run hrun
  exact ⟨fun t p => hinv.wf.mem_timers ⟨t, p⟩, hinv.wf.sizes_eq, hinv.safe⟩

/-- A recurring timer adds a second timer and cancels a third while it runs. -/
def sampleActions : List (Action Unit ℚ) :=
  [ .runEvery 16 100 1 ()
  , .runAt 32 5000000 ()
  , .handleRead 1000200
  , .call 1
  , .runAt 48 9000000 ()
  , .cancel ⟨32, 2⟩
  , .finish ]

theorem indexes_agree_sample :
    ∃ s, (machine Unit ℚ).run .initial sampleActions = some s ∧
      s.manger.timers.size = 2 ∧ s.manger.timers.size = s.manger.activeTimers.size := by
  have hrun : ((machine Unit ℚ).run .initial sampleActions).map
      (fun s => s.manger.timers.size) = some 2 := by decide
  obtain ⟨s, hs, hsize⟩ := Option.map_eq_some_iff.mp hrun
  exact ⟨s, hs, hsize, (indexes_agree sampleActions s hs).2.1⟩

end Qslary.Timers

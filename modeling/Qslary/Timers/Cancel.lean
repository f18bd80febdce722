import Qslary.Timers.Lifecycle

/-!
# Cancelling a timer

After `cancel(id)` the automaton of `id`'s timer can only be gone, or due in the
batch being processed with the cancelled mark set; the mark survives to the end of
the batch and keeps the timer from going back.  The automaton of any other timer
does not read the cancel at all.
-/

namespace Qslary.Timers

open Qslary.Foundation

variable {C D : Type} [Seconds D]

/-- `id` was returned by an `addTimer` of the run. -/
def Issued (acts : List (Action C D)) (id : TimerId) : Prop :=
  ∃ before after p cb expiration interval s m armed,
    acts = before ++ .addTimer p cb expiration interval :: after ∧
    (machine C D).run .initial before = some s ∧
    s.manger.addTimer p cb expiration interval = .ok (m, id, armed)

def Action.concerns (q : Nat) : Action C D → Bool
  | .cancel id => decide (id.sequence = q)
  | .call sequence => decide (sequence = q)
  | _ => false

/-- The actions other than cancels and callback runs of the timer numbered `q`. -/
def others (q : Nat) (acts : List (Action C D)) : List (Action C D) :=
  acts.filter fun a => !a.concerns q

namespace Life

variable {q r n : Nat} {p : Addr} {life : Life C D} {acts : List (Action C D)}

def AtAddr (p : Addr) : Life C D → Prop
  | .unborn _ => False
  | .waiting p' _ => p' = p
  | .due p' _ _ _ _ => p' = p
  | .gone => True

def Dying : Life C D → Prop
  | .due _ _ _ _ cancelled => cancelled = true
  | .gone => True
  | _ => False

/-- How often the callback can still run in the batch being processed. -/
def remaining : Life C D → Nat
  | .due _ _ _ called _ => if called then 0 else 1
  | _ => 0

theorem AtAddr.step (h : life.AtAddr p) (a : Action C D) : (life.step q a).AtAddr p := by
  cases life with
  | unborn => exact h.elim
  | waiting p' timer =>
      cases a with
      | cancel id =>
          simp only [Life.step]
          split
          · trivial
          · exact h
      | handleRead now =>
          simp only [Life.step]
          split <;> exact h
      | addTimer | call | finish => exact h
  | due p' timer now called cancelled =>
      cases a with
      | finish =>
          simp only [Life.step]
          split
          · exact h
          · trivial
      | addTimer | cancel | handleRead | call => exact h
  | gone => trivial

theorem AtAddr.foldl (h : life.AtAddr p) : ((acts.foldl (advance q) (life, n)).1).AtAddr p := by
  induction acts generalizing life n with
  | nil => exact h
  | cons a acts ih => exact ih (h.step a)

theorem AtAddr.dying_of_cancel (h : life.AtAddr p) : (life.step q (.cancel ⟨p, q⟩)).Dying := by
  cases life with
  | unborn => exact h.elim
  | waiting p' timer =>
      obtain rfl : p' = p := h
      simp [Life.step, Dying]
  | due p' timer now called cancelled =>
      obtain rfl : p' = p := h
      simp [Life.step, Dying]
  | gone => trivial

theorem Dying.step (h : life.Dying) (a : Action C D) :
    (life.step q a).Dying ∧ life.runs q a + (life.step q a).remaining ≤ life.remaining := by
  cases life with
  | unborn | waiting => exact h.elim
  | due p timer now called cancelled =>
      obtain rfl : cancelled = true := h
      cases a with
      | call sequence =>
          refine ⟨rfl, ?_⟩
          by_cases hq : sequence = q <;> cases called <;> simp [Life.step, runs, remaining, hq]
      | cancel id => cases called <;> simp [Life.step, runs, remaining, Dying]
      | finish => cases called <;> simp [Life.step, runs, remaining, Dying]
      | addTimer | handleRead => cases called <;> simp [Life.step, runs, remaining, Dying]
  | gone => exact ⟨trivial, Nat.le_refl _⟩

theorem Dying.foldl (h : life.Dying) (q n : Nat) (acts : List (Action C D)) :
    ((acts.foldl (advance q) (life, n)).1).Dying ∧
      (acts.foldl (advance q) (life, n)).2 +
        ((acts.foldl (advance q) (life, n)).1).remaining ≤ n + life.remaining := by
  induction acts generalizing life n with
  | nil => exact ⟨h, Nat.le_refl _⟩
  | cons a acts ih =>
      obtain ⟨hdying, hle⟩ := h.step (q := q) a
      obtain ⟨hfinal, hle'⟩ := ih hdying (n + life.runs q a)
      refine ⟨hfinal, hle'.trans ?_⟩
      omega

theorem Dying.finish (h : life.Dying) : life.step q .finish = .gone := by
  cases life with
  | unborn | waiting => exact h.elim
  | due p timer now called cancelled =>
      obtain rfl : cancelled = true := h
      simp [Life.step]
  | gone => rfl

theorem advance_of_concerns (hqr : r ≠ q) (state : Life C D × Nat) {a : Action C D}
    (ha : a.concerns r = true) : advance q state a = state := by
  obtain ⟨life, n⟩ := state
  cases a with
  | cancel id =>
      have hid : ∀ p', id ≠ ⟨p', q⟩ := by
        rintro p' rfl
        exact hqr (of_decide_eq_true ha).symm
      cases life with
      | due p timer now called cancelled =>
          cases called <;> simp [advance, Life.step, runs, hid]
      | unborn | waiting | gone => simp [advance, Life.step, runs, hid]
  | call sequence =>
      have hseq : sequence ≠ q := by
        rintro rfl
        exact hqr (of_decide_eq_true ha).symm
      cases life with
      | due p timer now called cancelled =>
          cases called <;> simp [advance, Life.step, runs, hseq]
      | unborn | waiting | gone => simp [advance, Life.step, runs]
  | addTimer | handleRead | finish => cases ha

theorem foldl_others (hqr : r ≠ q) (state : Life C D × Nat) :
    (others r acts).foldl (advance q) state = acts.foldl (advance q) state := by
  induction acts generalizing state with
  | nil => rfl
  | cons a acts ih =>
      cases ha : a.concerns r with
      | true =>
          have hothers : others r (a :: acts) = others r acts := by simp [others, ha]
          rw [hothers, ih, List.foldl_cons, advance_of_concerns hqr state ha]
      | false =>
          have hothers : others r (a :: acts) = a :: others r acts := by simp [others, ha]
          rw [hothers, List.foldl_cons, List.foldl_cons, ih]

end Life

namespace System

variable {s s' t : System C D} {q : Nat} {life : Life C D}

theorem Tracks.heap_of_heap (h : s.Inv) (ht : s.Tracks q life) (ht' : s'.Tracks q life)
    {p : Addr} {timer : Timer C D} (hq : timer.sequence = q) :
    s.manger.heap p = some timer → s'.manger.heap p = some timer := by
  intro hheap
  subst hq
  cases life with
  | unborn created =>
      have := h.wf.sequence_le hheap
      obtain ⟨rfl, hlt⟩ := ht
      omega
  | waiting p' timer' =>
      obtain ⟨halloc, hseq, -⟩ := ht
      obtain rfl := h.wf.sequence_inj hheap halloc hseq.symm
      rw [hheap] at halloc
      cases halloc
      exact ht'.1
  | due p' timer' now called cancelled =>
      obtain ⟨-, -, -, halloc, hseq, -⟩ := ht
      obtain ⟨-, -, -, halloc', -⟩ := ht'
      obtain rfl := h.wf.sequence_inj hheap halloc hseq.symm
      rw [hheap] at halloc
      cases halloc
      exact halloc'
  | gone => exact absurd rfl (ht.2 _ _ hheap)

theorem Tracks.active_iff (h : s.Inv) (ht : s.Tracks q life) (p : Addr) :
    (⟨p, q⟩ : ActiveTimer) ∈ s.manger.activeTimers ↔ ∃ timer, life = .waiting p timer := by
  constructor
  · intro hactive
    obtain ⟨timer, halloc, hseq⟩ := h.wf.active_alloc _ hactive
    simp only at halloc hseq
    cases life with
    | unborn created =>
        have := h.wf.sequence_le halloc
        obtain ⟨rfl, hlt⟩ := ht
        omega
    | waiting p' timer' =>
        obtain ⟨halloc', hseq', -⟩ := ht
        obtain rfl := h.wf.sequence_inj halloc halloc' (hseq.trans hseq'.symm)
        exact ⟨timer', rfl⟩
    | due p' timer' now called cancelled =>
        obtain ⟨expired, rest, hbatch, halloc', hseq', hmem, -⟩ := ht
        obtain rfl := h.wf.sequence_inj halloc halloc' (hseq.trans hseq'.symm)
        obtain ⟨same, hsame, -, hnot⟩ := (h.wf_batch hbatch).mem_out _ hmem
        simp only at hsame hnot
        rw [halloc] at hsame
        cases hsame
        rw [hseq] at hnot
        exact absurd hactive hnot
    | gone => exact absurd hseq (ht.2 _ _ halloc)
  · rintro ⟨timer, rfl⟩
    exact ht.2.2

theorem follows_of_issued {acts : List (Action C D)} {id : TimerId} (hissued : Issued acts id)
    (hrun : (machine C D).run initial acts = some s) :
    ∃ life n, s.Follows id.sequence (life, n) ∧ life.AtAddr id.timer := by
  obtain ⟨before, after, p, cb, expiration, interval, start, m, armed, rfl, hbefore, hadd⟩ :=
    hissued
  obtain ⟨start', hstart', hrest⟩ := (Machine.run_append_iff _).mp hrun
  obtain rfl : start = start' := Option.some.inj (hbefore.symm.trans hstart')
  obtain ⟨added, hstep, hafter⟩ := (Machine.run_cons_iff _).mp hrest
  have hinv : start.Inv := initial_inv.of_run hbefore
  obtain ⟨armed', hperform, hmove⟩ := moves_of_step hinv hstep
  cases hmove with
  | addTimer _ _ _ _ timer htimer hfree hp =>
      rw [TimerManger.addTimer_eq hinv.wf hfree hp] at hadd
      obtain rfl : (⟨p, start.manger.numCreated + 1⟩ : TimerId) = id :=
        congrArg (fun r => r.2.1) (Except.ok.inj hadd)
      have hborn := (follows_unborn hbefore).of_step hinv hstep
      simp only [Life.advance, Life.step, Life.runs, if_true] at hborn
      have hnow := hborn.of_run (hinv.of_step hstep) hafter
      refine ⟨_, _, hnow, ?_⟩
      exact Life.AtAddr.foldl rfl

/-- A cancel moves no key, and no heap cell, of a timer with another number. -/
structure SameExcept (q : Nat) (s s' : System C D) : Prop where
  heap_iff : ∀ p timer, timer.sequence ≠ q →
    (s'.manger.heap p = some timer ↔ s.manger.heap p = some timer)
  active_iff : ∀ p r, r ≠ q →
    ((⟨p, r⟩ : ActiveTimer) ∈ s'.manger.activeTimers ↔
      (⟨p, r⟩ : ActiveTimer) ∈ s.manger.activeTimers)
  timers_iff : ∀ p timer t, s.manger.heap p = some timer → timer.sequence ≠ q →
    ((⟨t, p⟩ : Entry) ∈ s'.manger.timers ↔ (⟨t, p⟩ : Entry) ∈ s.manger.timers)
  batch_eq : s'.batch = s.batch

theorem sameExcept_of_cancel (h : s.Inv) {id : TimerId}
    (hcancel : (machine C D).step s (.cancel id) = some s') : SameExcept id.sequence s s' := by
  obtain ⟨armed, -, hmove⟩ := moves_of_step h hcancel
  cases hmove with
  | cancelActive p timer halloc hactive =>
      constructor
      · intro r other hseq
        by_cases hr : r = p
        · subst hr
          constructor
          · intro hother
            simp [TimerManger.free] at hother
          · intro hother
            rw [halloc] at hother
            cases hother
            exact absurd rfl hseq
        · simp [TimerManger.free, TimerManger.detach, Function.update_of_ne hr]
      · intro r q hq
        simp only [TimerManger.free, TimerManger.detach, OrderedSet.mem_erase,
          and_iff_right_iff_imp]
        intro _ hsame
        exact hq (congrArg TimerId.sequence hsame)
      · intro r other t hother hseq
        simp only [TimerManger.free, TimerManger.detach, OrderedSet.mem_erase,
          and_iff_right_iff_imp]
        intro _ hsame
        obtain rfl : r = p := congrArg Entry.second hsame
        rw [halloc] at hother
        cases hother
        exact hseq rfl
      · rfl
  | cancelInBatch id hid hbatch =>
      exact ⟨fun _ _ _ => Iff.rfl, fun _ _ _ => Iff.rfl, fun _ _ _ _ _ => Iff.rfl, rfl⟩
  | cancelNothing id hid hbatch =>
      exact ⟨fun _ _ _ => Iff.rfl, fun _ _ _ => Iff.rfl, fun _ _ _ _ _ => Iff.rfl, rfl⟩

/-- Two runs that differ only in what concerns one number agree on every other timer. -/
theorem agree_of_others (h : s.Inv) (h' : s'.Inv) {r : Nat} {state : Life C D × Nat}
    (hqr : r ≠ q) (ht : s.Follows q state) (ht' : s'.Follows q state)
    {acts acts' : List (Action C D)} (hothers : others r acts = others r acts')
    {t t' : System C D} (hrun : (machine C D).run s acts = some t)
    (hrun' : (machine C D).run s' acts' = some t') :
    t.callCount q = t'.callCount q ∧
    (∀ p timer, timer.sequence = q →
      (t.manger.heap p = some timer ↔ t'.manger.heap p = some timer)) ∧
    ∀ p, (⟨p, q⟩ : ActiveTimer) ∈ t.manger.activeTimers ↔
      (⟨p, q⟩ : ActiveTimer) ∈ t'.manger.activeTimers := by
  have hend := ht.of_run h hrun
  have hend' := ht'.of_run h' hrun'
  rw [← Life.foldl_others hqr, ← hothers, Life.foldl_others hqr] at hend'
  have hinv := h.of_run hrun
  have hinv' := h'.of_run hrun'
  refine ⟨hend.2.trans hend'.2.symm, ?_, ?_⟩
  · intro p timer hseq
    exact ⟨hend.1.heap_of_heap hinv hend'.1 hseq, hend'.1.heap_of_heap hinv' hend.1 hseq⟩
  · intro p
    rw [hend.1.active_iff hinv, hend'.1.active_iff hinv']

end System

/--
`cancel(id)` is final and touches nothing else.  After it, in every continuation,
`id` is never in the queue again; its callback does not run at all if the cancel came
from outside `handleRead`, and otherwise at most once and not after the end of the
batch.  Every other timer keeps its place and its expiration, and its future runs are
those it has in any continuation without the cancel that differs only in what
concerns `id`'s number.
-/
theorem cancel_is_final (acts : List (Action C D)) (s : System C D)
    (hrun : (machine C D).run .initial acts = some s) (id : TimerId) (hissued : Issued acts id)
    (s₁ : System C D) (hcancel : (machine C D).step s (.cancel id) = some s₁) :
    (∀ later s₂, (machine C D).run s₁ later = some s₂ →
      id ∉ s₂.manger.activeTimers ∧
      s₂.callCount id.sequence ≤ s₁.callCount id.sequence + 1 ∧
      (s.batch = none → s₂.callCount id.sequence = s₁.callCount id.sequence) ∧
      ∀ body rest s', later = body ++ .finish :: rest →
        (machine C D).run s₁ (body ++ [.finish]) = some s' →
          s₂.callCount id.sequence = s'.callCount id.sequence) ∧
    System.SameExcept id.sequence s s₁ ∧
    (∀ later s₂ later' s₂', others id.sequence later = others id.sequence later' →
      (machine C D).run s₁ later = some s₂ → (machine C D).run s later' = some s₂' →
      ∀ q, q ≠ id.sequence →
        s₂.callCount q = s₂'.callCount q ∧
        (∀ p timer, timer.sequence = q →
          (s₂.manger.heap p = some timer ↔ s₂'.manger.heap p = some timer)) ∧
        ∀ p, (⟨p, q⟩ : ActiveTimer) ∈ s₂.manger.activeTimers ↔
          (⟨p, q⟩ : ActiveTimer) ∈ s₂'.manger.activeTimers) := by
  have hinv : s.Inv := System.initial_inv.of_run hrun
  have hinv₁ : s₁.Inv := hinv.of_step hcancel
  refine ⟨?_, System.sameExcept_of_cancel hinv hcancel, ?_⟩
  · obtain ⟨life, n, hfollows, hat⟩ := System.follows_of_issued hissued hrun
    have hafter := hfollows.of_step hinv hcancel
    have hdying : (life.step id.sequence (.cancel id)).Dying := hat.dying_of_cancel
    have hruns : life.runs id.sequence (.cancel id) = 0 := by
      cases life with
      | due p timer now called cancelled => cases called <;> rfl
      | unborn | waiting | gone => rfl
    simp only [Life.advance, hruns, Nat.add_zero] at hafter
    intro later s₂ hlater
    have hend := hafter.of_run hinv₁ hlater
    obtain ⟨hdying₂, hle⟩ := hdying.foldl id.sequence n later
    refine ⟨?_, ?_, ?_, ?_⟩
    · intro hactive
      obtain ⟨timer, hwaiting⟩ := (hend.1.active_iff (hinv₁.of_run hlater) id.timer).mp hactive
      rw [hwaiting] at hdying₂
      exact hdying₂
    · have hremaining : (life.step id.sequence (.cancel id)).remaining ≤ 1 := by
        cases life.step id.sequence (.cancel id) with
        | due p timer now called cancelled => cases called <;> simp [Life.remaining]
        | unborn | waiting | gone => simp [Life.remaining]
      rw [hend.2, hafter.2]
      omega
    · intro hbatch
      have hgone : life.step id.sequence (.cancel id) = .gone := by
        cases hstep : life.step id.sequence (.cancel id) with
        | due p timer now called cancelled =>
            rw [hstep] at hafter
            obtain ⟨expired, rest, hsome, -⟩ := hafter.1
            rw [(System.sameExcept_of_cancel hinv hcancel).batch_eq, hbatch] at hsome
            cases hsome
        | unborn | waiting =>
            rw [hstep] at hdying
            exact hdying.elim
        | gone => rfl
      rw [hgone] at hafter hend
      rw [Life.foldl_gone] at hend
      exact hend.2.trans hafter.2.symm
    · rintro body rest s' rfl hbody
      obtain ⟨mid, hmid, hrest⟩ := (Machine.run_append_iff _).mp hlater
      obtain ⟨done, hdone, hrest⟩ := (Machine.run_cons_iff _).mp hrest
      obtain ⟨mid', hmid', hlast⟩ := (Machine.run_append_iff _).mp hbody
      obtain rfl : mid = mid' := Option.some.inj (hmid.symm.trans hmid')
      obtain rfl : done = s' :=
        Option.some.inj (hdone.symm.trans ((Machine.run_single_iff _).mp hlast))
      have hinvMid := hinv₁.of_run hmid
      have hfinished := (hafter.of_run hinv₁ hmid).of_step hinvMid hdone
      have hgone := (hdying.foldl id.sequence n body).1.finish
        (q := id.sequence)
      rw [Life.advance, hgone] at hfinished
      have hlast := hfinished.of_run (hinvMid.of_step hdone) hrest
      rw [Life.foldl_gone] at hlast
      exact hlast.2.trans hfinished.2.symm
  · intro later s₂ later' s₂' hothers hlater hlater' q hq
    have hfollows := (System.follows_initial q).of_run System.initial_inv hrun
    have hfollows₁ := hfollows.of_step hinv hcancel
    have hconcerns : (Action.cancel id : Action C D).concerns id.sequence = true :=
      decide_eq_true rfl
    rw [Life.advance_of_concerns (Ne.symm hq) _ hconcerns] at hfollows₁
    exact System.agree_of_others hinv₁ hinv (Ne.symm hq) hfollows₁ hfollows hothers hlater hlater'

/-- A recurring timer that cancels itself from its callback is not put back. -/
theorem cancel_is_final_sample :
    ∃ s₁ s₂, (machine Unit ℚ).run .initial
        [.runEvery 16 100 1 (), .handleRead 1000200, .call 1, .cancel ⟨16, 1⟩] = some s₁ ∧
      (machine Unit ℚ).run s₁ [.finish] = some s₂ ∧
      (⟨16, 1⟩ : TimerId) ∉ s₂.manger.activeTimers := by
  have hrun : (((machine Unit ℚ).run .initial
      [.runEvery 16 100 1 (), .handleRead 1000200, .call 1, .cancel ⟨16, 1⟩]).bind fun s =>
        (machine Unit ℚ).run s [.finish]).isSome = true := by decide
  obtain ⟨s₂, hs₂⟩ := Option.isSome_iff_exists.mp hrun
  obtain ⟨s₁, hs₁, hlast⟩ := Option.bind_eq_some_iff.mp hs₂
  have hsplit : (machine Unit ℚ).run .initial
      ([.runEvery 16 100 1 (), .handleRead 1000200, .call 1] ++ [.cancel ⟨16, 1⟩]) = some s₁ := hs₁
  obtain ⟨s, hs, hcancel⟩ := (Machine.run_append_iff _).mp hsplit
  have hissued : Issued (C := Unit) (D := ℚ)
      [.runEvery 16 100 1 (), .handleRead 1000200, .call 1] ⟨16, 1⟩ :=
    ⟨[], _, _, _, _, _, _, _, _, rfl, rfl,
      TimerManger.addTimer_eq System.initial_inv.wf rfl (by decide) () _ _⟩
  have hfinal := cancel_is_final _ s hs ⟨16, 1⟩ hissued s₁ ((Machine.run_single_iff _).mp hcancel)
  exact ⟨s₁, s₂, hs₁, hlast, (hfinal.1 [.finish] s₂ hlast).1⟩

end Qslary.Timers

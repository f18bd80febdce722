import Qslary.Timers.Runs

/-!
# The life of one timer

The purpose of the manager, timer by timer: a timer is unborn, then waits for its
expiration, is due in one batch, and then waits again or is gone.  `Life.step q`
is the automaton of the timer with sequence number `q`.  It reads the actions of a
run and nothing else, so timers cannot influence each other except through the
actions their callbacks perform.

`tracks_of_moves` is the refinement: every move of the manager takes each of its
timers along its own automaton, and the callback of a timer runs exactly when its
automaton says so.
-/

namespace Qslary.Timers

open Qslary.Foundation

variable {C D : Type} [Seconds D]

inductive Life (C D : Type) where
  | unborn (created : Nat)
  | waiting (p : Addr) (timer : Timer C D)
  | due (p : Addr) (timer : Timer C D) (now : Timestamp) (called cancelled : Bool)
  | gone

namespace Life

def start (q : Nat) : Life C D := if q = 0 then .gone else .unborn 0

def step (q : Nat) : Life C D → Action C D → Life C D
  | .unborn created, .addTimer p cb expiration interval =>
      if created + 1 = q then .waiting p (.new cb expiration interval q)
      else .unborn (created + 1)
  | .waiting p timer, .cancel id =>
      if id = ⟨p, q⟩ then .gone else .waiting p timer
  | .waiting p timer, .handleRead now =>
      if timer.expiration ≤ now then .due p timer now false false else .waiting p timer
  | .due p timer now called cancelled, .cancel id =>
      .due p timer now called (cancelled || decide (id = ⟨p, q⟩))
  | .due p timer now called cancelled, .call sequence =>
      .due p timer now (called || decide (sequence = q)) cancelled
  | .due p timer now _ cancelled, .finish =>
      if timer.recurring && !cancelled then .waiting p (timer.restart now) else .gone
  | life, _ => life

/-- How many times the action runs the callback of the timer. -/
def runs (q : Nat) : Life C D → Action C D → Nat
  | .due _ _ _ false _, .call sequence => if sequence = q then 1 else 0
  | _, _ => 0

/-- The automaton together with the number of callback runs so far. -/
def advance (q : Nat) (state : Life C D × Nat) (a : Action C D) : Life C D × Nat :=
  (state.1.step q a, state.2 + state.1.runs q a)

end Life

namespace System

def callCount (s : System C D) (q : Nat) : Nat :=
  s.calls.countP fun c => decide (c.timer.sequence = q)

def Tracks (q : Nat) (s : System C D) : Life C D → Prop
  | .unborn created => created = s.manger.numCreated ∧ created < q
  | .waiting p timer =>
      s.manger.heap p = some timer ∧ timer.sequence = q ∧
        (⟨p, q⟩ : ActiveTimer) ∈ s.manger.activeTimers
  | .due p timer now called cancelled =>
      ∃ expired rest, s.batch = some ⟨now, expired, rest⟩ ∧
        s.manger.heap p = some timer ∧ timer.sequence = q ∧
        (⟨timer.expiration, p⟩ : Entry) ∈ expired ∧
        (called = true ↔ (⟨timer.expiration, p⟩ : Entry) ∉ rest) ∧
        (cancelled = true ↔ (⟨p, q⟩ : ActiveTimer) ∈ s.manger.cancelingTimers)
  | .gone => q ≤ s.manger.numCreated ∧
      ∀ p timer, s.manger.heap p = some timer → timer.sequence ≠ q

variable {s s' : System C D} {a : Action C D} {armed : Option Timestamp} {q : Nat}

private theorem tracks_unborn {created : Nat} (ht : s.Tracks q (.unborn created))
    (hmove : Moves s a s' armed) : s'.Tracks q (Life.step q (.unborn created) a) := by
  obtain ⟨hcreated, hlt⟩ := ht
  cases hmove with
  | addTimer p cb expiration interval timer htimer hfree hp =>
      subst htimer
      simp only [Life.step]
      split
      · rename_i hq
        subst hq hcreated
        refine ⟨?_, rfl, ?_⟩
        · simp [TimerManger.attach, TimerManger.alloc, TimerManger.store]
        · simp [TimerManger.attach, Timer.new]
      · rename_i hq
        subst hcreated
        exact ⟨rfl, by omega⟩
  | finish now expired m hbatch hwf hreq =>
      exact ⟨by rw [hcreated]; exact hreq.numCreated_eq.symm, hlt⟩
  | cancelActive | cancelInBatch | cancelNothing | handleRead | call => exact ⟨hcreated, hlt⟩

private theorem tracks_gone (h : s.Inv) (ht : s.Tracks q .gone) (hmove : Moves s a s' armed) :
    s'.Tracks q (Life.step q .gone a) := by
  obtain ⟨hle, hnone⟩ := ht
  cases hmove with
  | addTimer p cb expiration interval timer htimer hfree hp =>
      subst htimer
      refine ⟨Nat.le_succ_of_le hle, ?_⟩
      intro r other hother
      by_cases hr : r = p
      · subst hr
        simp [TimerManger.attach, TimerManger.alloc, TimerManger.store] at hother
        subst hother
        simp only [Timer.new]
        omega
      · apply hnone r
        simpa [TimerManger.attach, TimerManger.alloc, TimerManger.store,
          Function.update_of_ne hr] using hother
  | cancelActive p timer halloc hactive =>
      refine ⟨hle, fun r other hother => hnone r other ?_⟩
      by_cases hr : r = p
      · subst hr
        simp [TimerManger.free] at hother
      · simpa [TimerManger.free, TimerManger.detach, Function.update_of_ne hr] using hother
  | finish now expired m hbatch hwf hreq =>
      refine ⟨hreq.numCreated_eq ▸ hle, ?_⟩
      intro r other hother
      by_cases hr : r ∈ expired.map Entry.second
      · obtain ⟨e, he, rfl⟩ := List.mem_map.mp hr
        obtain ⟨timer, halloc, -⟩ := (h.wf_batch hbatch).mem_out e he
        have hheap := hreq.heap_out e he timer halloc
        change m.heap e.second = some other at hother
        rw [hheap] at hother
        split at hother
        · cases hother
          rw [Timer.restart_sequence]
          exact hnone _ _ halloc
        · cases hother
      · exact hnone r other (hreq.heap_other r hr ▸ hother)
  | cancelInBatch | cancelNothing | handleRead | call => exact ⟨hle, hnone⟩

private theorem tracks_waiting (h : s.Inv) {p : Addr} {timer : Timer C D}
    (ht : s.Tracks q (.waiting p timer)) (hmove : Moves s a s' armed) :
    s'.Tracks q (Life.step q (.waiting p timer) a) := by
  obtain ⟨halloc, rfl, hactive⟩ := ht
  cases hmove with
  | addTimer r cb expiration interval other htimer hfree hr =>
      have hpr : p ≠ r := by
        rintro rfl
        rw [hfree] at halloc
        cases halloc
      refine ⟨?_, rfl, ?_⟩
      · simpa [TimerManger.attach, TimerManger.alloc, TimerManger.store,
          Function.update_of_ne hpr] using halloc
      · exact OrderedSet.mem_insert.mpr (Or.inr hactive)
  | cancelActive r other hother hother' =>
      simp only [Life.step]
      split
      · rename_i hsame
        obtain rfl : r = p := congrArg TimerId.timer hsame
        rw [halloc] at hother
        cases hother
        refine ⟨h.wf.sequence_le halloc, ?_⟩
        intro r' other hr' hseq
        by_cases hrr : r' = r
        · subst hrr
          simp [TimerManger.free] at hr'
        · have hr' : s.manger.heap r' = some other := by
            simpa [TimerManger.free, TimerManger.detach, Function.update_of_ne hrr] using hr'
          exact hrr (h.wf.sequence_inj hr' halloc hseq)
      · rename_i hdiff
        have hpr : p ≠ r := by
          rintro rfl
          rw [halloc] at hother
          cases hother
          exact hdiff rfl
        refine ⟨?_, rfl, ?_⟩
        · simpa [TimerManger.free, TimerManger.detach, Function.update_of_ne hpr] using halloc
        · exact OrderedSet.mem_erase.mpr
            ⟨fun hsame => hpr (congrArg TimerId.timer hsame), hactive⟩
  | cancelInBatch id hid hbatch =>
      have hdiff : id ≠ ⟨p, timer.sequence⟩ := by
        rintro rfl
        exact hid hactive
      simp only [Life.step, if_neg hdiff]
      exact ⟨halloc, rfl, hactive⟩
  | cancelNothing id hid hbatch =>
      have hdiff : id ≠ ⟨p, timer.sequence⟩ := by
        rintro rfl
        exact hid hactive
      simp only [Life.step, if_neg hdiff]
      exact ⟨halloc, rfl, hactive⟩
  | handleRead now hbatch =>
      have hwf := h.wf_idle hbatch
      simp only [Life.step]
      split
      · rename_i hle
        have hmem : (⟨timer.expiration, p⟩ : Entry) ∈ s.manger.expired now :=
          (TimerManger.mem_expired_iff hwf now _).mpr
            ⟨hwf.mem_timers_of_active halloc hactive, hle⟩
        refine ⟨_, _, rfl, halloc, rfl, hmem, ?_, ?_⟩
        · simp [hmem]
        · simp
      · rename_i hlt
        exact ⟨halloc, rfl,
          (TimerManger.mem_expire_active_iff hwf now halloc).mpr ⟨hactive, not_le.mp hlt⟩⟩
  | call => exact ⟨halloc, rfl, hactive⟩
  | finish now expired m hbatch hwf hreq =>
      have hout : p ∉ expired.map Entry.second := by
        intro hmem
        obtain ⟨e, he, rfl⟩ := List.mem_map.mp hmem
        obtain ⟨other, hother, -, hnot⟩ := (h.wf_batch hbatch).mem_out e he
        rw [halloc] at hother
        cases hother
        exact hnot hactive
      exact ⟨(hreq.heap_other p hout).trans halloc, rfl,
        (hreq.active_other ⟨p, timer.sequence⟩ hout).mpr hactive⟩

private theorem tracks_due (h : s.Inv) {p : Addr} {timer : Timer C D} {now : Timestamp}
    {called cancelled : Bool} (ht : s.Tracks q (.due p timer now called cancelled))
    (hmove : Moves s a s' armed) :
    s'.Tracks q (Life.step q (.due p timer now called cancelled) a) := by
  obtain ⟨expired, rest, hbatch, halloc, rfl, hmem, hcalled, hcancelled⟩ := ht
  have hwf := h.wf_batch hbatch
  have hinactive : (⟨p, timer.sequence⟩ : ActiveTimer) ∉ s.manger.activeTimers := by
    obtain ⟨other, hother, -, hnot⟩ := hwf.mem_out _ hmem
    rw [halloc] at hother
    cases hother
    exact hnot
  cases hmove with
  | addTimer r cb expiration interval other htimer hfree hr =>
      have hpr : p ≠ r := by
        rintro rfl
        rw [hfree] at halloc
        cases halloc
      refine ⟨expired, rest, hbatch, ?_, rfl, hmem, hcalled, hcancelled⟩
      simpa [TimerManger.attach, TimerManger.alloc, TimerManger.store,
        Function.update_of_ne hpr] using halloc
  | cancelActive r other hother hother' =>
      have hpr : p ≠ r := by
        rintro rfl
        rw [halloc] at hother
        cases hother
        exact hinactive hother'
      have hdiff : (⟨r, other.sequence⟩ : TimerId) ≠ ⟨p, timer.sequence⟩ :=
        fun hsame => hpr (congrArg TimerId.timer hsame).symm
      refine ⟨expired, rest, hbatch, ?_, rfl, hmem, hcalled, ?_⟩
      · simpa [TimerManger.free, TimerManger.detach, Function.update_of_ne hpr] using halloc
      · simpa [hdiff, TimerManger.free, TimerManger.detach] using hcancelled
  | cancelInBatch id hid hsome =>
      refine ⟨expired, rest, hbatch, halloc, rfl, hmem, hcalled, ?_⟩
      simp only [Bool.or_eq_true, decide_eq_true_eq, hcancelled, OrderedSet.mem_insert]
      rw [or_comm, eq_comm]
  | cancelNothing id hid hnone =>
      rw [hbatch] at hnone
      cases hnone
  | handleRead now' hnone =>
      rw [hbatch] at hnone
      cases hnone
  | call now' expired' entry rest' other hbatch' hother =>
      rw [hbatch] at hbatch'
      cases hbatch'
      refine ⟨expired, rest', rfl, halloc, rfl, hmem, ?_, hcancelled⟩
      simp only [Bool.or_eq_true, decide_eq_true_eq, hcalled, List.mem_cons, not_or]
      have hentry : entry ∈ expired := (h.rest_suffix _ hbatch).subset List.mem_cons_self
      obtain ⟨same, hsame, hexp, -⟩ := hwf.mem_out entry hentry
      rw [hother] at hsame
      cases hsame
      have hnodup : entry ∉ rest' := by
        have hsorted := (h.expired_sorted _ hbatch).sublist (h.rest_suffix _ hbatch).sublist
        intro hin
        exact lt_irrefl _ ((List.pairwise_cons.mp hsorted).1 entry hin)
      constructor
      · rintro (⟨-, hnot⟩ | hseq)
        · exact hnot
        · have hp : entry.second = p := hwf.sequence_inj hother halloc hseq
          rw [hp, halloc] at hother
          cases hother
          have : (⟨timer.expiration, p⟩ : Entry) = entry := by rw [hexp, ← hp]
          rwa [this]
      · intro hnot
        by_cases hhead : (⟨timer.expiration, p⟩ : Entry) = entry
        · subst hhead
          rw [halloc] at hother
          cases hother
          exact Or.inr rfl
        · exact Or.inl ⟨hhead, hnot⟩
  | finish now' expired' m hbatch' hwf' hreq =>
      rw [hbatch] at hbatch'
      cases hbatch'
      have hheap := hreq.heap_out _ hmem timer halloc
      have hkeeps : TimerManger.keeps { s.manger with callingExpiredTimers := false } p timer =
          (timer.recurring && !cancelled) := by
        have : decide ((⟨p, timer.sequence⟩ : ActiveTimer) ∉ s.manger.cancelingTimers) =
            !cancelled := by
          cases cancelled <;> simp_all
        simp only [TimerManger.keeps, this]
      simp only [hkeeps] at hheap
      simp only [Life.step]
      split
      · rename_i hkept
        rw [if_pos hkept] at hheap
        refine ⟨hheap, Timer.restart_sequence _ _, ?_⟩
        rcases hwf'.covered hheap with hactive | hnil
        · rwa [Timer.restart_sequence] at hactive
        · cases hnil
      · rename_i hdropped
        rw [if_neg hdropped] at hheap
        refine ⟨hreq.numCreated_eq ▸ h.wf.sequence_le halloc, ?_⟩
        intro r other hr hseq
        change m.heap r = some other at hr
        by_cases hrp : r = p
        · rw [hrp, hheap] at hr
          cases hr
        · by_cases hrout : r ∈ expired.map Entry.second
          · obtain ⟨e, he, rfl⟩ := List.mem_map.mp hrout
            obtain ⟨before, hbefore, -⟩ := hwf.mem_out e he
            rw [hreq.heap_out e he before hbefore] at hr
            split at hr
            · cases hr
              rw [Timer.restart_sequence] at hseq
              exact hrp (hwf.sequence_inj hbefore halloc hseq)
            · cases hr
          · rw [hreq.heap_other r hrout] at hr
            exact hrp (hwf.sequence_inj hr halloc hseq)

theorem tracks_of_moves (h : s.Inv) {life : Life C D} (ht : s.Tracks q life)
    (hmove : Moves s a s' armed) : s'.Tracks q (life.step q a) := by
  cases life with
  | unborn created => exact tracks_unborn ht hmove
  | waiting p timer => exact tracks_waiting h ht hmove
  | due p timer now called cancelled => exact tracks_due h ht hmove
  | gone => exact tracks_gone h ht hmove

theorem callCount_of_moves (h : s.Inv) {life : Life C D} (ht : s.Tracks q life)
    (hmove : Moves s a s' armed) : s'.callCount q = s.callCount q + life.runs q a := by
  cases hmove with
  | call now expired entry rest timer hbatch halloc =>
      have hwf := h.wf_batch hbatch
      have hentry : entry ∈ expired := (h.rest_suffix _ hbatch).subset List.mem_cons_self
      obtain ⟨same, hsame, hexp, hinactive⟩ := hwf.mem_out entry hentry
      rw [halloc] at hsame
      cases hsame
      have hcount : (⟨s.manger, some ⟨now, expired, rest⟩, s.calls ++ [⟨entry, timer⟩]⟩ :
          System C D).callCount q = s.callCount q + if timer.sequence = q then 1 else 0 := by
        by_cases hq : timer.sequence = q <;> simp [callCount, hq]
      refine hcount.trans (congrArg _ ?_)
      cases life with
      | unborn created =>
          have := hwf.sequence_le halloc
          obtain ⟨rfl, hlt⟩ := ht
          simp only [Life.runs]
          rw [if_neg (by omega)]
      | waiting p other =>
          obtain ⟨hother, rfl, hactive⟩ := ht
          simp only [Life.runs, ite_eq_right_iff, one_ne_zero, imp_false]
          intro hseq
          have hp := hwf.sequence_inj halloc hother hseq
          rw [← hp, ← hseq] at hactive
          exact hinactive hactive
      | due p other now' called cancelled =>
          obtain ⟨expired', rest', hbatch', hother, rfl, hmem, hcalled, -⟩ := ht
          rw [hbatch] at hbatch'
          cases hbatch'
          cases called with
          | false => rfl
          | true =>
              simp only [Life.runs, ite_eq_right_iff, one_ne_zero, imp_false]
              intro hseq
              have hp := hwf.sequence_inj halloc hother hseq
              rw [hp, hother] at halloc
              cases halloc
              apply hcalled.mp rfl
              rw [hexp, ← hp]
              exact List.mem_cons_self
      | gone =>
          simp only [Life.runs]
          rw [if_neg (ht.2 _ _ halloc)]
  | addTimer | cancelActive | cancelInBatch | cancelNothing | handleRead | finish =>
      cases life with
      | due p timer now called cancelled => cases called <;> rfl
      | unborn | waiting | gone => rfl

/-- The timer numbered `q` is at this point of its life, after this many callback runs. -/
def Follows (q : Nat) (s : System C D) (state : Life C D × Nat) : Prop :=
  s.Tracks q state.1 ∧ s.callCount q = state.2

omit [Seconds D] in
theorem follows_initial (q : Nat) : (initial : System C D).Follows q (.start q, 0) := by
  refine ⟨?_, rfl⟩
  unfold Life.start
  split
  · rename_i hq
    exact ⟨Nat.le_of_eq hq, by rintro p timer ⟨⟩⟩
  · rename_i hq
    exact ⟨rfl, Nat.pos_of_ne_zero hq⟩

theorem Follows.of_step (h : s.Inv) {state : Life C D × Nat} (ht : s.Follows q state)
    (hstep : (machine C D).step s a = some s') : s'.Follows q (Life.advance q state a) := by
  obtain ⟨armed, -, hmove⟩ := moves_of_step h hstep
  refine ⟨tracks_of_moves h ht.1 hmove, ?_⟩
  rw [callCount_of_moves h ht.1 hmove, ht.2]
  rfl

theorem Follows.of_run (h : s.Inv) {state : Life C D × Nat} (ht : s.Follows q state)
    {acts : List (Action C D)} (hrun : (machine C D).run s acts = some s') :
    s'.Follows q (acts.foldl (Life.advance q) state) :=
  Machine.run_tracks Inv.of_step (fun h ht hstep => Follows.of_step h ht hstep) h ht hrun

end System

/-! ## Runs of the automaton -/

namespace Life

variable {q n : Nat} {p : Addr} {timer : Timer C D} {acts : List (Action C D)}

theorem foldl_gone : acts.foldl (advance q) (gone, n) = ((gone, n) : Life C D × Nat) := by
  induction acts with
  | nil => rfl
  | cons a acts ih => exact ih

theorem step_eq_unborn {life : Life C D} {a : Action C D} {created : Nat}
    (h : life.step q a = .unborn created) : ∃ before, life = .unborn before := by
  cases life with
  | unborn before => exact ⟨before, rfl⟩
  | waiting p timer =>
      cases a with
      | cancel | handleRead =>
          simp only [step] at h
          split at h <;> cases h
      | addTimer | call | finish => cases h
  | due p timer now called cancelled =>
      cases a with
      | finish =>
          simp only [step] at h
          split at h <;> cases h
      | addTimer | cancel | handleRead | call => cases h
  | gone => cases h

theorem foldl_eq_unborn {state : Life C D × Nat} (h : ∀ k, state.1 = .unborn k → state.2 = 0) :
    ∀ k, (acts.foldl (advance q) state).1 = .unborn k →
      (acts.foldl (advance q) state).2 = 0 := by
  induction acts generalizing state with
  | nil => exact h
  | cons a acts ih =>
      refine ih fun k hk => ?_
      obtain ⟨life, n⟩ := state
      obtain ⟨before, hbefore⟩ := step_eq_unborn hk
      simp only at hbefore
      subst hbefore
      exact h before rfl

theorem foldl_waiting (hcancel : Action.cancel ⟨p, q⟩ ∉ acts)
    (hread : ∀ now, Action.handleRead now ∈ acts → now < timer.expiration) :
    acts.foldl (advance q) (waiting p timer, n) = (waiting p timer, n) := by
  induction acts with
  | nil => rfl
  | cons a acts ih =>
      rw [List.mem_cons, not_or] at hcancel
      have htail := ih hcancel.2 fun now hmem => hread now (List.mem_cons_of_mem a hmem)
      suffices hstep : advance q (waiting p timer, n) a = (waiting p timer, n) by
        rw [List.foldl_cons, hstep, htail]
      cases a with
      | addTimer => rfl
      | cancel id =>
          have hid : id ≠ ⟨p, q⟩ := fun hid => hcancel.1 (hid ▸ rfl)
          simp [advance, step, runs, hid]
      | handleRead now =>
          have hlt := hread now List.mem_cons_self
          simp [advance, step, runs, not_le.mpr hlt]
      | call => rfl
      | finish => rfl

/-- Inside a batch the callback runs at most once, and only cancels leave a mark. -/
theorem foldl_due {now : Timestamp} {called cancelled : Bool} (hfinish : Action.finish ∉ acts) :
    ∃ called' cancelled' n', n' + called.toNat = n + called'.toNat ∧
      (cancelled' = true ↔ cancelled = true ∨ Action.cancel ⟨p, q⟩ ∈ acts) ∧
      acts.foldl (advance q) (due p timer now called cancelled, n) =
        (due p timer now called' cancelled', n') := by
  induction acts generalizing called cancelled n with
  | nil => exact ⟨called, cancelled, n, rfl, by simp, rfl⟩
  | cons a acts ih =>
      rw [List.mem_cons, not_or] at hfinish
      cases a with
      | addTimer r cb expiration interval =>
          obtain ⟨called', cancelled', n', hn, hc, hfold⟩ :=
            @ih n called cancelled hfinish.2
          refine ⟨called', cancelled', n', hn, by simpa using hc, ?_⟩
          cases called <;> exact hfold
      | cancel id =>
          obtain ⟨called', cancelled', n', hn, hc, hfold⟩ :=
            @ih n called (cancelled || decide (id = ⟨p, q⟩)) hfinish.2
          refine ⟨called', cancelled', n', hn, ?_, ?_⟩
          · rw [hc]
            simp only [Bool.or_eq_true, decide_eq_true_eq, List.mem_cons, Action.cancel.injEq]
            rw [or_assoc, @eq_comm _ id]
          · cases called <;> exact hfold
      | handleRead now' =>
          obtain ⟨called', cancelled', n', hn, hc, hfold⟩ :=
            @ih n called cancelled hfinish.2
          refine ⟨called', cancelled', n', hn, by simpa using hc, ?_⟩
          cases called <;> exact hfold
      | call sequence =>
          obtain ⟨called', cancelled', n', hn, hc, hfold⟩ :=
            @ih (n + runs q (due p timer now called cancelled) (.call sequence))
              (called || decide (sequence = q)) cancelled hfinish.2
          refine ⟨called', cancelled', n', ?_, by simpa using hc, hfold⟩
          by_cases hq : sequence = q <;> cases called <;> simp [runs, hq] at hn ⊢ <;> omega
      | finish => exact absurd rfl hfinish.1

end Life

namespace System

variable {s : System C D}

/-- A number that has not been handed out has not run. -/
theorem follows_unborn {acts : List (Action C D)}
    (hrun : (machine C D).run initial acts = some s) :
    s.Follows (s.manger.numCreated + 1) (.unborn s.manger.numCreated, 0) := by
  have hinv : s.Inv := initial_inv.of_run hrun
  have hfollows := (follows_initial (s.manger.numCreated + 1)).of_run initial_inv hrun
  have hzero := @Life.foldl_eq_unborn C D _ (s.manger.numCreated + 1) acts
    (.start (s.manger.numCreated + 1), 0) fun _ _ => rfl
  generalize acts.foldl (Life.advance (s.manger.numCreated + 1)) _ = state at hfollows hzero
  obtain ⟨life, n⟩ := state
  cases life with
  | unborn created =>
      obtain ⟨rfl, -⟩ := hfollows.1
      rw [← hzero _ rfl]
      exact hfollows
  | waiting p timer =>
      obtain ⟨halloc, hseq, -⟩ := hfollows.1
      have := hinv.wf.sequence_le halloc
      omega
  | due p timer now called cancelled =>
      obtain ⟨expired, rest, -, halloc, hseq, -⟩ := hfollows.1
      have := hinv.wf.sequence_le halloc
      omega
  | gone =>
      have := hfollows.1.1
      omega

end System

end Qslary.Timers

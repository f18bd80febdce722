import Qslary.Timers.Lifecycle

/-!
# What one `handleRead` runs, and when a timer runs

A batch runs the callbacks of exactly the timers that were waiting with an
expiration not after `now`, in set order.  Together with the automaton of a single
timer this gives the behaviour over whole runs: a one-shot timer runs in the first
batch whose `now` reaches its expiration and in no other, and a recurring timer goes
back into the queue one interval after `now`.
-/

namespace Qslary.Timers

open Qslary.Foundation

variable {C D : Type} [Seconds D]

namespace System

variable {s s' : System C D} {a : Action C D} {armed : Option Timestamp}

def callsOf (s : System C D) (entries : List Entry) : List (Call C D) :=
  entries.filterMap fun e => (s.manger.heap e.second).map fun timer => ⟨e, timer⟩

omit [Seconds D] in
theorem callsOf_append (s : System C D) (first second : List Entry) :
    s.callsOf (first ++ second) = s.callsOf first ++ s.callsOf second :=
  List.filterMap_append

omit [Seconds D] in
theorem map_entry_callsOf {entries : List Entry}
    (h : ∀ e ∈ entries, ∃ timer, s.manger.heap e.second = some timer) :
    (s.callsOf entries).map Call.entry = entries := by
  induction entries with
  | nil => rfl
  | cons e entries ih =>
      obtain ⟨timer, halloc⟩ := h e List.mem_cons_self
      have htail := ih fun f hf => h f (List.mem_cons_of_mem e hf)
      simp only [callsOf] at htail ⊢
      rw [List.filterMap_cons, halloc]
      simp only [Option.map_some, List.map_cons, htail]

/-- `t` is inside the batch that `s` started, with `ran` run and `rest` to go. -/
structure InBatch (s t : System C D) (now : Timestamp) (ran rest : List Entry) : Prop where
  batch_eq : t.batch = some ⟨now, ran ++ rest, rest⟩
  calls_eq : t.calls = s.calls ++ s.callsOf ran
  heap_eq : ∀ e ∈ ran ++ rest, t.manger.heap e.second = s.manger.heap e.second

theorem InBatch.of_moves {t t' : System C D} {now : Timestamp} {ran rest : List Entry}
    (h : t.Inv) (hin : InBatch s t now ran rest) (hmove : Moves t a t' armed)
    (ha : a ≠ .finish) :
    ∃ ran' rest', ran ++ rest = ran' ++ rest' ∧ InBatch s t' now ran' rest' := by
  have hwf := h.wf_batch hin.batch_eq
  cases hmove with
  | addTimer p cb expiration interval timer htimer hfree hp =>
      refine ⟨ran, rest, rfl, hin.batch_eq, hin.calls_eq, ?_⟩
      intro e he
      have hep := hwf.second_ne_of_free hfree e he
      rw [← hin.heap_eq e he]
      simp [TimerManger.attach, TimerManger.alloc, TimerManger.store, Function.update_of_ne hep]
  | cancelActive p timer halloc hactive =>
      refine ⟨ran, rest, rfl, hin.batch_eq, hin.calls_eq, ?_⟩
      intro e he
      have hep : e.second ≠ p := by
        rintro rfl
        obtain ⟨other, hother, -, hnot⟩ := hwf.mem_out e he
        rw [halloc] at hother
        cases hother
        exact hnot hactive
      rw [← hin.heap_eq e he]
      simp [TimerManger.free, TimerManger.detach, Function.update_of_ne hep]
  | cancelInBatch id hid hbatch => exact ⟨ran, rest, rfl, hin.batch_eq, hin.calls_eq, hin.heap_eq⟩
  | cancelNothing id hid hbatch => exact ⟨ran, rest, rfl, hin⟩
  | handleRead now' hbatch =>
      rw [hin.batch_eq] at hbatch
      cases hbatch
  | call now' expired entry rest' timer hbatch halloc =>
      rw [hin.batch_eq] at hbatch
      cases hbatch
      have hsplit : ran ++ entry :: rest' = (ran ++ [entry]) ++ rest' := by simp
      refine ⟨ran ++ [entry], rest', hsplit, ?_, ?_, ?_⟩
      · rw [← hsplit]
      · have hheap := hin.heap_eq entry (by simp)
        rw [halloc] at hheap
        rw [callsOf_append, ← List.append_assoc, ← hin.calls_eq]
        simp [callsOf, ← hheap]
      · rw [← hsplit]
        exact hin.heap_eq
  | finish now' expired m hbatch hwf' hreq => exact absurd rfl ha

theorem InBatch.of_run {t t' : System C D} {now : Timestamp} {ran rest : List Entry}
    (h : t.Inv) (hin : InBatch s t now ran rest) {body : List (Action C D)}
    (hbody : Action.finish ∉ body) (hrun : (machine C D).run t body = some t') :
    ∃ ran' rest', ran ++ rest = ran' ++ rest' ∧ InBatch s t' now ran' rest' := by
  induction body generalizing t ran rest with
  | nil =>
      cases hrun
      exact ⟨ran, rest, rfl, hin⟩
  | cons a body ih =>
      rw [List.mem_cons, not_or] at hbody
      obtain ⟨mid, hstep, hrest⟩ := (Machine.run_cons_iff _).mp hrun
      obtain ⟨armed, -, hmove⟩ := moves_of_step h hstep
      obtain ⟨ran₁, rest₁, hsplit, hin₁⟩ := hin.of_moves h hmove (Ne.symm hbody.1)
      obtain ⟨ran₂, rest₂, hsplit₂, hin₂⟩ := ih (h.of_moves hmove) hin₁ hbody.2 hrest
      exact ⟨ran₂, rest₂, hsplit.trans hsplit₂, hin₂⟩

theorem expired_eq_filter {m : TimerManger C D} {out : List Entry} (h : WF m out)
    (now : Timestamp) :
    m.expired now = m.timers.toList.filter fun e => decide (e.first ≤ now) := by
  apply List.filter_congr
  intro e he
  have hmem := TimerManger.mem_expired_iff h now e
  simp only [TimerManger.expired, OrderedSet.mem_toList, OrderedSet.mem_below] at hmem
  have he : e ∈ m.timers := he
  simp only [he, true_and] at hmem
  exact decide_eq_decide.mpr hmem

/-- The body of a whole `handleRead`: its start, the callbacks, its end. -/
def handleReadActions (now : Timestamp) (body : List (Action C D)) : List (Action C D) :=
  .handleRead now :: (body ++ [.finish])

theorem run_handleRead (h : s.Inv) {now : Timestamp} {body : List (Action C D)}
    (hbody : Action.finish ∉ body)
    (hrun : (machine C D).run s (handleReadActions now body) = some s') :
    ∃ started mid, s.batch = none ∧ (machine C D).step s (.handleRead now) = some started ∧
      (machine C D).run started body = some mid ∧ (machine C D).step mid .finish = some s' ∧
      InBatch s mid now (s.manger.expired now) [] := by
  obtain ⟨started, hstart, hrest⟩ := (Machine.run_cons_iff _).mp hrun
  obtain ⟨mid, hmid, hlast⟩ := (Machine.run_append_iff _).mp hrest
  have hfinish := (Machine.run_single_iff _).mp hlast
  obtain ⟨armed, -, hmove⟩ := moves_of_step h hstart
  have hinv := h.of_moves hmove
  cases hmove with
  | handleRead _ hbatch =>
      have hin : InBatch s ⟨{ s.manger.expire now with
            callingExpiredTimers := true, cancelingTimers := .empty },
          some ⟨now, s.manger.expired now, s.manger.expired now⟩, s.calls⟩ now []
          (s.manger.expired now) := ⟨rfl, by simp [callsOf], fun e _ => rfl⟩
      obtain ⟨ran, rest, hsplit, hin⟩ := hin.of_run hinv hbody hmid
      obtain ⟨now', expired, hguard⟩ := guard_finish ((Machine.step_eq_some_iff _).mp hfinish).1
      rw [hin.batch_eq] at hguard
      cases hguard
      simp only [List.nil_append, List.append_nil] at hsplit
      subst hsplit
      exact ⟨_, mid, hbatch, hstart, hmid, hfinish, hin⟩

theorem calls_of_handleRead (h : s.Inv) {now : Timestamp} {body : List (Action C D)}
    (hbody : Action.finish ∉ body)
    (hrun : (machine C D).run s (handleReadActions now body) = some s') :
    ∃ ran : List (Call C D), s'.calls = s.calls ++ ran ∧
      ran.map Call.entry = s.manger.timers.toList.filter (fun e => decide (e.first ≤ now)) ∧
      ∀ c ∈ ran, s.manger.heap c.entry.second = some c.timer := by
  obtain ⟨started, mid, hbatch, hstart, hmid, hfinish, hin⟩ := run_handleRead h hbody hrun
  have hinv := (h.of_step hstart).of_run hmid
  obtain ⟨armed, -, hmove⟩ := moves_of_step hinv hfinish
  refine ⟨s.callsOf (s.manger.expired now), ?_, ?_, ?_⟩
  · rw [← hin.calls_eq]
    cases hmove with
    | finish => rfl
  · rw [← expired_eq_filter h.wf now]
    apply map_entry_callsOf
    intro e he
    obtain ⟨timer, halloc, -⟩ :=
      (h.wf.mem_timers e).mp ((TimerManger.mem_expired_iff h.wf now e).mp he).1
    exact ⟨timer, halloc⟩
  · intro c hc
    obtain ⟨e, -, he⟩ := List.mem_filterMap.mp hc
    obtain ⟨timer, halloc, rfl⟩ := Option.map_eq_some_iff.mp he
    exact halloc

/-- From the waiting state to the end of a batch that reaches the expiration. -/
theorem follows_of_handleRead (h : s.Inv) {q n : Nat} {p : Addr} {timer : Timer C D}
    (ht : s.Follows q (.waiting p timer, n)) {now : Timestamp} (hle : timer.expiration ≤ now)
    {body : List (Action C D)} (hbody : Action.finish ∉ body)
    (hrun : (machine C D).run s (handleReadActions now body) = some s') :
    ∃ cancelled : Bool, (cancelled = true ↔ Action.cancel ⟨p, q⟩ ∈ body) ∧
      s'.Follows q (if timer.recurring && !cancelled then .waiting p (timer.restart now)
        else .gone, n + 1) := by
  obtain ⟨started, mid, hbatch, hstart, hmid, hfinish, hin⟩ := run_handleRead h hbody hrun
  have hdue := ht.of_step h hstart
  simp only [Life.advance, Life.step, Life.runs, if_pos hle] at hdue
  obtain ⟨called, cancelled, n', hn, hcancelled, hfold⟩ :=
    @Life.foldl_due C D _ q n p timer body now false false hbody
  have hmidf := hdue.of_run (h.of_step hstart) hmid
  rw [Nat.add_zero, hfold] at hmidf
  have hcalled : called = true := by
    obtain ⟨expired, rest, hb, -, -, -, hcalled, -⟩ := hmidf.1
    rw [hin.batch_eq] at hb
    cases hb
    exact hcalled.mpr List.not_mem_nil
  subst hcalled
  refine ⟨cancelled, by simpa using hcancelled, ?_⟩
  have hend := hmidf.of_step ((h.of_step hstart).of_run hmid) hfinish
  simp only [Life.advance, Life.step, Life.runs] at hend
  have : n' = n + 1 := by simpa using hn
  rwa [this] at hend

theorem follows_waiting (h : s.Inv) (hbatch : s.batch = none) {p : Addr} {timer : Timer C D}
    (halloc : s.manger.heap p = some timer) :
    s.Follows timer.sequence (.waiting p timer, s.callCount timer.sequence) := by
  have hactive : (⟨p, timer.sequence⟩ : ActiveTimer) ∈ s.manger.activeTimers := by
    rcases (h.wf_idle hbatch).covered halloc with hactive | hnil
    · exact hactive
    · cases hnil
  exact ⟨⟨halloc, rfl, hactive⟩, rfl⟩

theorem recurring_of_handleRead (h : s.Inv) {now : Timestamp} {body : List (Action C D)}
    (hbody : Action.finish ∉ body)
    (hrun : (machine C D).run s (handleReadActions now body) = some s') {p : Addr}
    {timer : Timer C D} (halloc : s.manger.heap p = some timer) (hle : timer.expiration ≤ now)
    (hrecurring : timer.recurring = true)
    (hcancel : Action.cancel ⟨p, timer.sequence⟩ ∉ body) :
    s'.manger.heap p = some { timer with expiration := addTime now timer.interval } ∧
    (⟨addTime now timer.interval, p⟩ : Entry) ∈ s'.manger.timers ∧
    (⟨p, timer.sequence⟩ : ActiveTimer) ∈ s'.manger.activeTimers := by
  obtain ⟨started, mid, hbatch, -⟩ := run_handleRead h hbody hrun
  obtain ⟨cancelled, hiff, hafter⟩ :=
    follows_of_handleRead h (follows_waiting h hbatch halloc) hle hbody hrun
  have hfalse : cancelled = false := by
    cases cancelled with
    | false => rfl
    | true => exact absurd (hiff.mp rfl) hcancel
  subst hfalse
  simp only [hrecurring, Bool.not_false, Bool.and_self, if_true] at hafter
  obtain ⟨hheap, -, hmem⟩ := hafter.1
  rw [Timer.restart_of_recurring hrecurring] at hheap
  exact ⟨hheap, (h.of_run hrun).wf.mem_timers_of_active hheap hmem, hmem⟩

theorem oneShot_of_handleRead (h : s.Inv) {now : Timestamp} {body : List (Action C D)}
    (hbody : Action.finish ∉ body)
    (hrun : (machine C D).run s (handleReadActions now body) = some s') {p : Addr}
    {timer : Timer C D} (halloc : s.manger.heap p = some timer) (hle : timer.expiration ≤ now)
    (honeshot : timer.recurring = false) :
    ∀ q other, s'.manger.heap q = some other → other.sequence ≠ timer.sequence := by
  obtain ⟨started, mid, hbatch, -⟩ := run_handleRead h hbody hrun
  obtain ⟨cancelled, -, hafter⟩ :=
    follows_of_handleRead h (follows_waiting h hbatch halloc) hle hbody hrun
  rw [honeshot, Bool.false_and, if_neg Bool.false_ne_true] at hafter
  exact hafter.1.2

end System

/--
No timer is lost, early or run twice.  From every reachable state: a whole
`handleRead` runs exactly the timers present at its start whose expiration is not
after `now`, in set order, and puts a recurring one that was not cancelled meanwhile
back at `addTime now interval` under its old number; and a one-shot timer added there
stays in the queue and does not run while every `now` is before its expiration, runs
once in the first batch that reaches it, and never again.
-/
theorem timers_fire_exactly (acts : List (Action C D)) (s : System C D)
    (hrun : (machine C D).run .initial acts = some s) :
    (∀ now body s', Action.finish ∉ body →
      (machine C D).run s (System.handleReadActions now body) = some s' →
        (∃ ran : List (Call C D), s'.calls = s.calls ++ ran ∧
          ran.map Call.entry = s.manger.timers.toList.filter (fun e => decide (e.first ≤ now)) ∧
          (ran.map Call.entry).Pairwise (· < ·) ∧
          ∀ c ∈ ran, s.manger.heap c.entry.second = some c.timer) ∧
        ∀ p timer, s.manger.heap p = some timer → timer.expiration ≤ now →
          timer.recurring = true → Action.cancel ⟨p, timer.sequence⟩ ∉ body →
            s'.manger.heap p = some { timer with expiration := addTime now timer.interval } ∧
            (⟨addTime now timer.interval, p⟩ : Entry) ∈ s'.manger.timers ∧
            (⟨p, timer.sequence⟩ : ActiveTimer) ∈ s'.manger.activeTimers) ∧
    (∀ p cb expiration interval s₁, Seconds.isPositive interval = false →
      (machine C D).step s (.addTimer p cb expiration interval) = some s₁ →
      ∀ before s₂, (machine C D).run s₁ before = some s₂ →
        Action.cancel ⟨p, s₁.manger.numCreated⟩ ∉ before →
        (∀ now, Action.handleRead now ∈ before → now < expiration) →
          s₂.callCount s₁.manger.numCreated = 0 ∧
          (⟨expiration, p⟩ : Entry) ∈ s₂.manger.timers ∧
          ∀ now body s₃ after s₄, expiration ≤ now → Action.finish ∉ body →
            (machine C D).run s₂ (System.handleReadActions now body) = some s₃ →
            (machine C D).run s₃ after = some s₄ →
              s₃.callCount s₁.manger.numCreated = 1 ∧
              s₄.callCount s₁.manger.numCreated = 1) := by
  have hinv : s.Inv := System.initial_inv.of_run hrun
  constructor
  · intro now body s' hbody hread
    obtain ⟨ran, hcalls, hentries, htimers⟩ := System.calls_of_handleRead hinv hbody hread
    refine ⟨⟨ran, hcalls, hentries, ?_, htimers⟩, ?_⟩
    · rw [hentries]
      exact s.manger.timers.sorted.sublist List.filter_sublist
    intro p timer halloc hle hrecurring hcancel
    exact System.recurring_of_handleRead hinv hbody hread halloc hle hrecurring hcancel
  · intro p cb expiration interval s₁ honeshot hadd before s₂ hbefore hcancel hearly
    have hinv₁ := hinv.of_step hadd
    have hinv₂ := hinv₁.of_run hbefore
    have hborn := (System.follows_unborn hrun).of_step hinv hadd
    have hcreated : s₁.manger.numCreated = s.manger.numCreated + 1 := by
      obtain ⟨armed, -, hmove⟩ := System.moves_of_step hinv hadd
      cases hmove with
      | addTimer _ _ _ _ timer htimer => rw [htimer]; rfl
    rw [hcreated] at hcancel ⊢
    simp only [Life.advance, Life.step, Life.runs, if_true] at hborn
    have hwaiting := hborn.of_run hinv₁ hbefore
    rw [Life.foldl_waiting hcancel hearly] at hwaiting
    obtain ⟨hheap, -, hmem⟩ := hwaiting.1
    refine ⟨hwaiting.2, hinv₂.wf.mem_timers_of_active hheap hmem, ?_⟩
    intro now body s₃ after s₄ hle hbody hread hafter
    obtain ⟨cancelled, -, hdone⟩ := System.follows_of_handleRead hinv₂ hwaiting hle hbody hread
    have hgone : (Timer.new cb expiration interval (s.manger.numCreated + 1)).recurring = false :=
      honeshot
    rw [hgone, Bool.false_and, if_neg Bool.false_ne_true] at hdone
    have hlast := hdone.of_run (hinv₂.of_run hread) hafter
    rw [Life.foldl_gone] at hlast
    exact ⟨hdone.2, hlast.2⟩

/-- A one-second timer fires at 1.0002 s and is put back one second later. -/
theorem timers_fire_exactly_sample :
    ∃ s s', (machine Unit ℚ).run .initial [.runEvery 16 100 1 (), .runAt 32 5000000 ()] = some s ∧
      (machine Unit ℚ).run s (System.handleReadActions 1000200 [.call 1]) = some s' ∧
      (⟨2000200, 16⟩ : Entry) ∈ s'.manger.timers := by
  have hrun : (((machine Unit ℚ).run .initial
      [.runEvery 16 100 1 (), .runAt 32 5000000 ()]).bind fun s =>
        ((machine Unit ℚ).run s (System.handleReadActions 1000200 [.call 1])).map fun _ =>
          s.manger.heap 16) = some (some (Timer.new () 1000100 1 1)) := by decide
  obtain ⟨s, hs, hrest⟩ := Option.bind_eq_some_iff.mp hrun
  obtain ⟨s', hs', hheap⟩ := Option.map_eq_some_iff.mp hrest
  have hfire := (timers_fire_exactly _ s hs).1 1000200 [.call 1] s' (by simp) hs'
  have hback := hfire.2 16 _ hheap (by decide) (by decide) (by simp)
  exact ⟨s, s', hs, hs', hback.2.1⟩

end Qslary.Timers

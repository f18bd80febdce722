import Mathlib.Algebra.BigOperators.Fin
import Mathlib.Algebra.BigOperators.Group.Finset.Piecewise
import Qslary.Reactor.Model

/-!
# When `readTimerfd` finds an expiration

The readiness of the descriptor is seen when `handleRead` is queued and used up when
it runs.  `reads` counts the calls of `readTimerfd` in between: those a worker is about
to queue, and the queued or running fibers that have not come to it.  If a report and a
`timerfd_settime` come only when there are none, then at most one is ever under way and
the expiration it was queued for is still unread.
-/

namespace Qslary.Reactor

open Qslary.Foundation
open Qslary.Scheduler (Pc Chore Advances Moves)

variable {n : Nat} {U D : Type}

def pcReads : Pc (Work U) → Nat
  | .dispatch chores => choreReads chores
  | .dispatching _ chores => choreReads chores
  | _ => 0

namespace State

/-- The fiber is to call `readTimerfd`. -/
def awaits (s : State n U D) (f : Nat) : Prop :=
  isRead (s.scheduler.fibers f).task = true ∧ s.stage f = .start

instance (s : State n U D) (f : Nat) : Decidable (s.awaits f) :=
  inferInstanceAs (Decidable (_ ∧ _))

def reads (s : State n U D) : Nat :=
  ∑ w, pcReads (s.scheduler.pc w) +
    ((Finset.range s.scheduler.nextId).filter fun f => s.awaits f).card

/-- The `reset` that worker `w` comes to arms the descriptor. -/
def rearms [Timers.Seconds D] (s : State n U D) (w : Fin n) : Bool :=
  match (s.reader w).map s.stage with
  | some (.calling ⟨now, expired, _⟩) =>
      match { s.manger with callingExpiredTimers := false }.reset expired now with
      | .ok (_, some _) => true
      | _ => false
  | _ => false

/--
`epoll_wait` reports the descriptor, and `timerfd_settime` is called, only while no
`readTimerfd` is under way; and no timer's callback yields to `READY`, as `run` would
queue `handleRead` once more.
-/
def Orderly [Timers.Seconds D] (s : State n U D) : Action n U D → Prop
  | .scheduler (.epollWait _ reports) =>
      0 < choreReads (reports.flatMap Scheduler.Report.chores) → s.reads = 0
  | .scheduler (.call w .yieldToReady) => s.reader w = none
  | .addTimer _ _ _ expiration _ _ => s.manger.earliestChanged expiration = true → s.reads = 0
  | .reset w _ => s.rearms w = true → s.reads = 0
  | _ => True

instance [Timers.Seconds D] (s : State n U D) : ∀ a, Decidable (s.Orderly a)
  | .scheduler (.epollWait _ reports) =>
      inferInstanceAs (Decidable
        (0 < choreReads (reports.flatMap Scheduler.Report.chores) → s.reads = 0))
  | .scheduler (.call w .yieldToReady) => inferInstanceAs (Decidable (s.reader w = none))
  | .scheduler (.call _ (.scheduler _)) => .isTrue trivial
  | .scheduler (.call _ (.schedulerFiber _)) => .isTrue trivial
  | .scheduler (.call _ .yieldToHold) => .isTrue trivial
  | .scheduler (.call _ (.finish _)) => .isTrue trivial
  | .scheduler (.scheduler _) => .isTrue trivial
  | .scheduler (.schedulerFiber _) => .isTrue trivial
  | .scheduler (.wakeup _) => .isTrue trivial
  | .scheduler .stop => .isTrue trivial
  | .scheduler .stopClean => .isTrue trivial
  | .scheduler (.advance _) => .isTrue trivial
  | .addTimer _ _ _ expiration _ _ =>
      inferInstanceAs (Decidable (s.manger.earliestChanged expiration = true → s.reads = 0))
  | .reset w _ => inferInstanceAs (Decidable (s.rearms w = true → s.reads = 0))
  | .expire => .isTrue trivial
  | .cancel _ _ => .isTrue trivial
  | .readTimerfd _ _ => .isTrue trivial
  | .getExpired _ => .isTrue trivial
  | .call _ => .isTrue trivial

structure Inv (s : State n U D) : Prop where
  reads_le : s.reads ≤ 1
  expired : 0 < s.reads → s.timerfd = .expired
  bounded : s.scheduler.Bounded
  cb_eq : ∀ f < s.scheduler.nextId, (s.scheduler.fibers f).cb = none ∨
    (s.scheduler.fibers f).cb = (s.scheduler.fibers f).task
  ready : ∀ f < s.scheduler.nextId, (s.scheduler.fibers f).state = .READY →
    isRead (s.scheduler.fibers f).task = false
  requeue : ∀ w f, s.scheduler.pc w = .requeue f → isRead (s.scheduler.fibers f).task = false

theorem constructed_reads : (constructed : State n U D).reads = 0 := by
  simp only [reads, constructed, Scheduler.State.started, pcReads, Finset.sum_const_zero]
  rfl

theorem constructed_inv : (constructed : State n U D).Inv where
  reads_le := by rw [constructed_reads]; decide
  expired := by rw [constructed_reads]; exact fun h => absurd h (Nat.lt_irrefl 0)
  bounded := Scheduler.State.started_bounded
  cb_eq := fun _ _ => .inl rfl
  ready := fun _ _ => nofun
  requeue := fun _ _ => nofun

/-! ## Counting -/

variable {s s' : State n U D} {w : Fin n} {f : Nat}

theorem sum_update (pc : Fin n → Pc (Work U)) (w : Fin n) (p : Pc (Work U)) :
    ∑ v, pcReads (Function.update pc w p v) + pcReads (pc w) =
      ∑ v, pcReads (pc v) + pcReads p := by
  have hfun : (fun v => pcReads (Function.update pc w p v)) =
      Function.update (fun v => pcReads (pc v)) w (pcReads p) := by
    funext v
    by_cases hv : v = w
    · subst hv
      simp
    · simp [hv]
  rw [hfun, Finset.sum_update_of_mem (Finset.mem_univ w),
    Finset.sum_eq_add_sum_sdiff_singleton_of_mem (Finset.mem_univ w) fun v => pcReads (pc v)]
  omega

theorem card_awaits_le {t : State n U D}
    (h : ∀ f < t.scheduler.nextId, t.awaits f → f < s.scheduler.nextId ∧ s.awaits f) :
    ((Finset.range t.scheduler.nextId).filter fun f => t.awaits f).card ≤
      ((Finset.range s.scheduler.nextId).filter fun f => s.awaits f).card := by
  apply Finset.card_le_card
  intro f hf
  rw [Finset.mem_filter, Finset.mem_range] at hf ⊢
  exact h f hf.1 hf.2

theorem sum_goto_le {pc : Fin n → Pc (Work U)} {p : Pc (Work U)}
    (hp : pcReads p ≤ pcReads (pc w)) :
    ∑ v, pcReads (Function.update pc w p v) ≤ ∑ v, pcReads (pc v) := by
  have hsum := sum_update pc w p
  omega

/-! ## Steps of the scheduler -/

section Scheduler

variable {scheduler : Scheduler.State n (Work U)}

theorem advances_pc {kind : Scheduler.Kind} (h : Advances kind s.scheduler w scheduler) :
    ∃ p, scheduler.pc = Function.update s.scheduler.pc w p ∧
      pcReads p ≤ pcReads (s.scheduler.pc w) ∧
      ∀ f, p = .requeue f → (s.scheduler.fibers f).state = .READY := by
  cases h with
  | wake hpc hk =>
      refine ⟨_, rfl, ?_, ?_⟩
      · generalize s.scheduler.pc w = q at hpc
        cases hpc with
        | dispatching hp => rcases hp with rfl | ⟨next, rfl⟩ <;> exact Nat.le_refl _
        | found hp => rcases hp with rfl | ⟨next, rfl⟩ <;> exact Nat.zero_le _
        | spawning hp => rcases hp with rfl | ⟨next, rfl⟩ <;> exact Nat.zero_le _
        | requeued hp => rcases hp with rfl | ⟨next, rfl⟩ <;> exact Nat.zero_le _
      · rintro f rfl
        generalize s.scheduler.pc w = q at hpc
        cases hpc with
        | dispatching hp => rcases hp with hp | ⟨next, hp⟩ <;> cases hp
        | found hp => rcases hp with hp | ⟨next, hp⟩ <;> cases hp
        | spawning hp => rcases hp with hp | ⟨next, hp⟩ <;> cases hp
        | requeued hp => rcases hp with hp | ⟨next, hp⟩ <;> cases hp
  | @push p callbacks hpc =>
      refine ⟨p, ?_, ?_, ?_⟩
      · rw [← Scheduler.State.enqueue_pc (s := s.scheduler) callbacks]
        rfl
      · generalize s.scheduler.pc w = q at hpc
        cases hpc with
        | requeue hp => rcases hp with rfl | rfl <;> exact Nat.zero_le _
        | dispatch hp =>
            rcases hp with rfl | rfl <;> exact List.Sublist.countP_le (List.sublist_cons_self _ _)
      · rintro f rfl
        generalize s.scheduler.pc w = q at hpc
        cases hpc with
        | requeue hp => rcases hp with hp | hp <;> cases hp
        | dispatch hp => rcases hp with hp | hp <;> cases hp
  | ready hpc hstate =>
      refine ⟨_, rfl, Nat.zero_le _, ?_⟩
      rintro f ⟨⟩
      exact hstate
  | drain hpc =>
      refine ⟨_, rfl, ?_, nofun⟩
      rw [hpc]
      exact List.Sublist.countP_le (List.sublist_cons_self _ _)
  | _ => exact ⟨_, rfl, Nat.zero_le _, nofun⟩

/-- No fiber is made, and none of a `handleRead` becomes `READY` or is queued again. -/
theorem Inv.keep (h : s.Inv) (hnext : scheduler.nextId = s.scheduler.nextId)
    (htask : ∀ f, (scheduler.fibers f).task = (s.scheduler.fibers f).task)
    (hcb : ∀ f, (scheduler.fibers f).cb = none ∨
      (scheduler.fibers f).cb = (s.scheduler.fibers f).cb)
    (hready : ∀ f < s.scheduler.nextId, (scheduler.fibers f).state = .READY →
      isRead (s.scheduler.fibers f).task = false)
    (hsum : ∑ v, pcReads (scheduler.pc v) ≤ ∑ v, pcReads (s.scheduler.pc v))
    (hrequeue : ∀ v f, f < s.scheduler.nextId → scheduler.pc v = .requeue f →
      isRead (s.scheduler.fibers f).task = false)
    (hbounded : scheduler.Bounded) : { s with scheduler := scheduler }.Inv := by
  have hcard := card_awaits_le (s := s) (t := { s with scheduler := scheduler }) (by
    intro f hf hawaits
    rw [awaits, htask] at hawaits
    exact ⟨hnext ▸ hf, hawaits⟩)
  have hle : { s with scheduler := scheduler }.reads ≤ s.reads := Nat.add_le_add hsum hcard
  refine ⟨hle.trans h.reads_le, fun hpos => h.expired (hpos.trans_le hle), hbounded, ?_, ?_, ?_⟩
  · intro f hf
    rw [htask]
    rcases hcb f with hnone | hsame
    · exact .inl hnone
    · rw [hsame]
      exact h.cb_eq f (hnext ▸ hf)
  · intro f hf hstate
    rw [htask]
    exact hready f (hnext ▸ hf) hstate
  · intro v f hv
    rw [htask]
    exact hrequeue v f (hnext ▸ hbounded.pc_lt v f (congrArg Pc.fiber? hv)) hv

theorem Inv.frames {p : Pc (Work U)} (h : s.Inv) (hframes : s.scheduler.Frames scheduler)
    (hpc : scheduler.pc = Function.update s.scheduler.pc w p)
    (hreads : pcReads p ≤ pcReads (s.scheduler.pc w))
    (hrequeue : ∀ f, p = .requeue f → (s.scheduler.fibers f).state = .READY)
    (hbounded : scheduler.Bounded) : { s with scheduler := scheduler }.Inv := by
  refine h.keep hframes.nextId_eq hframes.task_eq hframes.cb_eq
    (fun f hf hstate => h.ready f hf (hframes.ready f hstate)) (hpc ▸ sum_goto_le hreads) ?_
    hbounded
  intro v f hf hv
  rw [hpc] at hv
  by_cases hvw : v = w
  · rw [hvw, Function.update_self] at hv
    exact h.ready f hf (hrequeue f hv)
  · rw [Function.update_of_ne hvw] at hv
    exact h.requeue v f hv

/-- The workers stay where they are. -/
theorem Inv.still (h : s.Inv) (hnext : scheduler.nextId = s.scheduler.nextId)
    (hfibers : scheduler.fibers = s.scheduler.fibers) (hpc : scheduler.pc = s.scheduler.pc)
    (hbounded : scheduler.Bounded) : { s with scheduler := scheduler }.Inv := by
  have hframes : s.scheduler.Frames scheduler := .same hnext hfibers
  refine h.keep hnext hframes.task_eq hframes.cb_eq
    (fun f hf hstate => h.ready f hf (hframes.ready f hstate)) (Nat.le_of_eq (by rw [hpc])) ?_
    hbounded
  intro v f hf hv
  rw [hpc] at hv
  exact h.requeue v f hv

/-- The new fiber awaits the descriptor if it was made for `handleRead`. -/
theorem card_awaits_push (s : State n U D) (cb : Option (Work U)) :
    let s' := { s with scheduler := (s.scheduler.schedulerNoLock cb).1 }
    ((Finset.range s'.scheduler.nextId).filter fun f => s'.awaits f).card ≤
      ((Finset.range s.scheduler.nextId).filter fun f => s.awaits f).card +
        (isRead cb).toNat := by
  intro s'
  have hold : ∀ f < s.scheduler.nextId, s'.awaits f → s.awaits f := by
    intro f hf hawaits
    simpa [awaits, s', Scheduler.State.schedulerNoLock, Scheduler.State.setFiber,
      Function.update_of_ne (Nat.ne_of_lt hf)] using hawaits
  have hrange : s'.scheduler.nextId = s.scheduler.nextId + 1 := rfl
  rw [hrange, Finset.range_add_one, Finset.filter_insert]
  have hcard : ((Finset.range s.scheduler.nextId).filter fun f => s'.awaits f).card ≤
      ((Finset.range s.scheduler.nextId).filter fun f => s.awaits f).card := by
    apply Finset.card_le_card
    intro f hf
    rw [Finset.mem_filter, Finset.mem_range] at hf ⊢
    exact ⟨hf.1, hold f hf.1 hf.2⟩
  split
  · rename_i hawaits
    have hread : isRead cb = true := by
      simpa [awaits, s', Scheduler.State.schedulerNoLock, Scheduler.State.setFiber]
        using hawaits.1
    rw [hread]
    exact (Finset.card_insert_le _ _).trans (Nat.succ_le_succ hcard)
  · exact hcard.trans (Nat.le_add_right _ _)

/-- A fiber is made; what the workers and the other fibers stand for is as before. -/
theorem Inv.push {cb : Option (Work U)} (h : s.Inv)
    (hreads : { s with scheduler := (s.scheduler.schedulerNoLock cb).1 }.reads ≤ 1)
    (hexpired : 0 < { s with scheduler := (s.scheduler.schedulerNoLock cb).1 }.reads →
      s.timerfd = .expired) :
    { s with scheduler := (s.scheduler.schedulerNoLock cb).1 }.Inv := by
  have hcases : ∀ f < s.scheduler.nextId + 1,
      ((s.scheduler.schedulerNoLock cb).1.fibers f = s.scheduler.fibers f ∧
        f < s.scheduler.nextId) ∨
      (s.scheduler.schedulerNoLock cb).1.fibers f = { task := cb, cb := cb } := by
    intro f hf
    by_cases heq : f = s.scheduler.nextId
    · right
      rw [heq]
      exact Function.update_self _ _ _
    · left
      exact ⟨Function.update_of_ne heq _ _, by omega⟩
  refine ⟨hreads, hexpired, h.bounded.enqueue [cb], ?_, ?_, ?_⟩
  · intro f hf
    rcases hcases f hf with ⟨heq, hf⟩ | heq
    · simp only [heq]
      exact h.cb_eq f hf
    · exact .inr (by simp only [heq])
  · intro f hf hready
    rcases hcases f hf with ⟨heq, hf⟩ | heq
    · simp only [heq] at hready ⊢
      exact h.ready f hf hready
    · simp only [heq] at hready
      cases hready
  · intro v f hv
    have hlt : f < s.scheduler.nextId := h.bounded.pc_lt v f (congrArg Pc.fiber? hv)
    have heq : (s.scheduler.schedulerNoLock cb).1.fibers f = s.scheduler.fibers f :=
      Function.update_of_ne (Nat.ne_of_lt hlt) _ _
    simp only [heq]
    exact h.requeue v f hv

/-- Callbacks other than `handleRead` are pushed. -/
theorem Inv.enqueue {callbacks : List (Option (Work U))} (h : s.Inv)
    (hcallbacks : ∀ cb ∈ callbacks, isRead cb = false) :
    { s with scheduler := (s.scheduler.enqueue callbacks).1 }.Inv := by
  induction callbacks generalizing s with
  | nil => exact h
  | cons cb callbacks ih =>
      have hle : { s with scheduler := (s.scheduler.schedulerNoLock cb).1 }.reads ≤ s.reads := by
        have hcard := card_awaits_push s cb
        rw [hcallbacks cb List.mem_cons_self, Bool.toNat_false, Nat.add_zero] at hcard
        exact Nat.add_le_add_left hcard _
      have hpush := h.push (hle.trans h.reads_le) fun hpos => h.expired (hpos.trans_le hle)
      exact ih hpush fun cb hcb => hcallbacks cb (List.mem_cons_of_mem _ hcb)

theorem Inv.goto {p : Pc (Work U)} (h : s.Inv)
    (hreads : pcReads p ≤ pcReads (s.scheduler.pc w)) (hrequeue : ∀ f, p ≠ .requeue f)
    (hbounded : (s.scheduler.goto w p).Bounded) :
    { s with scheduler := s.scheduler.goto w p }.Inv :=
  h.frames (.same rfl rfl) rfl hreads (fun f hf => absurd hf (hrequeue f)) hbounded

/-- What a worker had to queue it has queued: the count stays. -/
theorem Inv.schedule {p : Pc (Work U)} {cb : Option (Work U)}
    {chores : List (Chore (Work U))} (h : s.Inv)
    (hpc : s.scheduler.pc w = .dispatch (.schedule cb :: chores))
    (hp : p = .dispatch chores ∨ p = .dispatching .test chores) :
    { s with scheduler := (s.scheduler.schedulerNoLock cb).1.goto w p }.Inv := by
  have hcount : pcReads p + (isRead cb).toNat = pcReads (s.scheduler.pc w) := by
    rw [hpc]
    rcases hp with rfl | rfl <;> cases hcb : isRead cb <;> simp [pcReads, choreReads, hcb]
  -- The worker goes on first, so that the fiber it makes is not counted twice.
  let gone : State n U D := { s with scheduler := s.scheduler.goto w p }
  have hgone : gone.Inv := by
    refine h.goto (Nat.le_of_add_right_le (Nat.le_of_eq hcount)) ?_ ?_
    · rcases hp with rfl | rfl <;> exact nofun
    · exact h.bounded.goes rfl rfl (fun f hf => hf) (by rcases hp with rfl | rfl <;> exact nofun)
  have hle : { gone with scheduler := (gone.scheduler.schedulerNoLock cb).1 }.reads ≤
      s.reads := by
    have hcard := card_awaits_push gone cb
    have hsum := sum_update s.scheduler.pc w p
    have hreads : s.reads = ∑ v, pcReads (s.scheduler.pc v) +
        ((Finset.range s.scheduler.nextId).filter fun f => s.awaits f).card := rfl
    have hgoal : { gone with scheduler := (gone.scheduler.schedulerNoLock cb).1 }.reads ≤
        ∑ v, pcReads (Function.update s.scheduler.pc w p v) +
          (((Finset.range s.scheduler.nextId).filter fun f => s.awaits f).card +
            (isRead cb).toNat) := Nat.add_le_add_left hcard _
    omega
  exact hgone.push (hle.trans h.reads_le) fun hpos => h.expired (hpos.trans_le hle)

theorem Inv.advances (h : s.Inv)
    (hexec : s.scheduler.advance .ioManager w = .ok scheduler)
    (hadv : Advances .ioManager s.scheduler w scheduler) :
    { s with scheduler := scheduler }.Inv := by
  have hbounded := h.bounded.advances hadv
  rcases hadv.frames with hframes | ⟨callbacks, p, hpushes, heq⟩
  · obtain ⟨p, hpc, hreads, hrequeue⟩ := advances_pc hadv
    exact h.frames hframes hpc hreads hrequeue hbounded
  · generalize hq : s.scheduler.pc w = q at hpushes
    cases hpushes with
    | @requeue f p hp =>
        obtain ⟨p, hp, rfl⟩ := Scheduler.State.advance_requeue hq hexec
        have hf := h.bounded.pc_lt w f (congrArg Pc.fiber? hq)
        have hcb : isRead (s.scheduler.fibers f).cb = false := by
          rcases h.cb_eq f hf with hcb | hcb
          · rw [hcb]
            rfl
          · rw [hcb]
            exact h.requeue w f hq
        have hcbs : ∀ cb ∈ [(s.scheduler.fibers f).cb], isRead cb = false := by simpa using hcb
        have hpush := h.enqueue hcbs
        refine hpush.goto ?_ ?_ hbounded
        · rcases hp with rfl | rfl <;> exact Nat.zero_le _
        · rcases hp with rfl | rfl <;> exact nofun
    | @dispatch cb chores p hp =>
        obtain ⟨p, hp, rfl⟩ := Scheduler.State.advance_schedule hq hexec
        exact h.schedule hq hp

theorem Inv.epollWait {reports : List (Scheduler.Report (Work U))} (h : s.Inv)
    (hadmits : s.admits (.epollWait w reports) = true)
    (horderly : 0 < choreReads (reports.flatMap Scheduler.Report.chores) → s.reads = 0)
    (hpc : s.scheduler.pc w = .waiting) :
    { s with scheduler :=
      s.scheduler.goto w (.dispatch (reports.flatMap Scheduler.Report.chores)) }.Inv := by
  set chores := reports.flatMap Scheduler.Report.chores
  have hreads : { s with scheduler := s.scheduler.goto w (.dispatch chores) }.reads =
      s.reads + choreReads chores := by
    have hsum := sum_update s.scheduler.pc w (.dispatch chores)
    rw [hpc] at hsum
    have hzero : pcReads (Pc.waiting : Pc (Work U)) = 0 := rfl
    have hone : pcReads (.dispatch chores) = choreReads chores := rfl
    have hgoal : { s with scheduler := s.scheduler.goto w (.dispatch chores) }.reads =
        ∑ v, pcReads (Function.update s.scheduler.pc w (.dispatch chores) v) +
          ((Finset.range s.scheduler.nextId).filter fun f => s.awaits f).card := rfl
    have hold : s.reads = ∑ v, pcReads (s.scheduler.pc v) +
        ((Finset.range s.scheduler.nextId).filter fun f => s.awaits f).card := rfl
    omega
  have hadmits : choreReads chores ≤ if s.timerfd = .expired then 1 else 0 :=
    of_decide_eq_true hadmits
  refine ⟨?_, ?_, ?_, h.cb_eq, h.ready, ?_⟩
  · rw [hreads]
    have := h.reads_le
    split at hadmits <;> omega
  · rw [hreads]
    intro hpos
    by_cases hnone : choreReads chores = 0
    · exact h.expired (by omega)
    · split at hadmits
      · assumption
      · omega
  · exact h.bounded.goes rfl rfl (fun f hf => hf) (by exact nofun)
  · intro v f hv
    by_cases hvw : v = w
    · subst hvw
      simp [Scheduler.State.goto] at hv
    · simp only [Scheduler.State.goto, Function.update_of_ne hvw] at hv
      exact h.requeue v f hv

theorem Inv.moves [Timers.Seconds D] {a : Scheduler.Action n (Work U)} (h : s.Inv)
    (hadmits : s.admits a = true) (horderly : s.Orderly (.scheduler a))
    (hexec : s.scheduler.exec .ioManager a = .ok scheduler)
    (hmoves : Moves .ioManager s.scheduler a scheduler) :
    { s with scheduler := scheduler }.Inv := by
  have hbounded := h.bounded.moves hmoves
  cases hmoves with
  | scheduler callbacks outside =>
      simp only [admits, List.all_eq_true, Bool.not_eq_true'] at hadmits
      exact (h.enqueue hadmits).still rfl rfl rfl hbounded
  | schedulerFiber hf => exact h.still rfl rfl rfl hbounded
  | advance hadv => exact h.advances hexec hadv
  | epollWait hpc => exact h.epollWait hadmits horderly hpc
  | @spawn w f p callbacks hpc hp =>
      simp only [admits, Bool.and_eq_true, List.all_eq_true, Bool.not_eq_true'] at hadmits
      refine (h.enqueue hadmits.2).goto ?_ ?_ hbounded
      · rcases hp with rfl | rfl <;> exact Nat.zero_le _
      · rcases hp with rfl | rfl <;> exact nofun
  | spawnFiber hpc hg => exact h.still rfl rfl rfl hbounded
  | yieldToHold hpc =>
      exact h.frames (.update rfl rfl rfl (.inr rfl) nofun) rfl (Nat.zero_le _) nofun hbounded
  | @yieldToReady w f hpc =>
      have hother : isRead (s.scheduler.fibers f).task = false := by
        have hreader : s.reader w = none := horderly
        simpa [reader, Scheduler.State.current, hpc, Option.filter] using hreader
      have hat : ∀ g, (Function.update s.scheduler.fibers f
          { s.scheduler.fibers f with state := .READY } g).task = (s.scheduler.fibers g).task ∧
          (Function.update s.scheduler.fibers f
            { s.scheduler.fibers f with state := .READY } g).cb = (s.scheduler.fibers g).cb ∧
          (g ≠ f → Function.update s.scheduler.fibers f
            { s.scheduler.fibers f with state := .READY } g = s.scheduler.fibers g) := by
        intro g
        by_cases hg : g = f
        · subst hg
          simp
        · simp [hg]
      refine h.keep rfl (fun g => (hat g).1) (fun g => .inr (hat g).2.1) ?_
        (sum_goto_le (Nat.zero_le _)) ?_ hbounded
      · intro g hg hstate
        by_cases heq : g = f
        · rw [heq]
          exact hother
        · rw [show ((s.scheduler.setState f .READY).goto w (.out f)).fibers g = _ from
            (hat g).2.2 heq] at hstate
          exact h.ready g hg hstate
      · intro v g hg hv
        by_cases hvw : v = w
        · subst hvw
          simp [Scheduler.State.goto] at hv
        · simp only [Scheduler.State.goto, Function.update_of_ne hvw] at hv
          exact h.requeue v g hv
  | finish thrown hpc =>
      cases thrown with
      | false =>
          exact h.frames (.update rfl rfl rfl (.inl rfl) nofun) rfl (Nat.zero_le _) nofun hbounded
      | true =>
          exact h.frames (.update rfl rfl rfl (.inr rfl) nofun) rfl (Nat.zero_le _) nofun hbounded
  | _ => exact h.still rfl rfl rfl hbounded

end Scheduler

/-! ## Steps of `handleRead` and of the timers -/

theorem timersOp_eq_ok {α : Type} {result : Except Timers.Fault α} {value : α}
    (h : timersOp result = .ok value) : result = .ok value := by
  cases result with
  | error fault => cases h
  | ok other =>
      cases h
      rfl

theorem reader_eq_some (h : s.reader w = some f) :
    s.scheduler.pc w = .exec f ∧ isRead (s.scheduler.fibers f).task = true := by
  obtain ⟨hcurrent, hread⟩ := Option.filter_eq_some_iff.mp h
  exact ⟨Scheduler.State.current_eq_some hcurrent, hread⟩

/-- The scheduler is left alone, and the stage of no fiber goes back to the start. -/
theorem reads_le_of_stage {t : State n U D} (hscheduler : t.scheduler = s.scheduler)
    (hstage : ∀ f, t.stage f = .start → s.stage f = .start) : t.reads ≤ s.reads := by
  have hcard := card_awaits_le (s := s) (t := t) (by
    intro f hf hawaits
    rw [awaits, hscheduler] at hawaits
    exact ⟨hscheduler ▸ hf, hawaits.1, hstage f hawaits.2⟩)
  unfold reads
  rw [hscheduler] at hcard ⊢
  exact Nat.add_le_add_left hcard _

theorem Inv.timers (h : s.Inv) (hscheduler : s'.scheduler = s.scheduler)
    (hreads : s'.reads ≤ s.reads) (hexpired : 0 < s'.reads → s'.timerfd = .expired) :
    s'.Inv := by
  refine ⟨hreads.trans h.reads_le, hexpired, ?_, ?_, ?_, ?_⟩
  · rw [hscheduler]
    exact h.bounded
  · rw [hscheduler]
    exact h.cb_eq
  · rw [hscheduler]
    exact h.ready
  · rw [hscheduler]
    exact h.requeue

theorem stage_setStage {stage : Stage} (hstage : stage ≠ .start) {g : Nat}
    (hg : (s.setStage f stage).stage g = .start) : s.stage g = .start := by
  by_cases heq : g = f
  · subst heq
    simp only [setStage, Function.update_self] at hg
    exact absurd hg hstage
  · simpa only [setStage, Function.update_of_ne heq] using hg

/-- The call that is made is one of those counted. -/
theorem Inv.pos_of_reader (h : s.Inv) (hreader : s.reader w = some f)
    (hstage : s.stage f = .start) : 0 < s.reads := by
  obtain ⟨hpc, hread⟩ := reader_eq_some hreader
  have hf : f < s.scheduler.nextId := h.bounded.pc_lt w f (congrArg Pc.fiber? hpc)
  have hmem : f ∈ (Finset.range s.scheduler.nextId).filter fun f => s.awaits f :=
    Finset.mem_filter.mpr ⟨Finset.mem_range.mpr hf, hread, hstage⟩
  exact Nat.lt_of_lt_of_le (Finset.card_pos.mpr ⟨f, hmem⟩) (Nat.le_add_left _ _)

theorem reads_lt_of_read {stage : Stage} {timerfd : Timers.Timerfd}
    (hf : f < s.scheduler.nextId) (hawaits : s.awaits f) (hstage : stage ≠ .start) :
    ({ s with timerfd := timerfd }.setStage f stage).reads < s.reads := by
  apply Nat.add_lt_add_left
  apply Finset.card_lt_card
  rw [Finset.ssubset_iff_of_subset]
  · refine ⟨f, Finset.mem_filter.mpr ⟨Finset.mem_range.mpr hf, hawaits⟩, fun hmem => ?_⟩
    have hafter := (Finset.mem_filter.mp hmem).2.2
    simp only [setStage, Function.update_self] at hafter
    exact hstage hafter
  · intro g hg
    rw [Finset.mem_filter] at hg ⊢
    exact ⟨hg.1, hg.2.1, stage_setStage (s := { s with timerfd := timerfd }) hstage hg.2.2⟩

/-- A fiber gets on in `handleRead`; the descriptor is armed only if nothing is under way. -/
theorem Inv.setStage {stage : Stage} {mid : State n U D} (h : s.Inv)
    (hscheduler : mid.scheduler = s.scheduler) (hsame : mid.stage = s.stage)
    (hexpired : 0 < s.reads → mid.timerfd = .expired) (hstage : stage ≠ .start) :
    (mid.setStage f stage).Inv := by
  have hle : (mid.setStage f stage).reads ≤ s.reads := by
    refine reads_le_of_stage hscheduler fun g hg => ?_
    rw [← hsame]
    exact stage_setStage hstage hg
  exact h.timers hscheduler hle fun hpos => hexpired (hpos.trans_le hle)

section Timers

variable [Timers.Seconds D]

omit [Timers.Seconds D] in
theorem earliestChanged_of_insert {m m' : Timers.TimerManger U D} {p : Timers.Addr}
    {timer : Timers.Timer U D} {changed : Bool} (hp : m.heap p = some timer)
    (h : m.insert p = .ok (m', changed)) : changed = m.earliestChanged timer.expiration := by
  obtain ⟨-, -, h⟩ := bind_eq_ok.mp h
  obtain ⟨found, hfound, h⟩ := bind_eq_ok.mp h
  obtain ⟨-, -, h⟩ := bind_eq_ok.mp h
  obtain ⟨-, -, h⟩ := bind_eq_ok.mp h
  obtain ⟨-, -, h⟩ := bind_eq_ok.mp h
  simp only [Timers.TimerManger.deref, hp] at hfound
  cases hfound
  cases h
  rfl

theorem earliestChanged_of_addTimer {m m' : Timers.TimerManger U D} {p : Timers.Addr} {cb : U}
    {expiration t : Timers.Timestamp} {interval : D} {id : Timers.TimerId}
    (h : m.addTimer p cb expiration interval = .ok (m', id, some t)) :
    m.earliestChanged expiration = true := by
  obtain ⟨⟨inserted, changed⟩, hinsert, h⟩ := bind_eq_ok.mp h
  have hchanged := earliestChanged_of_insert (Function.update_self p _ m.heap) hinsert
  cases changed with
  | true => exact hchanged.symm
  | false => cases h

theorem Inv.of_step {a : Action n U D} (h : s.Inv) (horderly : s.Orderly a)
    (hstep : (machine n U D).step s a = some s') : s'.Inv := by
  obtain ⟨hguard, hexec⟩ := (machine n U D).step_eq_some_iff.mp hstep
  simp only [machine] at hguard hexec
  cases a with
  | scheduler action =>
      simp only [guard, Bool.and_eq_true] at hguard
      simp only [exec] at hexec
      split at hexec
      · rename_i scheduler hscheduler
        cases hexec
        have hmoves := Scheduler.moves_of_step
          ((Scheduler.machine .ioManager n (Work U)).step_eq_some_iff.mpr
            ⟨hguard.1, hscheduler⟩)
        exact h.moves hguard.2 horderly hscheduler hmoves
      · cases hexec
  | expire =>
      cases hexec
      exact h.timers rfl (reads_le_of_stage rfl fun _ hf => hf) fun _ => rfl
  | addTimer caller p cb expiration interval t =>
      obtain ⟨⟨m, id, armed⟩, hadd, hexec⟩ := bind_eq_ok.mp hexec
      cases hexec
      have hle := reads_le_of_stage (s := s) (t := { s with
        manger := m, timerfd := Timers.Clocked.rearm s.timerfd armed t }) rfl fun _ hf => hf
      refine h.timers rfl hle fun hpos => ?_
      cases armed with
      | none => exact h.expired (hpos.trans_le hle)
      | some expiration' =>
          have hzero := horderly (earliestChanged_of_addTimer (timersOp_eq_ok hadd))
          omega
  | cancel caller timerId =>
      obtain ⟨m, hcancel, hexec⟩ := bind_eq_ok.mp hexec
      cases hexec
      have hle := reads_le_of_stage (s := s) (t := { s with manger := m }) rfl fun _ hf => hf
      exact h.timers rfl hle fun hpos => h.expired (hpos.trans_le hle)
  | readTimerfd w now =>
      cases hreader : s.reader w with
      | none => simp [guard, hreader] at hguard
      | some f =>
          simp only [guard, hreader, decide_eq_true_eq] at hguard
          simp only [exec, hreader, Option.elim_some, handleRead] at hexec
          obtain ⟨hpc, hread⟩ := reader_eq_some hreader
          split at hexec
          · rename_i timerfd htimerfd
            cases hexec
            have hlt : ({ s with timerfd := timerfd }.setStage f (.read now)).reads < s.reads :=
              reads_lt_of_read (h.bounded.pc_lt w f (congrArg Pc.fiber? hpc)) ⟨hread, hguard⟩ nofun
            have := h.reads_le
            exact h.timers rfl hlt.le fun hpos => by omega
          · cases hexec
  | getExpired w =>
      cases hreader : s.reader w with
      | none => simp [guard, hreader] at hguard
      | some f =>
          simp only [exec, hreader, Option.elim_some, handleRead] at hexec
          split at hexec
          · obtain ⟨⟨m, expired⟩, hexpired, hexec⟩ := bind_eq_ok.mp hexec
            cases hexec
            exact h.setStage rfl rfl h.expired nofun
          · cases hexec
            exact h
  | call w =>
      cases hreader : s.reader w with
      | none => simp [guard, hreader] at hguard
      | some f =>
          simp only [exec, hreader, Option.elim_some, handleRead] at hexec
          split at hexec
          · obtain ⟨timer, htimer, hexec⟩ := bind_eq_ok.mp hexec
            cases hexec
            exact h.setStage rfl rfl h.expired nofun
          · cases hexec
            exact h
  | reset w t =>
      cases hreader : s.reader w with
      | none => simp [guard, hreader] at hguard
      | some f =>
          simp only [exec, hreader, Option.elim_some, handleRead] at hexec
          split at hexec
          · rename_i now expired rest hstage
            obtain ⟨⟨m, armed⟩, hreset, hexec⟩ := bind_eq_ok.mp hexec
            cases hexec
            have hreset := timersOp_eq_ok hreset
            cases armed with
            | none => exact h.setStage rfl rfl h.expired nofun
            | some expiration =>
                have hrearms : s.rearms w = true := by
                  simp only [rearms, hreader, Option.map_some, hstage, hreset]
                have hzero := horderly hrearms
                exact h.setStage rfl rfl (fun hpos => by omega) nofun
          · cases hexec
            exact h

end Timers

end State

/--
In every run of orderly steps, on any number of workers, `readTimerfd` is only ever
executed with an unread expiration: its `read` returns the eight bytes.
-/
theorem readTimerfd_finds_expiration {n : Nat} {U D : Type} [Timers.Seconds D]
    (acts : List (Action n U D)) (s : State n U D)
    (hmeets : (machine n U D).Meets State.Orderly .constructed acts)
    (hrun : (machine n U D).run .constructed acts = some s) (w : Fin n)
    (now : Timers.Timestamp) (hnext : s.guard (.readTimerfd w now) = true) :
    s.timerfd = .expired ∧ ∃ s', s.exec (.readTimerfd w now) = .ok s' := by
  have h : s.Inv := Machine.invariant_of_meets State.Inv.of_step State.constructed_inv hmeets hrun
  cases hreader : s.reader w with
  | none => simp [State.guard, hreader] at hnext
  | some f =>
      simp only [State.guard, hreader, decide_eq_true_eq] at hnext
      have hexpired := h.expired (h.pos_of_reader hreader hnext)
      refine ⟨hexpired, ?_⟩
      simp [State.exec, hreader, State.handleRead, hexpired, Timers.Timerfd.readTimerfd]

/-- An idle worker waits, is told of the expiration and comes to execute `handleRead`. -/
def reported : List (Action 1 Unit ℚ) :=
  [.addTimer none 16 () 1000 0 500, .expire] ++ List.replicate 4 (.scheduler (.advance 0)) ++
    [.scheduler (.epollWait 0 [.fd [some .handleRead]])] ++
    List.replicate 12 (.scheduler (.advance 0))

theorem readTimerfd_finds_expiration_sample :
    ∃ s, (machine 1 Unit ℚ).run .constructed reported = some s ∧
      s.guard (.readTimerfd 0 1000) = true ∧ s.timerfd = .expired := by
  have hrun : ((machine 1 Unit ℚ).run .constructed reported).map
      (fun s => s.guard (.readTimerfd 0 1000)) = some true := by decide +kernel
  have hmeets : (machine 1 Unit ℚ).Meets State.Orderly .constructed reported := by
    decide +kernel
  obtain ⟨s, hs, hguard⟩ := Option.map_eq_some_iff.mp hrun
  exact ⟨s, hs, hguard,
    (readTimerfd_finds_expiration reported s hmeets hs 0 1000 hguard).1⟩

/-- Two idle workers are both told of one expiration, and the first one reads it. -/
def reportedTwice : List (Action 2 Unit ℚ) :=
  let advance (w : Fin 2) (k : Nat) : List (Action 2 Unit ℚ) :=
    List.replicate k (.scheduler (.advance w))
  let report (w : Fin 2) : Action 2 Unit ℚ :=
    .scheduler (.epollWait w [.fd [some .handleRead]])
  [.addTimer none 16 () 1000 0 500, .expire] ++ advance 0 4 ++ advance 1 4 ++
    [report 0, report 1] ++ advance 0 11 ++ [.readTimerfd 0 1000] ++ advance 1 12

theorem readTimerfd_asserts :
    ∃ s, (machine 2 Unit ℚ).run .constructed reportedTwice = some s ∧
      s.guard (.readTimerfd 1 1001) = true ∧ s.timerfd = .idle ∧
      s.exec (.readTimerfd 1 1001) = .error .readTimerfd := by
  have hrun : ((machine 2 Unit ℚ).run .constructed reportedTwice).map (fun s =>
      (s.guard (.readTimerfd 1 1001), s.timerfd,
        match s.exec (.readTimerfd 1 1001) with
        | .error fault => some fault
        | .ok _ => none)) = some (true, .idle, some .readTimerfd) := by decide +kernel
  obtain ⟨s, hs, heq⟩ := Option.map_eq_some_iff.mp hrun
  simp only [Prod.mk.injEq] at heq
  obtain ⟨hguard, htimerfd, hfault⟩ := heq
  refine ⟨s, hs, hguard, htimerfd, ?_⟩
  split at hfault
  · rename_i hexec
    cases hfault
    exact hexec
  · cases hfault

end Qslary.Reactor

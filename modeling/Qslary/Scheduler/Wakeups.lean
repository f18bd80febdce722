import Qslary.Scheduler.Steps

/-!
# Wakeups of `IOManager`

A worker that has not yet made its last scan before `epoll_wait` is awake: whatever is
in the queue, it will look.  What the workers push themselves is therefore never lost.
A push from outside is seen if somebody is awake, or if `mWakeupFd` is readable already;
otherwise nobody looks, because `Wakeup` writes only when `hasIdleThreads()` is false,
and `scheduler(fiber)` does not call it.
-/

namespace Qslary.Scheduler

open Qslary.Foundation

variable {n : Nat} {C : Type} {s s' : State n C} {w : Fin n}

/-- The worker will scan before it waits for events again. -/
def Pc.awake : Pc C → Bool
  | .idleTest => false
  | .idleCounted => false
  | .idling => false
  | .waiting => false
  | .left => false
  | _ => true

namespace State

def HasRunnable (s : State n C) : Prop :=
  ∃ f ∈ s.pendingFunctors, (s.fibers f).state.runnable = true

/-- With work in the queue and every worker in `epoll_wait`, a wakeup is in flight. -/
def NoLostWakeup (s : State n C) : Prop :=
  s.HasRunnable → (∀ w, s.pc w = .waiting) → 0 < s.wakeups

def attentive (s : State n C) : Bool :=
  decide (∃ w, (s.pc w).awake = true) || s.wakeups > 0

def Heard (s : State n C) : Prop := s.HasRunnable → s.attentive = true

theorem attentive_iff : s.attentive = true ↔ (∃ w, (s.pc w).awake = true) ∨ 0 < s.wakeups := by
  simp [attentive]

theorem attentive_of_awake (h : (s.pc w).awake = true) : s.attentive = true :=
  attentive_iff.mpr (Or.inl ⟨w, h⟩)

theorem Heard.noLostWakeup (h : s.Heard) : s.NoLostWakeup := by
  intro hrunnable hwaiting
  rcases attentive_iff.mp (h hrunnable) with ⟨w, hw⟩ | hwakeups
  · rw [hwaiting w] at hw
    cases hw
  · exact hwakeups

end State

/-- The condition on a step: a push from outside finds somebody attentive. -/
def pushesHeard (s : State n C) : Action n C → Bool
  | .scheduler callbacks => callbacks.isEmpty || s.attentive
  | .schedulerFiber f => !(s.fibers f).state.runnable || s.attentive
  | _ => true

namespace State

theorem started_heard : (started n C).Heard := by
  rintro ⟨f, hf, -⟩
  cases hf

theorem heard_of_awake {p : Pc C} (hpc : s.pc w = p) (hp : p.awake = true) : s.Heard :=
  fun _ => attentive_of_awake (hpc ▸ hp)

theorem enqueue_wakeups (callbacks : List (Option C)) :
    (s.enqueue callbacks).1.wakeups = s.wakeups :=
  enqueue_invariant (I := fun t => t.wakeups = s.wakeups) (fun _ _ h => h) callbacks rfl

theorem attentive_congr (hpc : s'.pc = s.pc) (hwakeups : s.wakeups ≤ s'.wakeups)
    (h : s.attentive = true) : s'.attentive = true := by
  rw [attentive_iff] at h ⊢
  rcases h with ⟨w, hw⟩ | hlt
  · exact Or.inl ⟨w, hpc ▸ hw⟩
  · exact Or.inr (Nat.lt_of_lt_of_le hlt hwakeups)

/-- A worker on its way into `epoll_wait` goes on. -/
theorem Heard.descend (h : s.Heard) {p : Pc C} (hasleep : (s.pc w).awake = false)
    (hfibers : s'.fibers = s.fibers) (hpending : s'.pendingFunctors = s.pendingFunctors)
    (hwakeups : s'.wakeups = s.wakeups) (hpc : s'.pc = Function.update s.pc w p) : s'.Heard := by
  rintro ⟨f, hf, hstate⟩
  rw [hfibers] at hstate
  rw [hpending] at hf
  rcases attentive_iff.mp (h ⟨f, hf, hstate⟩) with ⟨w', hw'⟩ | hlt
  · have hne : w' ≠ w := by
      rintro rfl
      rw [hasleep] at hw'
      cases hw'
    apply attentive_of_awake (w := w')
    rw [hpc, Function.update_of_ne hne, hw']
  · rw [attentive_iff, hwakeups]
    exact Or.inr hlt

theorem Heard.advances (h : s.Heard) (hadv : Advances .ioManager s w s') : s'.Heard := by
  cases hadv with
  | take hpc hpick => exact heard_of_awake (Function.update_self _ _ _) rfl
  | miss hpc hpick =>
      rintro ⟨f, hf, hstate⟩
      exact absurd (hstate.symm.trans (pick_eq_none hpick f hf)) nofun
  | @wake p k hpc hk =>
      refine heard_of_awake (Function.update_self _ _ _) ?_
      generalize s.pc w = q at hpc
      cases hpc with
      | found hp => rcases hp with rfl | ⟨next, rfl⟩ <;> rfl
      | spawning hp => rcases hp with rfl | ⟨next, rfl⟩ <;> rfl
      | requeued hp => rcases hp with rfl | ⟨next, rfl⟩ <;> rfl
      | dispatching hp => rcases hp with rfl | ⟨next, rfl⟩ <;> rfl
  | push callbacks hpc =>
      refine heard_of_awake (Function.update_self _ _ _) ?_
      generalize s.pc w = q at hpc
      cases hpc with
      | requeue hp => rcases hp with rfl | rfl <;> rfl
      | dispatch hp => rcases hp with rfl | rfl <;> rfl
  | leave hpc hstate => exact h.descend (by rw [hpc]; rfl) rfl rfl rfl rfl
  | idleCount hpc hstate => exact h.descend (by rw [hpc]; rfl) rfl rfl rfl rfl
  | idleEnter hpc hstate => exact h.descend (by rw [hpc]; rfl) rfl rfl rfl rfl
  | idleWait hpc hkind => exact h.descend (by rw [hpc]; rfl) rfl rfl rfl rfl
  | _ => exact heard_of_awake (Function.update_self _ _ _) rfl

theorem Heard.schedulerFiber (h : s.Heard) {f : Nat}
    (hf : (s.fibers f).state.runnable = false ∨ s.attentive = true) :
    (s.schedulerFiber f).Heard := by
  rintro ⟨g, hg, hstate⟩
  rcases hf with hf | hattentive
  · rcases List.mem_append.mp hg with hg | hg
    · exact h ⟨g, hg, hstate⟩
    · rw [List.mem_singleton.mp hg] at hstate
      exact absurd (hf.symm.trans hstate) nofun
  · exact hattentive

theorem Heard.moves {a : Action n C} (h : s.Heard) (ha : pushesHeard s a = true)
    (hmoves : Moves .ioManager s a s') : s'.Heard := by
  cases hmoves with
  | scheduler callbacks outside =>
      cases callbacks with
      | nil => exact h
      | cons callback callbacks =>
          intro _
          exact attentive_congr (enqueue_pc _) (Nat.le_of_eq (enqueue_wakeups _).symm) ha
  | schedulerFiber hf =>
      refine h.schedulerFiber ?_
      simpa [pushesHeard] using ha
  | wakeup outside hk =>
      rintro ⟨f, hf, hstate⟩
      exact attentive_congr (s := s) rfl hk (h ⟨f, hf, hstate⟩)
  | stop => exact h
  | stopClean hstop => exact h
  | advance hadv => exact h.advances hadv
  | epollWait hpc => exact heard_of_awake (Function.update_self _ _ _) rfl
  | spawn callbacks hpc hp =>
      rcases hp with rfl | rfl <;> exact heard_of_awake (Function.update_self _ _ _) rfl
  | spawnFiber hpc hg => exact heard_of_awake hpc rfl
  | yieldToHold hpc => exact heard_of_awake (Function.update_self _ _ _) rfl
  | yieldToReady hpc => exact heard_of_awake (Function.update_self _ _ _) rfl
  | finish thrown hpc => exact heard_of_awake (Function.update_self _ _ _) rfl

end State

/-! ## A push that nobody hears -/

/-- `IOManager::Idle` does not return, so the idle fiber never ends and no worker leaves. -/
def Pc.Waits : Pc C → FiberState → Prop
  | .left, _ => False
  | .idling, state => state = .EXEC
  | .waiting, state => state = .EXEC
  | .dispatch _, state => state = .EXEC
  | .dispatching _ _, state => state = .EXEC
  | .idleOut, state => state.ended = false
  | .idleBack, state => state.ended = false
  | _, state => state ≠ .EXEC ∧ state.ended = false

/-- How far a worker that is not awake is from `epoll_wait`. -/
def Pc.depth : Pc C → Nat
  | .idleTest => 3
  | .idleCounted => 2
  | .idling => 1
  | _ => 0

namespace State

def Waits (s : State n C) : Prop := ∀ w, (s.pc w).Waits (s.idleState w)

theorem started_waits : (started n C).Waits := fun _ => ⟨nofun, rfl⟩

theorem Waits.advances (h : s.Waits) (hadv : Advances .ioManager s w s') : s'.Waits := by
  have hidle := h w
  cases hadv with
  | @wake p k hpc hk =>
      refine forall_goto h ?_
      generalize s.pc w = q at hpc hidle
      cases hpc with
      | found hp => rcases hp with rfl | ⟨next, rfl⟩ <;> exact hidle
      | spawning hp => rcases hp with rfl | ⟨next, rfl⟩ <;> exact hidle
      | requeued hp => rcases hp with rfl | ⟨next, rfl⟩ <;> exact hidle
      | dispatching hp => rcases hp with rfl | ⟨next, rfl⟩ <;> exact hidle
  | @push p callbacks hpc =>
      have hgoto : ∀ w', (Function.update s.pc w p w').Waits (s.idleState w') := by
        refine forall_goto h ?_
        generalize s.pc w = q at hpc hidle
        cases hpc with
        | requeue hp => rcases hp with rfl | rfl <;> exact hidle
        | dispatch hp => rcases hp with rfl | rfl <;> exact hidle
      intro w'
      simp only [goto, enqueue_pc, enqueue_idleState]
      exact hgoto w'
  | leave hpc hstate =>
      rw [hpc] at hidle
      exact absurd (hidle.2.symm.trans hstate) nofun
  | idleEnter hpc hstate => exact forall_goto_set h rfl
  | idleClean hpc hkind hclean => cases hkind
  | idleYield hpc hkind => cases hkind
  | idleWait hpc hkind =>
      rw [hpc] at hidle
      exact forall_goto h hidle
  | drain hpc =>
      rw [hpc] at hidle
      exact forall_goto h hidle
  | idleOut hpc =>
      rw [hpc] at hidle
      have hexec : s.idleState w = .EXEC := hidle
      have hended : (s.idleState w).ended = false := by rw [hexec]; rfl
      exact forall_goto h hended
  | idleEnded hpc hstate =>
      rw [hpc] at hidle
      exact absurd (hidle.symm.trans hstate) nofun
  | idleMark hpc hstate => exact forall_goto_set h ⟨nofun, rfl⟩
  | take hpc hpick | miss hpc hpick | count hpc | enter hpc hstate | start hpc hctx
  | resume hpc hctx | suspend hpc | uncount hpc | ready hpc hstate | ended hpc hstate
  | unsettled hpc hready hstate | mark hpc | idleCount hpc hstate | idleSwitch hpc
  | idleUncount hpc =>
      rw [hpc] at hidle
      exact forall_goto h hidle

theorem Waits.moves {a : Action n C} (h : s.Waits) (hmoves : Moves .ioManager s a s') :
    s'.Waits := by
  cases hmoves with
  | scheduler callbacks outside =>
      intro w
      simp only [enqueue_pc, enqueue_idleState]
      exact h w
  | advance hadv => exact h.advances hadv
  | @epollWait v reports hpc =>
      have hidle := h v
      rw [hpc] at hidle
      exact forall_goto h hidle
  | @spawn v f p callbacks hpc hp =>
      have hidle := h v
      rw [hpc] at hidle
      have hgoto : ∀ w', (Function.update s.pc v p w').Waits (s.idleState w') := by
        refine forall_goto h ?_
        rcases hp with rfl | rfl <;> exact hidle
      intro w'
      simp only [goto, enqueue_pc, enqueue_idleState]
      exact hgoto w'
  | @yieldToHold v f hpc =>
      have hidle := h v
      rw [hpc] at hidle
      exact forall_goto h hidle
  | @yieldToReady v f hpc =>
      have hidle := h v
      rw [hpc] at hidle
      exact forall_goto h hidle
  | @finish v f thrown hpc =>
      have hidle := h v
      rw [hpc] at hidle
      cases thrown <;> exact forall_goto h hidle
  | _ => exact h

/-- Workers have only gone on towards `epoll_wait`. -/
structure Descends (s s' : State n C) : Prop where
  fibers_eq : s'.fibers = s.fibers
  pending_eq : s'.pendingFunctors = s.pendingFunctors
  wakeups_eq : s'.wakeups = s.wakeups
  asleep : ∀ w, (s'.pc w).awake = false
  waits : s'.Waits
  waiting : ∀ w, s.pc w = .waiting → s'.pc w = .waiting

theorem Descends.trans {t : State n C} (h : Descends s s') (h' : Descends s' t) :
    Descends s t where
  fibers_eq := h'.fibers_eq.trans h.fibers_eq
  pending_eq := h'.pending_eq.trans h.pending_eq
  wakeups_eq := h'.wakeups_eq.trans h.wakeups_eq
  asleep := h'.asleep
  waits := h'.waits
  waiting := fun w hw => h'.waiting w (h.waiting w hw)

theorem descends_of_goto {p : Pc C} (hasleep : ∀ w, (s.pc w).awake = false) (hwaits : s'.Waits)
    (hfibers : s'.fibers = s.fibers) (hpending : s'.pendingFunctors = s.pendingFunctors)
    (hwakeups : s'.wakeups = s.wakeups) (hpc : s'.pc = Function.update s.pc w p)
    (hp : p.awake = false) (hw : s.pc w ≠ .waiting) : Descends s s' := by
  refine ⟨hfibers, hpending, hwakeups, fun w' => ?_, hwaits, fun w' hw' => ?_⟩
  · rw [hpc]
    by_cases heq : w' = w
    · rw [heq, Function.update_self, hp]
    · rw [Function.update_of_ne heq, hasleep w']
  · have hne : w' ≠ w := by
      rintro rfl
      exact hw hw'
    rw [hpc, Function.update_of_ne hne, hw']

theorem descend_step (hwaits : s.Waits) (hasleep : ∀ w, (s.pc w).awake = false)
    (hw : s.pc w ≠ .waiting) :
    ∃ s', (workers .ioManager n C).step s (.advance w) = some s' ∧ Descends s s' ∧
      (s'.pc w).depth < (s.pc w).depth := by
  have hidle := hwaits w
  cases hpc : s.pc w with
  | idleTest =>
      rw [hpc] at hidle
      have hadv : s.advance .ioManager w =
          .ok ({ s with idleThreadCount := s.idleThreadCount + 1 }.goto w .idleCounted) := by
        simp [advance, hpc, hidle.2]
      refine ⟨_, step_advance (by simp [canAdvance, hpc]) hadv, ?_, ?_⟩
      · exact descends_of_goto hasleep (forall_goto hwaits hidle) rfl rfl rfl rfl rfl hw
      · simp [goto, Pc.depth]
  | idleCounted =>
      rw [hpc] at hidle
      have hadv : s.advance .ioManager w = .ok ((s.setIdle w .EXEC).goto w .idling) := by
        simp [advance, hpc, hidle.1]
      refine ⟨_, step_advance (by simp [canAdvance, hpc]) hadv, ?_, ?_⟩
      · exact descends_of_goto hasleep (forall_goto_set hwaits rfl) rfl rfl rfl rfl rfl hw
      · simp [goto, Pc.depth]
  | idling =>
      rw [hpc] at hidle
      have hadv : s.advance .ioManager w = .ok (s.goto w .waiting) := by
        simp [advance, hpc]
      refine ⟨_, step_advance (by simp [canAdvance, hpc]) hadv, ?_, ?_⟩
      · exact descends_of_goto hasleep (forall_goto hwaits hidle) rfl rfl rfl rfl rfl hw
      · simp [goto, Pc.depth]
  | waiting => exact absurd hpc hw
  | left =>
      rw [hpc] at hidle
      exact hidle.elim
  | _ =>
      have hawake := hasleep w
      rw [hpc] at hawake
      cases hawake

/-- A worker that is not awake can go on until it waits for events. -/
theorem exists_descend (hwaits : s.Waits) (hasleep : ∀ w, (s.pc w).awake = false) (w : Fin n) :
    ∃ s', (workers .ioManager n C).Reachable s s' ∧ Descends s s' ∧ s'.pc w = .waiting := by
  induction hdepth : (s.pc w).depth using Nat.strongRecOn generalizing s with
  | _ depth ih =>
      by_cases hw : s.pc w = .waiting
      · exact ⟨s, .refl s, ⟨rfl, rfl, rfl, hasleep, hwaits, fun _ h => h⟩, hw⟩
      · obtain ⟨mid, hstep, hmid, hlt⟩ := descend_step hwaits hasleep hw
        obtain ⟨s', hreach, hs', hwaiting⟩ := ih _ (hdepth ▸ hlt) hmid.waits hmid.asleep rfl
        exact ⟨s', hreach.head hstep, hmid.trans hs', hwaiting⟩

theorem exists_all_waiting (hwaits : s.Waits) (hasleep : ∀ w, (s.pc w).awake = false)
    (ws : List (Fin n)) :
    ∃ s', (workers .ioManager n C).Reachable s s' ∧ Descends s s' ∧
      ∀ w ∈ ws, s'.pc w = .waiting := by
  induction ws generalizing s with
  | nil => exact ⟨s, .refl s, ⟨rfl, rfl, rfl, hasleep, hwaits, fun _ h => h⟩, nofun⟩
  | cons w ws ih =>
      obtain ⟨mid, hfirst, hmid, hw⟩ := exists_descend hwaits hasleep w
      obtain ⟨s', hrest, hs', hws⟩ := ih hmid.waits hmid.asleep
      refine ⟨s', hfirst.trans hrest, hmid.trans hs', fun w' hw' => ?_⟩
      rcases List.mem_cons.mp hw' with rfl | hw'
      · exact hs'.waiting _ hw
      · exact hws w' hw'

/-- From an unheard push on, the workers can all come to wait. -/
theorem exists_lost (hwaits : s.Waits) (hrunnable : s.HasRunnable)
    (hunheard : s.attentive = false) :
    ∃ s', (workers .ioManager n C).Reachable s s' ∧ ¬ s'.NoLostWakeup := by
  have hquiet : ¬ ((∃ w, (s.pc w).awake = true) ∨ 0 < s.wakeups) := by
    rw [← attentive_iff, hunheard]
    exact nofun
  have hasleep : ∀ w, (s.pc w).awake = false := by
    intro w
    rw [← Bool.not_eq_true]
    exact fun hw => hquiet (Or.inl ⟨w, hw⟩)
  obtain ⟨s', hreach, hs', hall⟩ := exists_all_waiting hwaits hasleep (List.finRange n)
  refine ⟨s', hreach, fun hno => hquiet (Or.inr ?_)⟩
  rw [← hs'.wakeups_eq]
  refine hno ?_ fun w => hall w (List.mem_finRange w)
  obtain ⟨f, hf, hstate⟩ := hrunnable
  exact ⟨f, hs'.pending_eq ▸ hf, hs'.fibers_eq ▸ hstate⟩

theorem enqueue_runnable (callback : Option C) (callbacks : List (Option C)) :
    (s.enqueue (callback :: callbacks)).1.HasRunnable := by
  let I : State n C → Prop := fun t =>
    s.nextId ∈ t.pendingFunctors ∧ s.nextId < t.nextId ∧ (t.fibers s.nextId).state = .INIT
  have hstep : ∀ t callback, I t → I (t.schedulerNoLock callback).1 := by
    rintro t callback ⟨hmem, hlt, hstate⟩
    refine ⟨List.mem_append_left _ hmem, Nat.lt_succ_of_lt hlt, ?_⟩
    change (Function.update t.fibers t.nextId _ s.nextId).state = .INIT
    rw [Function.update_of_ne (Nat.ne_of_lt hlt), hstate]
  have hfirst : I (s.schedulerNoLock callback).1 := by
    refine ⟨List.mem_append_right _ (List.mem_singleton_self _), Nat.lt_succ_self _, ?_⟩
    change (Function.update s.fibers s.nextId _ s.nextId).state = .INIT
    rw [Function.update_self]
  obtain ⟨hmem, -, hstate⟩ := enqueue_invariant hstep callbacks hfirst
  exact ⟨s.nextId, hmem, congrArg FiberState.runnable hstate⟩

/-- A push that fails `pushesHeard` leaves runnable work and nobody attentive. -/
theorem exists_unheard {a : Action n C} (hguard : s.guard a = true)
    (hunheard : pushesHeard s a = false) :
    ∃ s', (machine .ioManager n C).step s a = some s' ∧ s'.HasRunnable ∧
      s'.attentive = false := by
  cases a with
  | scheduler callbacks =>
      cases callbacks with
      | nil => cases hunheard
      | cons callback callbacks =>
          refine ⟨_, (machine .ioManager n C).step_eq_some_iff.mpr ⟨hguard, rfl⟩,
            enqueue_runnable callback callbacks, ?_⟩
          have hquiet : s.attentive = false := hunheard
          simp only [attentive, enqueue_pc, enqueue_wakeups]
          exact hquiet
  | schedulerFiber f =>
      simp only [pushesHeard, Bool.or_eq_false_iff, Bool.not_eq_false'] at hunheard
      refine ⟨_, (machine .ioManager n C).step_eq_some_iff.mpr ⟨hguard, rfl⟩, ?_, hunheard.2⟩
      exact ⟨f, List.mem_append_right _ (List.mem_singleton_self f), hunheard.1⟩
  | _ => cases hunheard

end State

/--
In every run whose pushes from outside all find somebody attentive, no wakeup is lost in
any state; and after any other push from outside the workers alone can come to a state
in which the wakeup is lost.
-/
theorem no_lost_wakeup {n : Nat} {C : Type} {acts : List (Action n C)} {s : State n C}
    (hrun : (machine .ioManager n C).run (.started n C) acts = some s)
    (hmeets : (machine .ioManager n C).Meets (pushesHeard · · = true) (.started n C) acts) :
    s.NoLostWakeup ∧
    ∀ a, s.guard a = true → pushesHeard s a = false →
      ∃ s₁ s₂, (machine .ioManager n C).step s a = some s₁ ∧
        (workers .ioManager n C).Reachable s₁ s₂ ∧ ¬ s₂.NoLostWakeup := by
  have hheard : s.Heard :=
    Machine.invariant_of_meets (fun h ha hstep => h.moves ha (moves_of_step hstep))
      State.started_heard hmeets hrun
  have hwaits : s.Waits :=
    Machine.run_invariant (fun h hstep => h.moves (moves_of_step hstep)) State.started_waits hrun
  refine ⟨hheard.noLostWakeup, fun a hguard hunheard => ?_⟩
  obtain ⟨mid, hstep, hrunnable, hquiet⟩ := State.exists_unheard hguard hunheard
  obtain ⟨s', hreach, hlost⟩ :=
    State.exists_lost (hwaits.moves (moves_of_step hstep)) hrunnable hquiet
  exact ⟨mid, s', hstep, hreach, hlost⟩

/-- A callback is scheduled and run; the wakeups written for it are there for the next. -/
def heardPushes : List (Action 1 Unit) :=
  [ .scheduler [some ()], .wakeup 0, .wakeup 0
  , .advance 0, .advance 0, .advance 0, .advance 0, .advance 0, .advance 0
  , .call 0 (.finish false)
  , .advance 0, .advance 0, .advance 0
  , .advance 0, .advance 0, .advance 0, .advance 0
  , .scheduler [some ()] ]

theorem no_lost_wakeup_sample :
    ∃ s, (machine .ioManager 1 Unit).run (.started 1 Unit) heardPushes = some s ∧
      s.HasRunnable ∧ (∀ w, s.pc w = .waiting) ∧ 0 < s.wakeups := by
  have hmeets : (machine .ioManager 1 Unit).Meets (pushesHeard · · = true) (.started 1 Unit)
      heardPushes := by decide +kernel
  have hrun : ((machine .ioManager 1 Unit).run (.started 1 Unit) heardPushes).map
      (fun s => decide ((∃ f ∈ s.pendingFunctors, (s.fibers f).state.runnable = true) ∧
        ∀ w, s.pc w = .waiting)) = some true := by decide +kernel
  obtain ⟨s, hs, hdecide⟩ := Option.map_eq_some_iff.mp hrun
  obtain ⟨hrunnable, hwaiting⟩ := of_decide_eq_true hdecide
  exact ⟨s, hs, hrunnable, hwaiting, (no_lost_wakeup hs hmeets).1 hrunnable hwaiting⟩

/-- The only worker waits; a callback is scheduled, and `Wakeup` returns at its test. -/
def unheardPush : List (Action 1 Unit) :=
  [ .advance 0, .advance 0, .advance 0, .advance 0
  , .scheduler [some ()], .wakeup 0 ]

theorem wakeup_lost :
    ∃ s, (machine .ioManager 1 Unit).run (.started 1 Unit) unheardPush = some s ∧
      s.outside = [] ∧ s.HasRunnable ∧ (∀ w, s.pc w = .waiting) ∧ s.wakeups = 0 := by
  refine ⟨_, rfl, rfl, ⟨0, by decide, rfl⟩, by decide, rfl⟩

end Qslary.Scheduler

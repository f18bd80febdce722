import Qslary.Foundation.Exclusive
import Qslary.Scheduler.Steps

/-!
# One worker at a time

A worker has a fiber in hand from the scan that takes it to the state test or the write
of `HOLD` after the switch back.  As long as every scan takes a fiber that nobody has in
hand, the fibers are exclusive resources of the workers, and their states and contexts
follow the phases of their holders.
-/

namespace Qslary.Scheduler

open Qslary.Foundation

variable {n : Nat} {C : Type} {kind : Kind} {s s' : State n C} {w : Fin n}

/-- A fiber that can be resumed. -/
structure Fiber.Parked (fiber : Fiber C) : Prop where
  not_exec : fiber.state ≠ .EXEC
  not_stale : fiber.ctx ≠ .stale

/-- The fiber in hand, by the phase of its holder. -/
def Pc.Fits : Pc C → Fiber C → Prop
  | .entered _, fiber => fiber.state = .EXEC ∧ fiber.ctx ≠ .stale
  | .exec _, fiber => fiber.state = .EXEC ∧ fiber.ctx = .stale
  | .spawning _ _, fiber => fiber.state = .EXEC ∧ fiber.ctx = .stale
  | .out _, fiber => fiber.state ≠ .EXEC ∧ fiber.ctx = .stale
  | _, fiber => fiber.Parked

/-- The worker's own idle fiber. -/
def Pc.IdleFits : Pc C → FiberState → Prop
  | .idling, state => state = .EXEC
  | .waiting, state => state = .EXEC
  | .dispatch _, state => state = .EXEC
  | .dispatching _ _, state => state = .EXEC
  | .idleOut, _ => True
  | .idleBack, _ => True
  | _, state => state ≠ .EXEC

structure State.Orderly (s : State n C) : Prop where
  exclusive : Exclusive Pc.holds Pc.Fits Fiber.Parked (· < s.nextId) s.pc s.fibers
  queued : ∀ f ∈ s.pendingFunctors, f < s.nextId
  idle : ∀ w, (s.pc w).IdleFits (s.idleState w)

/-- The condition on a step: a scan takes a fiber that no worker has in hand. -/
def takesParked (s : State n C) : Action n C → Bool
  | .advance w =>
      match s.pc w, s.pick with
      | .scan, some f => decide (∀ w', (s.pc w').holds ≠ some f)
      | _, _ => true
  | _ => true

namespace State

theorem started_orderly : (started n C).Orderly where
  exclusive :=
    { unique := fun h => nomatch h
      exists_of_held := fun h => nomatch h
      held := fun h => nomatch h
      unheld := fun _ => ⟨nofun, nofun⟩ }
  queued := fun _ h => nomatch h
  idle := fun _ => nofun

theorem Orderly.schedulerNoLock (h : s.Orderly) (callback : Option C) :
    (s.schedulerNoLock callback).1.Orderly where
  exclusive :=
    h.exclusive.alloc (Nat.lt_irrefl _) ⟨nofun, nofun⟩ fun _ hg => Nat.lt_succ_of_lt hg
  queued := by
    intro f hf
    rcases List.mem_append.mp hf with hf | hf
    · exact Nat.lt_succ_of_lt (h.queued f hf)
    · rw [List.mem_singleton.mp hf]
      exact Nat.lt_succ_self _
  idle := h.idle

theorem Orderly.enqueue (h : s.Orderly) (callbacks : List (Option C)) :
    (s.enqueue callbacks).1.Orderly :=
  enqueue_invariant (fun _ callback hs => hs.schedulerNoLock callback) callbacks h

theorem Orderly.schedulerFiber (h : s.Orderly) {f : Nat} (hf : f < s.nextId) :
    (s.schedulerFiber f).Orderly where
  exclusive := h.exclusive
  queued := by
    intro g hg
    rcases List.mem_append.mp hg with hg | hg
    · exact h.queued g hg
    · rw [List.mem_singleton.mp hg]
      exact hf
  idle := h.idle

/-! ## What a worker may do -/

/-- Neither the counters nor the stop flags matter. -/
theorem Orderly.counters (h : s.Orderly) (active idle wakeups : Nat) :
    { s with
      activeThreadCount := active
      idleThreadCount := idle
      wakeups := wakeups }.Orderly :=
  ⟨h.exclusive, h.queued, h.idle⟩

variable {f : Nat} {p : Pc C}

theorem Orderly.stay (h : s.Orderly) (hbefore : (s.pc w).holds = some f)
    (hafter : p.holds = some f) (hfits : p.Fits (s.fibers f))
    (hidle : p.IdleFits (s.idleState w)) : (s.goto w p).Orderly :=
  ⟨h.exclusive.stay hbefore hafter hfits, h.queued, forall_goto h.idle hidle⟩

theorem Orderly.write (h : s.Orderly) (hbefore : (s.pc w).holds = some f)
    (hafter : p.holds = some f) {fiber : Fiber C} (hfits : p.Fits fiber)
    (hidle : p.IdleFits (s.idleState w)) : ((s.setFiber f fiber).goto w p).Orderly :=
  ⟨h.exclusive.keep hbefore hafter hfits, h.queued, forall_goto h.idle hidle⟩

theorem Orderly.release (h : s.Orderly) (hbefore : (s.pc w).holds = some f)
    (hafter : p.holds = none) {fiber : Fiber C} (hparked : fiber.Parked)
    (hidle : p.IdleFits (s.idleState w)) : ((s.setFiber f fiber).goto w p).Orderly :=
  ⟨h.exclusive.release hbefore hafter hparked, h.queued, forall_goto h.idle hidle⟩

theorem Orderly.drop (h : s.Orderly) (hbefore : (s.pc w).holds = some f)
    (hafter : p.holds = none) (hparked : (s.fibers f).Parked)
    (hidle : p.IdleFits (s.idleState w)) : (s.goto w p).Orderly :=
  ⟨h.exclusive.drop hbefore hafter hparked, h.queued, forall_goto h.idle hidle⟩

theorem Orderly.rest (h : s.Orderly) (hbefore : (s.pc w).holds = none)
    (hafter : p.holds = none) (hidle : p.IdleFits (s.idleState w)) : (s.goto w p).Orderly :=
  ⟨h.exclusive.idle hbefore hafter, h.queued, forall_goto h.idle hidle⟩

theorem Orderly.restIdle (h : s.Orderly) (hbefore : (s.pc w).holds = none)
    (hafter : p.holds = none) {state : FiberState} (hidle : p.IdleFits state) :
    ((s.setIdle w state).goto w p).Orderly :=
  ⟨h.exclusive.idle hbefore hafter, h.queued, forall_goto_set h.idle hidle⟩

theorem Orderly.take (h : s.Orderly) (hpc : s.pc w = .scan) (hpick : s.pick = some f)
    (hparked : ∀ w', (s.pc w').holds ≠ some f) :
    ({ s with pendingFunctors := s.pendingFunctors.erase f }.goto w (.found f .test)).Orderly := by
  have hidle := h.idle w
  rw [hpc] at hidle
  have hdom := h.queued f (pick_eq_some hpick).1
  refine ⟨?_, fun g hg => h.queued g (List.mem_of_mem_erase hg), forall_goto h.idle hidle⟩
  exact h.exclusive.acquire (by rw [hpc]; rfl) hparked rfl hdom (h.exclusive.unheld hparked)

theorem Orderly.wake (h : s.Orderly) {k : Nat} (hpc : (s.pc w).Wakes p) :
    ({ s with wakeups := k }.goto w p).Orderly := by
  have h' := h.counters s.activeThreadCount s.idleThreadCount k
  have hidle := h.idle w
  have hheld : ∀ f, (s.pc w).holds = some f → (s.pc w).Fits (s.fibers f) :=
    fun f hf => h.exclusive.held hf
  generalize hq : s.pc w = q at hpc hidle hheld
  cases hpc with
  | found hp =>
      rcases hp with rfl | ⟨next, rfl⟩ <;>
        exact h'.stay (by rw [hq]; rfl) rfl (hheld _ rfl) hidle
  | spawning hp =>
      rcases hp with rfl | ⟨next, rfl⟩ <;>
        exact h'.stay (by rw [hq]; rfl) rfl (hheld _ rfl) hidle
  | requeued hp =>
      rcases hp with rfl | ⟨next, rfl⟩ <;> exact h'.rest (by rw [hq]; rfl) rfl hidle
  | dispatching hp =>
      rcases hp with rfl | ⟨next, rfl⟩ <;> exact h'.rest (by rw [hq]; rfl) rfl hidle

theorem Orderly.push (h : s.Orderly) (callbacks : List (Option C)) (hpc : (s.pc w).Pushes p) :
    ((s.enqueue callbacks).1.goto w p).Orderly := by
  have h' := h.enqueue callbacks
  have hidle := h'.idle w
  rw [← enqueue_pc callbacks] at hpc
  generalize hq : (s.enqueue callbacks).1.pc w = q at hpc hidle
  cases hpc with
  | requeue hp => rcases hp with rfl | rfl <;> exact h'.rest (by rw [hq]; rfl) rfl hidle
  | dispatch hp => rcases hp with rfl | rfl <;> exact h'.rest (by rw [hq]; rfl) rfl hidle

theorem Orderly.advances (h : s.Orderly) (hadv : Advances kind s w s')
    (hparked : ∀ f, s.pc w = .scan → s.pick = some f → ∀ w', (s.pc w').holds ≠ some f) :
    s'.Orderly := by
  have hidle := h.idle w
  have hheld : ∀ f, (s.pc w).holds = some f → (s.pc w).Fits (s.fibers f) :=
    fun f hf => h.exclusive.held hf
  cases hadv with
  | take hpc hpick => exact h.take hpc hpick (hparked _ hpc hpick)
  | miss hpc hpick =>
      rw [hpc] at hidle
      exact h.rest (by rw [hpc]; rfl) rfl hidle
  | wake hpc hk => exact h.wake hpc
  | push callbacks hpc => exact h.push callbacks hpc
  | count hpc =>
      rw [hpc] at hidle hheld
      exact (h.counters _ _ _).stay (by rw [hpc]; rfl) rfl (hheld _ rfl) hidle
  | enter hpc hstate =>
      rw [hpc] at hidle hheld
      exact h.write (by rw [hpc]; rfl) rfl ⟨rfl, (hheld _ rfl).not_stale⟩ hidle
  | @start f hpc hctx =>
      rw [hpc] at hidle hheld
      have hfits : (Pc.exec f : Pc C).Fits { s.fibers f with ctx := .stale } :=
        ⟨(hheld f rfl).1, rfl⟩
      have hwrite := h.write (by rw [hpc]; rfl) rfl hfits hidle
      exact ⟨hwrite.exclusive, hwrite.queued, hwrite.idle⟩
  | resume hpc hctx =>
      rw [hpc] at hidle hheld
      exact h.write (by rw [hpc]; rfl) rfl ⟨(hheld _ rfl).1, rfl⟩ hidle
  | suspend hpc =>
      rw [hpc] at hidle hheld
      exact h.write (by rw [hpc]; rfl) rfl ⟨(hheld _ rfl).1, nofun⟩ hidle
  | uncount hpc =>
      rw [hpc] at hidle hheld
      exact (h.counters _ _ _).stay (by rw [hpc]; rfl) rfl (hheld _ rfl) hidle
  | ready hpc hstate =>
      rw [hpc] at hidle hheld
      exact h.drop (by rw [hpc]; rfl) rfl (hheld _ rfl) hidle
  | ended hpc hstate =>
      rw [hpc] at hidle hheld
      exact h.drop (by rw [hpc]; rfl) rfl (hheld _ rfl) hidle
  | unsettled hpc hready hstate =>
      rw [hpc] at hidle hheld
      exact h.stay (by rw [hpc]; rfl) rfl (hheld _ rfl) hidle
  | mark hpc =>
      rw [hpc] at hidle hheld
      exact h.release (by rw [hpc]; rfl) rfl ⟨nofun, (hheld _ rfl).not_stale⟩ hidle
  | leave hpc hstate =>
      rw [hpc] at hidle
      exact h.rest (by rw [hpc]; rfl) rfl hidle
  | idleCount hpc hstate =>
      rw [hpc] at hidle
      exact (h.counters _ _ _).rest (by rw [hpc]; rfl) rfl hidle
  | idleEnter hpc hstate => exact h.restIdle (by rw [hpc]; rfl) rfl rfl
  | idleClean hpc hkind hclean => exact h.restIdle (by rw [hpc]; rfl) rfl trivial
  | idleYield hpc hkind => exact h.restIdle (by rw [hpc]; rfl) rfl trivial
  | idleWait hpc hkind =>
      rw [hpc] at hidle
      exact h.rest (by rw [hpc]; rfl) rfl hidle
  | drain hpc =>
      rw [hpc] at hidle
      exact (h.counters _ _ _).rest (by rw [hpc]; rfl) rfl hidle
  | idleOut hpc => exact h.rest (by rw [hpc]; rfl) rfl trivial
  | idleSwitch hpc => exact h.rest (by rw [hpc]; rfl) rfl trivial
  | idleEnded hpc hstate =>
      refine h.rest (by rw [hpc]; rfl) rfl fun hexec => ?_
      rw [hexec] at hstate
      cases hstate
  | idleMark hpc hstate => exact h.restIdle (by rw [hpc]; rfl) rfl nofun
  | idleUncount hpc =>
      rw [hpc] at hidle
      exact (h.counters _ _ _).rest (by rw [hpc]; rfl) rfl hidle

/-- The code of a fiber leaves its worker with another state than `EXEC`. -/
theorem Orderly.swapOut (h : s.Orderly) (hpc : s.pc w = .exec f) {fiber : Fiber C}
    (hstate : fiber.state ≠ .EXEC) (hctx : fiber.ctx = (s.fibers f).ctx) :
    ((s.setFiber f fiber).goto w (.out f)).Orderly := by
  have hidle := h.idle w
  have hholds : (s.pc w).holds = some f := by rw [hpc]; rfl
  have hheld := h.exclusive.held hholds
  rw [hpc] at hidle hheld
  exact h.write hholds rfl ⟨hstate, hctx.trans hheld.2⟩ hidle

theorem Orderly.moves {a : Action n C} (h : s.Orderly) (ha : takesParked s a = true)
    (hmoves : Moves kind s a s') : s'.Orderly := by
  cases hmoves with
  | scheduler callbacks outside =>
      have h' := h.enqueue callbacks
      exact ⟨h'.exclusive, h'.queued, h'.idle⟩
  | schedulerFiber hf => exact h.schedulerFiber hf
  | wakeup outside hk => exact ⟨h.exclusive, h.queued, h.idle⟩
  | stop => exact ⟨h.exclusive, h.queued, h.idle⟩
  | stopClean hstop => exact ⟨h.exclusive, h.queued, h.idle⟩
  | advance hadv =>
      refine h.advances hadv fun f hpc hpick => ?_
      simpa only [takesParked, hpc, hpick, decide_eq_true_eq] using ha
  | @epollWait v reports hpc =>
      have hidle := h.idle v
      rw [hpc] at hidle
      exact h.rest (by rw [hpc]; rfl) rfl hidle
  | @spawn v f p callbacks hpc hp =>
      have h' := h.enqueue callbacks
      rw [← enqueue_pc callbacks] at hpc
      have hidle := h'.idle v
      have hholds : ((s.enqueue callbacks).1.pc v).holds = some f := by rw [hpc]; rfl
      have hheld := h'.exclusive.held hholds
      rw [hpc] at hidle hheld
      rcases hp with rfl | rfl <;> exact h'.stay hholds rfl hheld hidle
  | spawnFiber hpc hg => exact h.schedulerFiber hg
  | yieldToHold hpc => exact h.swapOut hpc nofun rfl
  | yieldToReady hpc => exact h.swapOut hpc nofun rfl
  | finish thrown hpc =>
      cases thrown <;> exact h.swapOut hpc nofun rfl

theorem Orderly.sound (h : s.Orderly) : ∀ w, s.Sound w := by
  intro w
  have hidle := h.idle w
  have hheld : ∀ f, (s.pc w).holds = some f → (s.pc w).Fits (s.fibers f) :=
    fun f hf => h.exclusive.held hf
  unfold Sound
  split
  · rename_i f hpc
    rw [hpc] at hheld
    exact (hheld f rfl).not_exec
  · rename_i f hpc
    rw [hpc] at hheld
    exact (hheld f rfl).2
  · rename_i f hpc
    rw [hpc] at hheld
    exact (hheld f rfl).1
  · rename_i hpc
    rw [hpc] at hidle
    exact hidle
  · rename_i hpc
    rw [hpc] at hidle
    exact hidle
  · trivial

/-- The fiber whose code worker `w` executes, also inside its calls of `scheduler`. -/
def executing (s : State n C) (w : Fin n) : Option Nat :=
  match s.pc w with
  | .exec f => some f
  | .spawning f _ => some f
  | _ => none

theorem holds_of_executing (h : s.executing w = some f) : (s.pc w).holds = some f := by
  unfold executing at h
  split at h <;> simp_all [Pc.holds]

theorem Orderly.exec_of_executing (h : s.Orderly) (hf : s.executing w = some f) :
    (s.fibers f).state = .EXEC := by
  have hheld := h.exclusive.held (holds_of_executing hf)
  unfold executing at hf
  split at hf
  · rename_i g hpc
    rw [hpc] at hheld
    exact hheld.1
  · rename_i g call hpc
    rw [hpc] at hheld
    exact hheld.1
  · cases hf

end State

/-! ## A fiber taken out of another hand -/

namespace State

/-- What is to hold of the workers and the fibers in every state. -/
structure Proper (kind : Kind) (s : State n C) : Prop where
  one_worker : ∀ w w' f, s.executing w = some f → s.executing w' = some f → w = w'
  exec : ∀ w f, s.executing w = some f → (s.fibers f).state = .EXEC
  safe : (machine kind n C).Safe s

theorem Orderly.proper (h : s.Orderly) : s.Proper kind where
  one_worker := fun _ _ _ hw hw' =>
    h.exclusive.unique (holds_of_executing hw) (holds_of_executing hw')
  exec := fun _ _ hw => h.exec_of_executing hw
  safe := safe_of_sound h.sound

theorem not_proper_of_error {e : Fault} (hcan : s.canAdvance w = true)
    (h : s.advance kind w = .error e) : ¬ s.Proper kind := by
  intro hproper
  obtain ⟨s', hs'⟩ := hproper.safe (.advance w) hcan
  exact absurd (h.symm.trans hs') nofun

/-- Only worker `w` has moved, and no fiber has changed. -/
structure Elsewhere (w : Fin n) (s s' : State n C) : Prop where
  fibers_eq : s'.fibers = s.fibers
  pc_eq : ∀ w', w' ≠ w → s'.pc w' = s.pc w'

variable {f : Nat}

theorem elsewhere_goto (s : State n C) (w : Fin n) (p : Pc C) (active wakeups : Nat) :
    Elsewhere w s ({ s with activeThreadCount := active, wakeups := wakeups }.goto w p) :=
  ⟨rfl, fun _ hne => Function.update_of_ne hne _ _⟩

theorem Elsewhere.trans {t : State n C} (h : Elsewhere w s s') (h' : Elsewhere w s' t) :
    Elsewhere w s t :=
  ⟨h'.fibers_eq.trans h.fibers_eq, fun w' hne => (h'.pc_eq w' hne).trans (h.pc_eq w' hne)⟩

theorem reach_took_of_write (hpc : s.pc w = .found f .write) :
    ∃ s', (workers kind n C).Reachable s s' ∧ Elsewhere w s s' ∧ s'.pc w = .took f := by
  have hcan : s.canAdvance w = true := by simp [canAdvance, hpc]
  cases kind with
  | scheduler =>
      have hadv : s.advance .scheduler w = .ok (s.goto w (.took f)) := by
        simp only [advance, hpc, Wakeup, afterWakeup]
      exact ⟨_, .head (step_advance hcan hadv) (.refl _), elsewhere_goto s w _ _ _,
        Function.update_self _ _ _⟩
  | ioManager =>
      have hadv : s.advance .ioManager w =
          .ok ({ s with wakeups := s.wakeups + 1 }.goto w (.took f)) := by
        simp only [advance, hpc, Wakeup, afterWakeup]
      exact ⟨_, .head (step_advance hcan hadv) (.refl _), elsewhere_goto s w _ _ _,
        Function.update_self _ _ _⟩

theorem reach_took {call : Wake} (hpc : s.pc w = .found f call) :
    ∃ s', (workers kind n C).Reachable s s' ∧ Elsewhere w s s' ∧ s'.pc w = .took f := by
  have hcan : s.canAdvance w = true := by simp [canAdvance, hpc]
  cases call with
  | write => exact reach_took_of_write hpc
  | test =>
      by_cases hquiet : kind = .scheduler ∨ s.hasIdleThreads = true
      · have hadv : s.advance kind w = .ok (s.goto w (.took f)) := by
          rcases hquiet with rfl | hidle
          · simp only [advance, hpc, Wakeup, afterWakeup]
          · cases kind <;> simp only [advance, hpc, Wakeup, afterWakeup, hidle, if_true]
        exact ⟨_, .head (step_advance hcan hadv) (.refl _), elsewhere_goto s w _ _ _,
          Function.update_self _ _ _⟩
      · have hadv : s.advance kind w = .ok (s.goto w (.found f .write)) := by
          cases kind with
          | scheduler => exact absurd (Or.inl rfl) hquiet
          | ioManager =>
              have hidle : s.hasIdleThreads = false := by simpa using hquiet
              simp [advance, hpc, Wakeup, afterWakeup, hidle]
        have hwrite : (s.goto w (.found f .write)).pc w = .found f .write :=
          Function.update_self _ _ _
        obtain ⟨s', hreach, helse, hs'⟩ := reach_took_of_write hwrite
        exact ⟨s', hreach.head (step_advance hcan hadv),
          (elsewhere_goto s w _ s.activeThreadCount s.wakeups).trans helse, hs'⟩

/-- A worker that has taken a fiber gets to its `swapIn`. -/
theorem reach_counted
    (hpc : (∃ call, s.pc w = .found f call) ∨ s.pc w = .took f ∨ s.pc w = .counted f) :
    ∃ s', (workers kind n C).Reachable s s' ∧ Elsewhere w s s' ∧ s'.pc w = .counted f := by
  have htook : ∀ t : State n C, t.pc w = .took f →
      ∃ s', (workers kind n C).Reachable t s' ∧ Elsewhere w t s' ∧ s'.pc w = .counted f := by
    intro t ht
    have hcan : t.canAdvance w = true := by simp [canAdvance, ht]
    have hadv : t.advance kind w =
        .ok ({ t with activeThreadCount := t.activeThreadCount + 1 }.goto w (.counted f)) := by
      simp only [advance, ht]
    exact ⟨_, .head (step_advance hcan hadv) (.refl _), elsewhere_goto t w _ _ _,
      Function.update_self _ _ _⟩
  rcases hpc with ⟨call, hpc⟩ | hpc | hpc
  · obtain ⟨mid, hfirst, hmid, hpcmid⟩ := reach_took hpc
    obtain ⟨s', hsecond, hs', hpcs'⟩ := htook mid hpcmid
    exact ⟨s', hfirst.trans hsecond, hmid.trans hs', hpcs'⟩
  · exact htook s hpc
  · exact ⟨s, .refl s, ⟨rfl, fun _ _ => rfl⟩, hpc⟩

/-- `swapIn` up to its context switch. -/
theorem reach_entered (hpc : s.pc w = .counted f) (hstate : (s.fibers f).state ≠ .EXEC) :
    (workers kind n C).Reachable s ((s.setState f .EXEC).goto w (.entered f)) := by
  have hcan : s.canAdvance w = true := by simp [canAdvance, hpc]
  have hadv : s.advance kind w = .ok ((s.setState f .EXEC).goto w (.entered f)) := by
    simp only [advance, hpc, swapIn, if_neg hstate]
    rfl
  exact .head (step_advance hcan hadv) (.refl _)

/-- Both workers have the fiber before their `swapIn`: the second one finds `EXEC`. -/
theorem reach_swapInAssert {w' : Fin n} (hne : w' ≠ w) (hpc : s.pc w = .counted f)
    (hstate : (s.fibers f).state ≠ .EXEC) (hpc' : s.pc w' = .counted f) :
    ∃ s', (workers kind n C).Reachable s s' ∧ ¬ s'.Proper kind := by
  refine ⟨_, reach_entered hpc hstate, not_proper_of_error (w := w') (e := .swapInAssert) ?_ ?_⟩
  · simp [canAdvance, goto, setState, setFiber, Function.update_of_ne hne, hpc']
  · simp only [advance, goto, setState, setFiber, Function.update_of_ne hne, hpc', swapIn,
      Function.update_self, if_true]
    rfl

/-- The context is resumed before the switch that saves it. -/
theorem reach_staleContext (hpc : s.pc w = .counted f) (hstate : (s.fibers f).state ≠ .EXEC)
    (hctx : (s.fibers f).ctx = .stale) :
    ∃ s', (workers kind n C).Reachable s s' ∧ ¬ s'.Proper kind := by
  refine ⟨_, reach_entered hpc hstate, not_proper_of_error (w := w) (e := .staleContext) ?_ ?_⟩
  · simp [canAdvance, goto]
  · simp only [advance, goto, setState, setFiber, Function.update_self, State.resume, hctx]
    rfl

theorem resume_of_not_stale (hctx : (s.fibers f).ctx ≠ .stale) :
    ∃ t, s.resume f = .ok t ∧ t.pc = s.pc ∧ (t.fibers f).state = (s.fibers f).state := by
  have hstate : (Function.update s.fibers f { s.fibers f with ctx := .stale } f).state =
      (s.fibers f).state := by rw [Function.update_self]
  cases hold : (s.fibers f).ctx with
  | fresh =>
      refine ⟨{ s.setFiber f { s.fibers f with ctx := .stale } with ran := s.ran ++ [f] }, ?_,
        rfl, hstate⟩
      simp only [State.resume, hold]
  | suspended =>
      refine ⟨s.setFiber f { s.fibers f with ctx := .stale }, ?_, rfl, hstate⟩
      simp only [State.resume, hold]
  | stale => exact absurd hold hctx

theorem reach_exec (hpc : s.pc w = .counted f) (hstate : (s.fibers f).state ≠ .EXEC)
    (hctx : (s.fibers f).ctx ≠ .stale) :
    ∃ s', (workers kind n C).Reachable s s' ∧ s'.pc w = .exec f ∧
      (s'.fibers f).state = .EXEC ∧ ∀ w', w' ≠ w → s'.pc w' = s.pc w' := by
  have hentered : (workers kind n C).Reachable s ((s.setState f .EXEC).goto w (.entered f)) :=
    reach_entered hpc hstate
  generalize hmid : (s.setState f .EXEC).goto w (.entered f) = mid at hentered
  have hpcmid : mid.pc w = .entered f := by
    rw [← hmid]
    exact Function.update_self _ _ _
  have hfiber : mid.fibers f = { s.fibers f with state := .EXEC } := by
    rw [← hmid]
    exact Function.update_self _ _ _
  have hothers : ∀ w', w' ≠ w → mid.pc w' = s.pc w' := by
    intro w' hne
    rw [← hmid]
    exact Function.update_of_ne hne _ _
  have hnotstale : (mid.fibers f).ctx ≠ .stale := by
    rw [hfiber]
    exact hctx
  obtain ⟨t, hresume, hpct, hstatet⟩ := resume_of_not_stale hnotstale
  have hcan : mid.canAdvance w = true := by simp [canAdvance, hpcmid]
  have hadv : mid.advance kind w = .ok (t.goto w (.exec f)) := by
    simp only [advance, hpcmid, hresume]
    rfl
  refine ⟨_, hentered.trans (.head (step_advance hcan hadv) (.refl _)),
    Function.update_self _ _ _, ?_, fun w' hne => ?_⟩
  · rw [show (t.goto w (.exec f)).fibers f = t.fibers f from rfl, hstatet, hfiber]
  · rw [show (t.goto w (.exec f)).pc w' = t.pc w' from Function.update_of_ne hne _ _, hpct,
      hothers w' hne]

/-- The old worker writes `HOLD` under the new one. -/
theorem reach_hold {w' : Fin n} (hne : w' ≠ w) (hpc : s.pc w = .exec f)
    (hstate : (s.fibers f).state = .EXEC)
    (hpc' : s.pc w' = .back f ∨ s.pc w' = .settle f ∨ s.pc w' = .mark f) :
    ∃ s', (workers kind n C).Reachable s s' ∧ ¬ s'.Proper kind := by
  have hmark : ∀ t : State n C, t.pc w = .exec f → t.pc w' = .mark f →
      ∃ s', (workers kind n C).Reachable t s' ∧ ¬ s'.Proper kind := by
    intro t ht ht'
    have hcan : t.canAdvance w' = true := by simp [canAdvance, ht']
    have hadv : t.advance kind w' = .ok ((t.setState f .HOLD).goto w' .scan) := by
      simp only [advance, ht']
    refine ⟨_, .head (step_advance hcan hadv) (.refl _), fun hproper => ?_⟩
    have hexec : ((t.setState f .HOLD).goto w' .scan).executing w = some f := by
      simp [executing, goto, setState, setFiber, Function.update_of_ne hne.symm, ht]
    have hold := hproper.exec w f hexec
    simp [goto, setState, setFiber] at hold
  have hsettle : ∀ t : State n C, t.pc w = .exec f → (t.fibers f).state = .EXEC →
      t.pc w' = .settle f → ∃ s', (workers kind n C).Reachable t s' ∧ ¬ s'.Proper kind := by
    intro t ht hstate ht'
    have hcan : t.canAdvance w' = true := by simp [canAdvance, ht']
    have hadv : t.advance kind w' = .ok (t.goto w' (.mark f)) := by
      simp [advance, ht', hstate, FiberState.ended]
    obtain ⟨s', hreach, hs'⟩ := hmark (t.goto w' (.mark f))
      ((Function.update_of_ne hne.symm _ _).trans ht) (Function.update_self _ _ _)
    exact ⟨s', hreach.head (step_advance hcan hadv), hs'⟩
  rcases hpc' with hpc' | hpc' | hpc'
  · have hcan : s.canAdvance w' = true := by simp [canAdvance, hpc']
    have hadv : s.advance kind w' =
        .ok ({ s with activeThreadCount := s.activeThreadCount - 1 }.goto w' (.settle f)) := by
      simp only [advance, hpc']
    obtain ⟨s', hreach, hs'⟩ := hsettle
      ({ s with activeThreadCount := s.activeThreadCount - 1 }.goto w' (.settle f))
      ((Function.update_of_ne hne.symm _ _).trans hpc) hstate (Function.update_self _ _ _)
    exact ⟨s', hreach.head (step_advance hcan hadv), hs'⟩
  · exact hsettle s hpc hstate hpc'
  · exact hmark s hpc hpc'

/-- Whoever has the runnable fiber `f` in hand when `w` takes it, something goes wrong. -/
theorem reach_improper (h : s.Orderly) {w' : Fin n} {s₁ : State n C} (hne : w' ≠ w)
    (hholds : (s.pc w').holds = some f) (hrunnable : (s.fibers f).state.runnable = true)
    (hfibers : s₁.fibers = s.fibers) (hpc : s₁.pc w = .counted f)
    (hothers : ∀ v, v ≠ w → s₁.pc v = s.pc v) :
    ∃ s', (workers kind n C).Reachable s₁ s' ∧ ¬ s'.Proper kind := by
  have hfits := h.exclusive.held hholds
  have hnot : (s.fibers f).state ≠ .EXEC := by
    intro hexec
    rw [hexec] at hrunnable
    cases hrunnable
  have hnot₁ : (s₁.fibers f).state ≠ .EXEC := by rwa [hfibers]
  have hpc' : s₁.pc w' = s.pc w' := hothers w' hne
  have hbefore : ((∃ call, s₁.pc w' = .found f call) ∨ s₁.pc w' = .took f ∨
      s₁.pc w' = .counted f) → ∃ s', (workers kind n C).Reachable s₁ s' ∧ ¬ s'.Proper kind := by
    intro hpc'
    obtain ⟨mid, hreach, helse, hmid⟩ := reach_counted hpc'
    obtain ⟨s', hrest, hs'⟩ := reach_swapInAssert hne ((helse.pc_eq w hne.symm).trans hpc)
      (by rwa [helse.fibers_eq]) hmid
    exact ⟨s', hreach.trans hrest, hs'⟩
  have hafter : (s.fibers f).Parked → (s₁.pc w' = .back f ∨ s₁.pc w' = .settle f ∨
      s₁.pc w' = .mark f) → ∃ s', (workers kind n C).Reachable s₁ s' ∧ ¬ s'.Proper kind := by
    intro hparked hpc'
    obtain ⟨mid, hreach, hpcmid, hstate, helse⟩ :=
      reach_exec hpc hnot₁ (by rw [hfibers]; exact hparked.not_stale)
    rw [← helse w' hne] at hpc'
    obtain ⟨s', hrest, hs'⟩ := reach_hold hne hpcmid hstate hpc'
    exact ⟨s', hreach.trans hrest, hs'⟩
  generalize s.pc w' = q at hholds hfits hpc'
  -- the phases of the holder, in the order of `run`
  cases q with
  | found g call =>
      cases hholds
      exact hbefore (Or.inl ⟨call, hpc'⟩)
  | took g =>
      cases hholds
      exact hbefore (Or.inr (Or.inl hpc'))
  | counted g =>
      cases hholds
      exact hbefore (Or.inr (Or.inr hpc'))
  | entered g =>
      exact absurd hfits.1 hnot
  | exec g =>
      exact absurd hfits.1 hnot
  | spawning g call =>
      exact absurd hfits.1 hnot
  | out g =>
      exact reach_staleContext hpc hnot₁ (by rw [hfibers]; exact hfits.2)
  | back g =>
      cases hholds
      exact hafter hfits (Or.inl hpc')
  | settle g =>
      cases hholds
      exact hafter hfits (Or.inr (Or.inl hpc'))
  | mark g =>
      cases hholds
      exact hafter hfits (Or.inr (Or.inr hpc'))
  | _ => cases hholds

/-- A scan that takes a fiber out of another hand. -/
theorem exists_improper (h : s.Orderly) {a : Action n C} (hguard : s.guard a = true)
    (htakes : takesParked s a = false) :
    ∃ s₁ s₂, (machine kind n C).step s a = some s₁ ∧
      (workers kind n C).Reachable s₁ s₂ ∧ ¬ s₂.Proper kind := by
  unfold takesParked at htakes
  split at htakes
  · rename_i w
    split at htakes
    · rename_i f hpc hpick
      have hheld : ∃ w', (s.pc w').holds = some f := by simpa using htakes
      obtain ⟨w', hw'⟩ := hheld
      have hne : w' ≠ w := by
        rintro rfl
        rw [hpc] at hw'
        cases hw'
      have hadv : s.advance kind w =
          .ok ({ s with pendingFunctors := s.pendingFunctors.erase f }.goto w
            (.found f .test)) := by
        simp only [advance, hpc, hpick]
      generalize htaken : { s with pendingFunctors := s.pendingFunctors.erase f }.goto w
        (.found f .test) = taken at hadv
      have hfound : taken.pc w = .found f .test := by
        rw [← htaken]
        exact Function.update_self _ _ _
      have hothers : ∀ v, v ≠ w → taken.pc v = s.pc v := by
        intro v hv
        rw [← htaken]
        exact Function.update_of_ne hv _ _
      have hfibers : taken.fibers = s.fibers := by rw [← htaken]; rfl
      obtain ⟨mid, hreach, helse, hmid⟩ := reach_counted (Or.inl ⟨.test, hfound⟩)
      obtain ⟨s₂, hrest, hs₂⟩ := reach_improper h hne hw' (pick_eq_some hpick).2
        (helse.fibers_eq.trans hfibers) hmid
        (fun v hv => (helse.pc_eq v hv).trans (hothers v hv))
      exact ⟨taken, s₂, (machine kind n C).step_eq_some_iff.mpr ⟨hguard, hadv⟩,
        hreach.trans hrest, hs₂⟩
    · cases htakes
  · cases htakes

end State

/--
In every run whose scans take only fibers that no worker has in hand, no fiber is
executed by two workers, the fiber being executed has state `EXEC`, and no step fails an
assert of `swapIn` or of a yield or resumes a context that has not been saved; and after
any other scan the workers alone can come to a state of which this is false.
-/
theorem fiber_on_one_worker (kind : Kind) (n : Nat) (C : Type) {acts : List (Action n C)}
    {s : State n C} (hrun : (machine kind n C).run (.started n C) acts = some s)
    (hmeets : (machine kind n C).Meets (takesParked · · = true) (.started n C) acts) :
    s.Proper kind ∧
    ∀ a, s.guard a = true → takesParked s a = false →
      ∃ s₁ s₂, (machine kind n C).step s a = some s₁ ∧
        (workers kind n C).Reachable s₁ s₂ ∧ ¬ s₂.Proper kind := by
  have hs : s.Orderly :=
    Machine.invariant_of_meets (fun h ha hstep => h.moves ha (moves_of_step hstep))
      State.started_orderly hmeets hrun
  exact ⟨hs.proper, fun a hguard htakes => State.exists_improper hs hguard htakes⟩

/-- A fiber is taken, yields, and is taken again by the other worker after the switch. -/
def sampleHandOver : List (Action 2 Unit) :=
  [ .scheduler [some ()]
  , .advance 0, .advance 0, .advance 0, .advance 0, .advance 0
  , .call 0 .yieldToHold
  , .advance 0, .advance 0, .advance 0, .advance 0
  , .schedulerFiber 0
  , .advance 1, .advance 1, .advance 1, .advance 1, .advance 1 ]

theorem fiber_on_one_worker_sample :
    ∃ s, (machine .scheduler 2 Unit).run (.started 2 Unit) sampleHandOver = some s ∧
      s.executing 1 = some 0 ∧ (s.fibers 0).state = .EXEC := by
  have hmeets : (machine .scheduler 2 Unit).Meets (takesParked · · = true) (.started 2 Unit)
      sampleHandOver := by decide +kernel
  have hrun : ((machine .scheduler 2 Unit).run (.started 2 Unit) sampleHandOver).map
      (fun s => s.executing 1) = some (some 0) := by decide +kernel
  obtain ⟨s, hs, hexec⟩ := Option.map_eq_some_iff.mp hrun
  exact ⟨s, hs, hexec, (fiber_on_one_worker _ _ _ hs hmeets).1.exec 1 0 hexec⟩

/--
Worker `0` has written `HOLD` but not yet switched when a timer puts the fiber back into
the queue and worker `1` takes it.
-/
def earlyTake : List (Action 2 Unit) :=
  [ .scheduler [some ()]
  , .advance 0, .advance 0, .advance 0, .advance 0, .advance 0, .advance 0
  , .call 0 .yieldToHold
  , .schedulerFiber 0
  , .advance 1, .advance 1, .advance 1, .advance 1, .advance 1 ]

theorem fiber_resumed_unsaved :
    ∃ s, (machine .ioManager 2 Unit).run (.started 2 Unit) earlyTake = some s ∧
      s.pc 0 = .out 0 ∧ (machine .ioManager 2 Unit).guard s (.advance 1) = true ∧
      (machine .ioManager 2 Unit).exec s (.advance 1) = .error .staleContext := by
  refine ⟨_, rfl, ?_, ?_, ?_⟩ <;> rfl

end Qslary.Scheduler

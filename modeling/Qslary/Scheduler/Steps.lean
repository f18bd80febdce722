import Qslary.Scheduler.Model

/-!
# What the steps of the scheduler change

`Wakeup` changes the counter of the eventfd at most, and `enqueue` is a sequence of
`schedulerNoLock` calls, so that what each of them preserves is preserved.  `Advances`
and `Moves` list what a worker, and what any thread, can do to the state.
-/

namespace Qslary.Scheduler

open Qslary.Foundation

variable {n : Nat} {C : Type} {kind : Kind} {s s' : State n C} {w : Fin n}

/-- The fiber a worker has in hand. -/
def Pc.holds : Pc C → Option Nat
  | .found f _ => some f
  | .took f => some f
  | .counted f => some f
  | .entered f => some f
  | .exec f => some f
  | .spawning f _ => some f
  | .out f => some f
  | .back f => some f
  | .settle f => some f
  | .mark f => some f
  | _ => none

section Workers

variable {R : Pc C → FiberState → Prop} {pc : Fin n → Pc C} {idle : Fin n → FiberState} {p : Pc C}

theorem forall_goto (h : ∀ w, R (pc w) (idle w)) (hp : R p (idle w)) :
    ∀ w', R (Function.update pc w p w') (idle w') := by
  intro w'
  by_cases hw : w' = w
  · rw [hw, Function.update_self]
    exact hp
  · rw [Function.update_of_ne hw]
    exact h w'

theorem forall_goto_set {state : FiberState} (h : ∀ w, R (pc w) (idle w)) (hp : R p state) :
    ∀ w', R (Function.update pc w p w') (Function.update idle w state w') := by
  intro w'
  by_cases hw : w' = w
  · rw [hw, Function.update_self, Function.update_self]
    exact hp
  · rw [Function.update_of_ne hw, Function.update_of_ne hw]
    exact h w'

end Workers

namespace State

theorem enqueue_invariant {I : State n C → Prop}
    (hstep : ∀ s callback, I s → I (s.schedulerNoLock callback).1)
    (callbacks : List (Option C)) (hs : I s) : I (s.enqueue callbacks).1 := by
  induction callbacks generalizing s with
  | nil => exact hs
  | cons callback callbacks ih => exact ih (hstep s callback hs)

theorem enqueue_pc (callbacks : List (Option C)) : (s.enqueue callbacks).1.pc = s.pc :=
  enqueue_invariant (I := fun s' => s'.pc = s.pc) (fun _ _ h => h) callbacks rfl

theorem enqueue_idleState (callbacks : List (Option C)) :
    (s.enqueue callbacks).1.idleState = s.idleState :=
  enqueue_invariant (I := fun s' => s'.idleState = s.idleState) (fun _ _ h => h) callbacks rfl

theorem Wakeup_eq (kind : Kind) (s : State n C) (call : Wake) :
    ∃ k, s.wakeups ≤ k ∧ (s.Wakeup kind call).1 = { s with wakeups := k } := by
  unfold Wakeup
  cases kind with
  | scheduler => exact ⟨s.wakeups, Nat.le_refl _, rfl⟩
  | ioManager =>
      cases call with
      | test =>
          refine ⟨s.wakeups, Nat.le_refl _, ?_⟩
          simp only
          split <;> rfl
      | write => exact ⟨s.wakeups + 1, Nat.le_succ _, rfl⟩

theorem afterWakeup_eq (kind : Kind) (s : State n C) (w : Fin n) (call : Wake)
    (waking : Wake → Pc C) (idle : Pc C) :
    ∃ k p, s.wakeups ≤ k ∧ (p = idle ∨ ∃ next, p = waking next) ∧
      afterWakeup w waking idle (s.Wakeup kind call) = { s with wakeups := k }.goto w p := by
  obtain ⟨k, hk, heq⟩ := Wakeup_eq kind s call
  revert heq
  obtain ⟨s', next⟩ := s.Wakeup kind call
  rintro rfl
  cases next with
  | none => exact ⟨k, idle, hk, Or.inl rfl, rfl⟩
  | some next => exact ⟨k, waking next, hk, Or.inr ⟨next, rfl⟩, rfl⟩

theorem afterEnqueue_eq (w : Fin n) (waking idle : Pc C) (callbacks : List (Option C)) :
    ∃ p, (p = idle ∨ p = waking) ∧
      afterEnqueue w waking idle (s.enqueue callbacks) = (s.enqueue callbacks).1.goto w p := by
  unfold afterEnqueue
  obtain ⟨s', needWakeup⟩ := s.enqueue callbacks
  cases needWakeup with
  | false => exact ⟨idle, Or.inl rfl, rfl⟩
  | true => exact ⟨waking, Or.inr rfl, rfl⟩

theorem pick_eq_some {f : Nat} (h : s.pick = some f) :
    f ∈ s.pendingFunctors ∧ (s.fibers f).state.runnable = true := by
  unfold pick at h
  have hrunnable := List.find?_some h
  exact ⟨List.mem_of_find?_eq_some h, by simpa using hrunnable⟩

theorem pick_eq_none (h : s.pick = none) :
    ∀ f ∈ s.pendingFunctors, (s.fibers f).state.runnable = false := by
  simpa [pick] using h

theorem current_eq_some {f : Nat} (h : s.current w = some f) : s.pc w = .exec f := by
  unfold current at h
  split at h
  · rename_i g hpc
    cases h
    exact hpc
  · cases h

end State

/-! ## Inversion -/

/-- One step inside a call of `Wakeup`. -/
inductive Pc.Wakes : Pc C → Pc C → Prop
  | found {f call p} (hp : p = .took f ∨ ∃ next, p = .found f next) : Wakes (.found f call) p
  | spawning {f call p} (hp : p = .exec f ∨ ∃ next, p = .spawning f next) :
      Wakes (.spawning f call) p
  | requeued {call p} (hp : p = .scan ∨ ∃ next, p = .requeued next) : Wakes (.requeued call) p
  | dispatching {call chores p}
      (hp : p = .dispatch chores ∨ ∃ next, p = .dispatching next chores) :
      Wakes (.dispatching call chores) p

/-- A worker that is executing no fiber puts callbacks into the queue. -/
inductive Pc.Pushes : Pc C → Pc C → Prop
  | requeue {f p} (hp : p = .scan ∨ p = .requeued .test) : Pushes (.requeue f) p
  | dispatch {cb chores p} (hp : p = .dispatch chores ∨ p = .dispatching .test chores) :
      Pushes (.dispatch (.schedule cb :: chores)) p

inductive Advances (kind : Kind) (s : State n C) (w : Fin n) : State n C → Prop
  | take {f} (hpc : s.pc w = .scan) (hpick : s.pick = some f) :
      Advances kind s w
        ({ s with pendingFunctors := s.pendingFunctors.erase f }.goto w (.found f .test))
  | miss (hpc : s.pc w = .scan) (hpick : s.pick = none) : Advances kind s w (s.goto w .idleTest)
  | wake {p k} (hpc : (s.pc w).Wakes p) (hk : s.wakeups ≤ k) :
      Advances kind s w ({ s with wakeups := k }.goto w p)
  | push {p} (callbacks : List (Option C)) (hpc : (s.pc w).Pushes p) :
      Advances kind s w ((s.enqueue callbacks).1.goto w p)
  | count {f} (hpc : s.pc w = .took f) :
      Advances kind s w
        ({ s with activeThreadCount := s.activeThreadCount + 1 }.goto w (.counted f))
  | enter {f} (hpc : s.pc w = .counted f) (hstate : (s.fibers f).state ≠ .EXEC) :
      Advances kind s w ((s.setState f .EXEC).goto w (.entered f))
  | start {f} (hpc : s.pc w = .entered f) (hctx : (s.fibers f).ctx = .fresh) :
      Advances kind s w
        ({ s.setFiber f { s.fibers f with ctx := .stale } with ran := s.ran ++ [f] }.goto w
          (.exec f))
  | resume {f} (hpc : s.pc w = .entered f) (hctx : (s.fibers f).ctx = .suspended) :
      Advances kind s w ((s.setFiber f { s.fibers f with ctx := .stale }).goto w (.exec f))
  | suspend {f} (hpc : s.pc w = .out f) : Advances kind s w ((s.suspend f).goto w (.back f))
  | uncount {f} (hpc : s.pc w = .back f) :
      Advances kind s w
        ({ s with activeThreadCount := s.activeThreadCount - 1 }.goto w (.settle f))
  | ready {f} (hpc : s.pc w = .settle f) (hstate : (s.fibers f).state = .READY) :
      Advances kind s w (s.goto w (.requeue f))
  | ended {f} (hpc : s.pc w = .settle f) (hstate : (s.fibers f).state.ended = true) :
      Advances kind s w (s.goto w .scan)
  | unsettled {f} (hpc : s.pc w = .settle f) (hready : (s.fibers f).state ≠ .READY)
      (hstate : (s.fibers f).state.ended = false) : Advances kind s w (s.goto w (.mark f))
  | mark {f} (hpc : s.pc w = .mark f) : Advances kind s w ((s.setState f .HOLD).goto w .scan)
  | leave (hpc : s.pc w = .idleTest) (hstate : (s.idleState w).ended = true) :
      Advances kind s w (s.goto w .left)
  | idleCount (hpc : s.pc w = .idleTest) (hstate : (s.idleState w).ended = false) :
      Advances kind s w
        ({ s with idleThreadCount := s.idleThreadCount + 1 }.goto w .idleCounted)
  | idleEnter (hpc : s.pc w = .idleCounted) (hstate : s.idleState w ≠ .EXEC) :
      Advances kind s w ((s.setIdle w .EXEC).goto w .idling)
  | idleClean (hpc : s.pc w = .idling) (hkind : kind = .scheduler) (hclean : s.IsClean = true) :
      Advances kind s w ((s.setIdle w .TERM).goto w .idleOut)
  | idleYield (hpc : s.pc w = .idling) (hkind : kind = .scheduler) :
      Advances kind s w ((s.setIdle w .HOLD).goto w .idleOut)
  | idleWait (hpc : s.pc w = .idling) (hkind : kind = .ioManager) :
      Advances kind s w (s.goto w .waiting)
  | drain {chores} (hpc : s.pc w = .dispatch (.drain :: chores)) :
      Advances kind s w ({ s with wakeups := 0 }.goto w (.dispatch chores))
  | idleOut (hpc : s.pc w = .dispatch []) : Advances kind s w (s.goto w .idleOut)
  | idleSwitch (hpc : s.pc w = .idleOut) : Advances kind s w (s.goto w .idleBack)
  | idleEnded (hpc : s.pc w = .idleBack) (hstate : (s.idleState w).ended = true) :
      Advances kind s w (s.goto w .idleDone)
  | idleMark (hpc : s.pc w = .idleBack) (hstate : (s.idleState w).ended = false) :
      Advances kind s w ((s.setIdle w .HOLD).goto w .idleDone)
  | idleUncount (hpc : s.pc w = .idleDone) :
      Advances kind s w ({ s with idleThreadCount := s.idleThreadCount - 1 }.goto w .scan)

/-- Where the asserts and the context switches of a worker's next step are fine. -/
def State.Sound (s : State n C) (w : Fin n) : Prop :=
  match s.pc w with
  | .counted f => (s.fibers f).state ≠ .EXEC
  | .entered f => (s.fibers f).ctx ≠ .stale
  | .exec f => (s.fibers f).state = .EXEC
  | .idleCounted => s.idleState w ≠ .EXEC
  | .idling => s.idleState w = .EXEC
  | _ => True

namespace State

theorem advances_of_wakeup {call : Wake} {waking : Wake → Pc C} {idle : Pc C}
    (hpc : ∀ p, (p = idle ∨ ∃ next, p = waking next) → (s.pc w).Wakes p) :
    Advances kind s w (afterWakeup w waking idle (s.Wakeup kind call)) := by
  obtain ⟨k, p, hk, hp, heq⟩ := afterWakeup_eq kind s w call waking idle
  rw [heq]
  exact .wake (hpc p hp) hk

theorem advances_of_enqueue {callbacks : List (Option C)} {waking idle : Pc C}
    (hpc : ∀ p, (p = idle ∨ p = waking) → (s.pc w).Pushes p) :
    Advances kind s w (afterEnqueue w waking idle (s.enqueue callbacks)) := by
  obtain ⟨p, hp, heq⟩ := afterEnqueue_eq (s := s) w waking idle callbacks
  rw [heq]
  exact .push callbacks (hpc p hp)

theorem advance_inv (hcan : s.canAdvance w = true) (h : s.advance kind w = .ok s') :
    Advances kind s w s' := by
  cases hpc : s.pc w with
  | scan =>
      cases hpick : s.pick with
      | none =>
          simp only [advance, hpc, hpick] at h
          cases h
          exact .miss hpc hpick
      | some f =>
          simp only [advance, hpc, hpick] at h
          cases h
          exact .take hpc hpick
  | found f call =>
      simp only [advance, hpc] at h
      cases h
      exact advances_of_wakeup fun p hp => hpc ▸ .found hp
  | took f =>
      simp only [advance, hpc] at h
      cases h
      exact .count hpc
  | counted f =>
      by_cases hstate : (s.fibers f).state = .EXEC
      · simp only [advance, hpc, swapIn, if_pos hstate] at h
        cases h
      · simp only [advance, hpc, swapIn, if_neg hstate] at h
        cases h
        exact .enter hpc hstate
  | entered f =>
      cases hctx : (s.fibers f).ctx with
      | fresh =>
          simp only [advance, hpc, State.resume, hctx] at h
          cases h
          exact .start hpc hctx
      | suspended =>
          simp only [advance, hpc, State.resume, hctx] at h
          cases h
          exact .resume hpc hctx
      | stale =>
          simp only [advance, hpc, State.resume, hctx] at h
          cases h
  | exec f => simp [canAdvance, hpc] at hcan
  | spawning f call =>
      simp only [advance, hpc] at h
      cases h
      exact advances_of_wakeup fun p hp => hpc ▸ .spawning hp
  | out f =>
      simp only [advance, hpc] at h
      cases h
      exact .suspend hpc
  | back f =>
      simp only [advance, hpc] at h
      cases h
      exact .uncount hpc
  | settle f =>
      by_cases hready : (s.fibers f).state = .READY
      · simp only [advance, hpc, if_pos hready] at h
        cases h
        exact .ready hpc hready
      · cases hstate : (s.fibers f).state.ended with
        | true =>
            simp only [advance, hpc, if_neg hready, hstate, if_true] at h
            cases h
            exact .ended hpc hstate
        | false =>
            simp only [advance, hpc, if_neg hready, hstate] at h
            cases h
            exact .unsettled hpc hready hstate
  | mark f =>
      simp only [advance, hpc] at h
      cases h
      exact .mark hpc
  | requeue f =>
      simp only [advance, hpc] at h
      cases h
      exact advances_of_enqueue fun p hp => hpc ▸ .requeue hp
  | requeued call =>
      simp only [advance, hpc] at h
      cases h
      exact advances_of_wakeup fun p hp => hpc ▸ .requeued hp
  | idleTest =>
      cases hstate : (s.idleState w).ended with
      | true =>
          simp only [advance, hpc, hstate, if_true] at h
          cases h
          exact .leave hpc hstate
      | false =>
          simp only [advance, hpc, hstate] at h
          cases h
          exact .idleCount hpc hstate
  | idleCounted =>
      by_cases hstate : s.idleState w = .EXEC
      · simp only [advance, hpc, if_pos hstate] at h
        cases h
      · simp only [advance, hpc, if_neg hstate] at h
        cases h
        exact .idleEnter hpc hstate
  | idling =>
      cases hkind : kind with
      | scheduler =>
          simp only [advance, hpc, hkind] at h
          split at h
          · rename_i hclean
            cases h
            exact .idleClean hpc rfl hclean
          · split at h
            · cases h
              exact .idleYield hpc rfl
            · cases h
      | ioManager =>
          simp only [advance, hpc, hkind] at h
          cases h
          exact .idleWait hpc rfl
  | waiting => simp [canAdvance, hpc] at hcan
  | dispatch chores =>
      cases chores with
      | nil =>
          simp only [advance, hpc] at h
          cases h
          exact .idleOut hpc
      | cons chore chores =>
          cases chore with
          | drain =>
              simp only [advance, hpc] at h
              cases h
              exact .drain hpc
          | schedule cb =>
              simp only [advance, hpc] at h
              cases h
              exact advances_of_enqueue fun p hp => hpc ▸ .dispatch hp
  | dispatching call chores =>
      simp only [advance, hpc] at h
      cases h
      exact advances_of_wakeup fun p hp => hpc ▸ .dispatching hp
  | idleOut =>
      simp only [advance, hpc] at h
      cases h
      exact .idleSwitch hpc
  | idleBack =>
      cases hstate : (s.idleState w).ended with
      | true =>
          simp only [advance, hpc, hstate, if_true] at h
          cases h
          exact .idleEnded hpc hstate
      | false =>
          simp only [advance, hpc, hstate] at h
          cases h
          exact .idleMark hpc hstate
  | idleDone =>
      simp only [advance, hpc] at h
      cases h
      exact .idleUncount hpc
  | left => simp [canAdvance, hpc] at hcan

theorem advance_requeue {f : Nat} (hpc : s.pc w = .requeue f) (h : s.advance kind w = .ok s') :
    ∃ p, (p = .scan ∨ p = .requeued .test) ∧ s' = (s.enqueue [(s.fibers f).cb]).1.goto w p := by
  simp only [advance, hpc] at h
  cases h
  exact afterEnqueue_eq w (.requeued .test) .scan [(s.fibers f).cb]

theorem advance_schedule {cb : Option C} {chores : List (Chore C)}
    (hpc : s.pc w = .dispatch (.schedule cb :: chores)) (h : s.advance kind w = .ok s') :
    ∃ p, (p = .dispatch chores ∨ p = .dispatching .test chores) ∧
      s' = (s.enqueue [cb]).1.goto w p := by
  simp only [advance, hpc] at h
  cases h
  exact afterEnqueue_eq w (.dispatching .test chores) (.dispatch chores) [cb]

theorem advance_sound (hsound : s.Sound w) : ∃ s', s.advance kind w = .ok s' := by
  unfold Sound at hsound
  cases hpc : s.pc w with
  | scan =>
      cases hpick : s.pick <;> exact ⟨_, by simp only [advance, hpc, hpick]; rfl⟩
  | counted f =>
      simp only [hpc] at hsound
      exact ⟨_, by simp only [advance, hpc, swapIn, if_neg hsound]; rfl⟩
  | entered f =>
      simp only [hpc] at hsound
      cases hctx : (s.fibers f).ctx with
      | fresh => exact ⟨_, by simp only [advance, hpc, State.resume, hctx]; rfl⟩
      | suspended => exact ⟨_, by simp only [advance, hpc, State.resume, hctx]; rfl⟩
      | stale => exact absurd hctx hsound
  | settle f =>
      simp only [advance, hpc]
      split
      · exact ⟨_, rfl⟩
      · split <;> exact ⟨_, rfl⟩
  | idleTest =>
      simp only [advance, hpc]
      split <;> exact ⟨_, rfl⟩
  | idleCounted =>
      simp only [hpc] at hsound
      exact ⟨_, by simp only [advance, hpc, if_neg hsound]; rfl⟩
  | idling =>
      simp only [hpc] at hsound
      cases kind with
      | scheduler =>
          simp only [advance, hpc, if_pos hsound]
          split <;> exact ⟨_, rfl⟩
      | ioManager => exact ⟨_, by simp only [advance, hpc]; rfl⟩
  | dispatch chores =>
      cases chores with
      | nil => exact ⟨_, by simp only [advance, hpc]; rfl⟩
      | cons chore chores => cases chore <;> exact ⟨_, by simp only [advance, hpc]; rfl⟩
  | idleBack =>
      simp only [advance, hpc]
      split <;> exact ⟨_, rfl⟩
  | _ => exact ⟨_, by simp only [advance, hpc]; rfl⟩

end State

/-- No fiber is made, none is given another callback, and none becomes `READY`. -/
structure State.Frames (s s' : State n C) : Prop where
  nextId_eq : s'.nextId = s.nextId
  task_eq : ∀ f, (s'.fibers f).task = (s.fibers f).task
  cb_eq : ∀ f, (s'.fibers f).cb = none ∨ (s'.fibers f).cb = (s.fibers f).cb
  ready : ∀ f, (s'.fibers f).state = .READY → (s.fibers f).state = .READY

namespace State

theorem Frames.same (hnext : s'.nextId = s.nextId) (hfibers : s'.fibers = s.fibers) :
    s.Frames s' where
  nextId_eq := hnext
  task_eq := by simp [hfibers]
  cb_eq := by simp [hfibers]
  ready := by simp [hfibers]

theorem Frames.update {f : Nat} {fiber : Fiber C} (hnext : s'.nextId = s.nextId)
    (hfibers : s'.fibers = Function.update s.fibers f fiber)
    (htask : fiber.task = (s.fibers f).task)
    (hcb : fiber.cb = none ∨ fiber.cb = (s.fibers f).cb)
    (hready : fiber.state = .READY → (s.fibers f).state = .READY) : s.Frames s' := by
  have hat : ∀ g, s'.fibers g = fiber ∧ g = f ∨ s'.fibers g = s.fibers g := by
    intro g
    by_cases hg : g = f
    · exact .inl ⟨by rw [hfibers, hg, Function.update_self], hg⟩
    · exact .inr (by rw [hfibers, Function.update_of_ne hg])
  refine ⟨hnext, fun g => ?_, fun g => ?_, fun g => ?_⟩
  · rcases hat g with ⟨heq, rfl⟩ | heq
    · rw [heq, htask]
    · rw [heq]
  · rcases hat g with ⟨heq, rfl⟩ | heq
    · rwa [heq]
    · exact .inr (by rw [heq])
  · rcases hat g with ⟨heq, rfl⟩ | heq
    · rwa [heq]
    · rw [heq]
      exact id

end State

/-- A step of a worker pushes a callback, or keeps the fibers as they were made. -/
theorem Advances.frames (h : Advances kind s w s') :
    s.Frames s' ∨ ∃ callbacks p, (s.pc w).Pushes p ∧ s' = (s.enqueue callbacks).1.goto w p := by
  cases h with
  | push callbacks hpc => exact .inr ⟨callbacks, _, hpc, rfl⟩
  | enter hpc hstate => exact .inl (.update rfl rfl rfl (.inr rfl) nofun)
  | start hpc hctx => exact .inl (.update rfl rfl rfl (.inr rfl) id)
  | resume hpc hctx => exact .inl (.update rfl rfl rfl (.inr rfl) id)
  | suspend hpc => exact .inl (.update rfl rfl rfl (.inr rfl) id)
  | mark hpc => exact .inl (.update rfl rfl rfl (.inr rfl) nofun)
  | _ => exact .inl (.same rfl rfl)

/-- What can happen to the state, by the action. -/
inductive Moves (kind : Kind) (s : State n C) : Action n C → State n C → Prop
  | scheduler (callbacks : List (Option C)) (outside : List Wake) :
      Moves kind s (.scheduler callbacks) { (s.enqueue callbacks).1 with outside := outside }
  | schedulerFiber {f} (hf : f < s.nextId) : Moves kind s (.schedulerFiber f) (s.schedulerFiber f)
  | wakeup {i k} (outside : List Wake) (hk : s.wakeups ≤ k) :
      Moves kind s (.wakeup i) { s with wakeups := k, outside := outside }
  | stop : Moves kind s .stop { s with autoStop := true }
  | stopClean (hstop : s.autoStop = true) : Moves kind s .stopClean { s with clean := true }
  | advance {w : Fin n} {s' : State n C} (h : Advances kind s w s') : Moves kind s (.advance w) s'
  | epollWait {w : Fin n} {reports} (hpc : s.pc w = .waiting) :
      Moves kind s (.epollWait w reports) (s.goto w (.dispatch (reports.flatMap Report.chores)))
  | spawn {w : Fin n} {f p} (callbacks : List (Option C)) (hpc : s.pc w = .exec f)
      (hp : p = .exec f ∨ p = .spawning f .test) :
      Moves kind s (.call w (.scheduler callbacks)) ((s.enqueue callbacks).1.goto w p)
  | spawnFiber {w : Fin n} {f g} (hpc : s.pc w = .exec f) (hg : g < s.nextId) :
      Moves kind s (.call w (.schedulerFiber g)) (s.schedulerFiber g)
  | yieldToHold {w : Fin n} {f} (hpc : s.pc w = .exec f) :
      Moves kind s (.call w .yieldToHold) ((s.setState f .HOLD).goto w (.out f))
  | yieldToReady {w : Fin n} {f} (hpc : s.pc w = .exec f) :
      Moves kind s (.call w .yieldToReady) ((s.setState f .READY).goto w (.out f))
  | finish {w : Fin n} {f} (thrown : Bool) (hpc : s.pc w = .exec f) :
      Moves kind s (.call w (.finish thrown)) ((s.finish f thrown).goto w (.out f))

theorem moves_of_step {a : Action n C} (h : (machine kind n C).step s a = some s') :
    Moves kind s a s' := by
  obtain ⟨hguard, hexec⟩ := (machine kind n C).step_eq_some_iff.mp h
  simp only [machine] at hguard hexec
  cases a with
  | scheduler callbacks =>
      cases hexec
      exact .scheduler callbacks _
  | schedulerFiber f =>
      cases hexec
      exact .schedulerFiber (of_decide_eq_true hguard)
  | wakeup i =>
      simp only [State.exec] at hexec
      split at hexec
      · cases hexec
        exact .wakeup s.outside (Nat.le_refl _)
      · rename_i call hcall
        obtain ⟨k, hk, heq⟩ := State.Wakeup_eq kind s call
        cases hexec
        rw [heq]
        exact .wakeup _ hk
  | stop =>
      cases hexec
      exact .stop
  | stopClean =>
      cases hexec
      simp only [State.guard, Bool.and_eq_true] at hguard
      exact .stopClean hguard.1
  | advance w => exact .advance (State.advance_inv hguard hexec)
  | epollWait w reports =>
      simp only [State.guard] at hguard
      split at hguard
      · rename_i hpc
        cases hexec
        exact .epollWait hpc
      · cases hguard
  | call w call =>
      cases hcurrent : s.current w with
      | none =>
          cases call <;> simp [State.guard, hcurrent] at hguard
      | some f =>
          have hpc := State.current_eq_some hcurrent
          simp only [State.exec, hcurrent] at hexec
          cases call with
          | scheduler callbacks =>
              obtain ⟨p, hp, heq⟩ :=
                State.afterEnqueue_eq (s := s) w (.spawning f .test) (.exec f) callbacks
              simp only [State.perform, heq] at hexec
              cases hexec
              exact .spawn callbacks hpc hp
          | schedulerFiber g =>
              simp only [State.guard, Bool.and_eq_true, decide_eq_true_eq] at hguard
              cases hexec
              exact .spawnFiber hpc hguard.2
          | yieldToHold =>
              simp only [State.perform, State.yieldTo] at hexec
              split at hexec
              · cases hexec
                exact .yieldToHold hpc
              · cases hexec
          | yieldToReady =>
              simp only [State.perform, State.yieldTo] at hexec
              split at hexec
              · cases hexec
                exact .yieldToReady hpc
              · cases hexec
          | finish thrown =>
              cases hexec
              exact .finish thrown hpc

/-! ## Fibers that have been made -/

/-- The fiber a worker has in hand or is about to queue again. -/
def Pc.fiber? : Pc C → Option Nat
  | .requeue f => some f
  | p => p.holds

structure State.Bounded (s : State n C) : Prop where
  pending_lt : ∀ f ∈ s.pendingFunctors, f < s.nextId
  pc_lt : ∀ w f, (s.pc w).fiber? = some f → f < s.nextId

namespace State

theorem started_bounded : (started n C).Bounded where
  pending_lt := nofun
  pc_lt := nofun

theorem Bounded.same (h : s.Bounded) (hnext : s'.nextId = s.nextId) (hpc : s'.pc = s.pc)
    (hpending : ∀ f ∈ s'.pendingFunctors, f ∈ s.pendingFunctors) : s'.Bounded where
  pending_lt f hf := hnext ▸ h.pending_lt f (hpending f hf)
  pc_lt w f hf := by
    rw [hpc] at hf
    exact hnext ▸ h.pc_lt w f hf

theorem Bounded.goes {p : Pc C} (h : s.Bounded) (hnext : s'.nextId = s.nextId)
    (hpc : s'.pc = Function.update s.pc w p)
    (hpending : ∀ f ∈ s'.pendingFunctors, f ∈ s.pendingFunctors)
    (hp : ∀ f, p.fiber? = some f → f < s.nextId) : s'.Bounded where
  pending_lt f hf := hnext ▸ h.pending_lt f (hpending f hf)
  pc_lt v f hf := by
    rw [hpc] at hf
    rw [hnext]
    by_cases hv : v = w
    · subst hv
      rw [Function.update_self] at hf
      exact hp f hf
    · rw [Function.update_of_ne hv] at hf
      exact h.pc_lt v f hf

/-- The fiber of the new place is the one of the place before. -/
theorem Bounded.keep {p q : Pc C} (h : s.Bounded) (hq : s.pc w = q)
    (hnext : s'.nextId = s.nextId) (hpc : s'.pc = Function.update s.pc w p)
    (hpending : s'.pendingFunctors = s.pendingFunctors)
    (hp : ∀ f, p.fiber? = some f → q.fiber? = some f) : s'.Bounded :=
  h.goes hnext hpc (fun _ hf => hpending ▸ hf) fun f hf => h.pc_lt w f (hq ▸ hp f hf)

theorem Bounded.enqueue (h : s.Bounded) (callbacks : List (Option C)) :
    (s.enqueue callbacks).1.Bounded := by
  refine enqueue_invariant (fun s callback h => ⟨fun f hf => ?_, fun w f hf => ?_⟩) callbacks h
  · rcases List.mem_append.mp hf with hf | hf
    · exact Nat.lt_succ_of_lt (h.pending_lt f hf)
    · rw [List.mem_singleton.mp hf]
      exact Nat.lt_succ_self _
  · exact Nat.lt_succ_of_lt (h.pc_lt w f hf)

theorem Bounded.advances (h : s.Bounded) (hadv : Advances kind s w s') : s'.Bounded := by
  cases hadv with
  | take hpc hpick =>
      refine h.goes rfl rfl (fun f hf => List.mem_of_mem_erase hf) ?_
      rintro g ⟨⟩
      exact h.pending_lt _ (pick_eq_some hpick).1
  | @wake p k hpc hk =>
      generalize hq : s.pc w = q at hpc
      cases hpc with
      | found hp => rcases hp with rfl | ⟨next, rfl⟩ <;> exact h.keep hq rfl rfl rfl fun f hf => hf
      | spawning hp => rcases hp with rfl | ⟨next, rfl⟩ <;> exact h.keep hq rfl rfl rfl fun f hf => hf
      | requeued hp => rcases hp with rfl | ⟨next, rfl⟩ <;> exact h.keep hq rfl rfl rfl nofun
      | dispatching hp => rcases hp with rfl | ⟨next, rfl⟩ <;> exact h.keep hq rfl rfl rfl nofun
  | push callbacks hpc =>
      refine (h.enqueue callbacks).goes rfl rfl (fun f hf => hf) ?_
      generalize s.pc w = q at hpc
      cases hpc with
      | requeue hp => rcases hp with rfl | rfl <;> exact nofun
      | dispatch hp => rcases hp with rfl | rfl <;> exact nofun
  | count hpc => exact h.keep hpc rfl rfl rfl fun f hf => hf
  | enter hpc hstate => exact h.keep hpc rfl rfl rfl fun f hf => hf
  | start hpc hctx => exact h.keep hpc rfl rfl rfl fun f hf => hf
  | resume hpc hctx => exact h.keep hpc rfl rfl rfl fun f hf => hf
  | suspend hpc => exact h.keep hpc rfl rfl rfl fun f hf => hf
  | uncount hpc => exact h.keep hpc rfl rfl rfl fun f hf => hf
  | ready hpc hstate => exact h.keep hpc rfl rfl rfl fun f hf => hf
  | unsettled hpc hready hstate => exact h.keep hpc rfl rfl rfl fun f hf => hf
  | miss hpc hpick => exact h.keep hpc rfl rfl rfl nofun
  | ended hpc hstate => exact h.keep hpc rfl rfl rfl nofun
  | mark hpc => exact h.keep hpc rfl rfl rfl nofun
  | leave hpc hstate => exact h.keep hpc rfl rfl rfl nofun
  | idleCount hpc hstate => exact h.keep hpc rfl rfl rfl nofun
  | idleEnter hpc hstate => exact h.keep hpc rfl rfl rfl nofun
  | idleClean hpc hkind hclean => exact h.keep hpc rfl rfl rfl nofun
  | idleYield hpc hkind => exact h.keep hpc rfl rfl rfl nofun
  | idleWait hpc hkind => exact h.keep hpc rfl rfl rfl nofun
  | idleOut hpc => exact h.keep hpc rfl rfl rfl nofun
  | idleSwitch hpc => exact h.keep hpc rfl rfl rfl nofun
  | idleEnded hpc hstate => exact h.keep hpc rfl rfl rfl nofun
  | drain hpc => exact h.keep hpc rfl rfl rfl nofun
  | idleMark hpc hstate => exact h.keep hpc rfl rfl rfl nofun
  | idleUncount hpc => exact h.keep hpc rfl rfl rfl nofun

theorem Bounded.moves {a : Action n C} (h : s.Bounded) (hmoves : Moves kind s a s') :
    s'.Bounded := by
  have hpush : ∀ f, f < s.nextId → (s.schedulerFiber f).Bounded := by
    refine fun f hf => ⟨fun g hg => ?_, h.pc_lt⟩
    rcases List.mem_append.mp hg with hg | hg
    · exact h.pending_lt g hg
    · rw [List.mem_singleton.mp hg]
      exact hf
  cases hmoves with
  | scheduler callbacks outside => exact (h.enqueue callbacks).same rfl rfl fun f hf => hf
  | schedulerFiber hf => exact hpush _ hf
  | advance hadv => exact h.advances hadv
  | epollWait hpc => exact h.keep hpc rfl rfl rfl nofun
  | @spawn v f p callbacks hpc hp =>
      refine (h.enqueue callbacks).keep (q := .exec f) ?_ rfl rfl rfl ?_
      · rw [enqueue_pc, hpc]
      · rcases hp with rfl | rfl <;> exact fun g hg => hg
  | spawnFiber hpc hg => exact hpush _ hg
  | yieldToHold hpc => exact h.keep hpc rfl rfl rfl fun f hf => hf
  | yieldToReady hpc => exact h.keep hpc rfl rfl rfl fun f hf => hf
  | finish thrown hpc =>
      cases thrown <;> exact h.keep hpc rfl rfl rfl fun f hf => hf
  | _ => exact h.same rfl rfl fun f hf => hf

end State

def Action.isAdvance : Action n C → Bool
  | .advance _ => true
  | _ => false

/-- The workers alone, each going on with its own code. -/
def workers (kind : Kind) (n : Nat) (C : Type) : Machine (State n C) (Action n C) Fault :=
  (machine kind n C).restrict fun _ a => a.isAdvance

theorem step_advance (hcan : s.canAdvance w = true) (h : s.advance kind w = .ok s') :
    (workers kind n C).step s (.advance w) = some s' :=
  (machine kind n C).restrict_step_iff.mpr
    ⟨rfl, (machine kind n C).step_eq_some_iff.mpr ⟨hcan, h⟩⟩

/-- A state whose workers are all sound can make every enabled step. -/
theorem safe_of_sound (hsound : ∀ w, s.Sound w) : (machine kind n C).Safe s := by
  intro a hguard
  simp only [machine] at hguard ⊢
  cases a with
  | advance w => exact State.advance_sound (hsound w)
  | call w call =>
      cases hcurrent : s.current w with
      | none => cases call <;> simp [State.guard, hcurrent] at hguard
      | some f =>
          have hexec := hsound w
          simp only [State.Sound, State.current_eq_some hcurrent] at hexec
          simp only [State.exec, hcurrent]
          cases call <;>
            exact ⟨_, by simp only [State.perform, State.yieldTo, if_pos hexec]; rfl⟩
  | wakeup i =>
      simp only [State.exec]
      split <;> exact ⟨_, rfl⟩
  | _ => exact ⟨_, rfl⟩

end Qslary.Scheduler

import Mathlib.Data.List.Nodup
import Qslary.Foundation.Exclusive
import Qslary.Scheduler.Steps

/-!
# No callback is lost or run twice

Callbacks on a plain `Scheduler`, scheduled from outside before `stop()` or by other
callbacks, which may throw but do not yield.  A fiber is then queued once, taken once
and run to its end by the worker that took it.  A worker leaves only after a scan that
found nothing, and it is the scan of the last one that counts: whoever schedules after
`stop()` is a worker that will scan again.
-/

namespace Qslary.Scheduler

open Qslary.Foundation

variable {n : Nat} {C : Type} {s s' : State n C} {w : Fin n}

/-- Outside calls come before `stop()`; fibers neither yield nor are queued again. -/
def callbacksOnly (s : State n C) : Action n C → Bool
  | .scheduler _ => !s.autoStop
  | .schedulerFiber _ => false
  | .call _ (.scheduler _) => true
  | .call _ (.finish _) => true
  | .call _ _ => false
  | _ => true

def callbackMachine (n : Nat) (C : Type) : Machine (State n C) (Action n C) Fault :=
  (machine .scheduler n C).restrict callbacksOnly

/-- The callbacks an action schedules. -/
def Action.callbacks : Action n C → List (Option C)
  | .scheduler callbacks => callbacks
  | .call _ (.scheduler callbacks) => callbacks
  | _ => []

namespace State

/-- The callbacks scheduled so far, in the order of their fibers. -/
def tasks (s : State n C) : List (Option C) :=
  (List.range s.nextId).map fun f => (s.fibers f).task

def Finished (s : State n C) (f : Nat) : Prop := (s.fibers f).state.ended = true

def Takes (s : State n C) (w : Fin n) (f : Nat) : Prop :=
  (s.pc w).holds = some f ∧ ¬ s.Finished f

/-- The worker has made its last scan. -/
def Exiting (s : State n C) (w : Fin n) : Prop :=
  match s.pc w with
  | .left => True
  | .idleTest => (s.idleState w).ended = true
  | _ => False

end State

/-- The fiber in hand, by the phase of its holder. -/
def Pc.Runs : Pc C → Fiber C → Prop
  | .found _ _, fiber => fiber.state = .INIT ∧ fiber.ctx = .fresh
  | .took _, fiber => fiber.state = .INIT ∧ fiber.ctx = .fresh
  | .counted _, fiber => fiber.state = .INIT ∧ fiber.ctx = .fresh
  | .entered _, fiber => fiber.state = .EXEC ∧ fiber.ctx = .fresh
  | .exec _, fiber => fiber.state = .EXEC ∧ fiber.ctx = .stale
  | .spawning _ _, fiber => fiber.state = .EXEC ∧ fiber.ctx = .stale
  | .out _, fiber => fiber.state.ended = true ∧ fiber.ctx = .stale
  | .back _, fiber => fiber.state.ended = true ∧ fiber.ctx = .suspended
  | .settle _, fiber => fiber.state.ended = true ∧ fiber.ctx = .suspended
  | _, _ => False

theorem Pc.Runs.not_fresh {p : Pc C} {fiber : Fiber C} (h : p.Runs fiber)
    (hended : fiber.state.ended = true) : fiber.ctx ≠ .fresh := by
  unfold Pc.Runs at h
  split at h <;> simp_all [FiberState.ended]

/-- A fiber that is not started, or has ended. -/
def Fiber.Whole (fiber : Fiber C) : Prop :=
  (fiber.state = .INIT ∧ fiber.ctx = .fresh) ∨ (fiber.state.ended = true ∧ fiber.ctx = .suspended)

/-- The worker's idle fiber; some phases are not reached. -/
def Pc.Idles : Pc C → FiberState → Prop
  | .idleCounted, state => state ≠ .EXEC ∧ state.ended = false
  | .idling, state => state = .EXEC
  | .left, state => state.ended = true
  | .mark _, _ => False
  | .requeue _, _ => False
  | .requeued _, _ => False
  | .waiting, _ => False
  | .dispatch _, _ => False
  | .dispatching _ _, _ => False
  | _, state => state ≠ .EXEC

structure State.Accounted (s : State n C) : Prop where
  exclusive : Exclusive Pc.holds Pc.Runs Fiber.Whole (· < s.nextId) s.pc s.fibers
  nodup : s.pendingFunctors.Nodup
  mem_pending_iff : ∀ f, f ∈ s.pendingFunctors ↔
    f < s.nextId ∧ (∀ w, (s.pc w).holds ≠ some f) ∧ (s.fibers f).state = .INIT
  ran_nodup : s.ran.Nodup
  mem_ran_iff : ∀ f, f ∈ s.ran ↔ f < s.nextId ∧ (s.fibers f).ctx ≠ .fresh
  idle : ∀ w, (s.pc w).Idles (s.idleState w)
  stopped : ∀ w, (s.idleState w).ended = true → s.autoStop = true
  attended : s.pendingFunctors ≠ [] → ∃ w, ¬ s.Exiting w

namespace State

theorem started_accounted : (started n C).Accounted where
  exclusive :=
    { unique := fun h => nomatch h
      exists_of_held := fun h => nomatch h
      held := fun h => nomatch h
      unheld := fun _ => Or.inl ⟨rfl, rfl⟩ }
  nodup := List.nodup_nil
  mem_pending_iff := fun f => by simp [started]
  ran_nodup := List.nodup_nil
  mem_ran_iff := fun f => by simp [started]
  idle := fun _ => nofun
  stopped := fun _ h => nomatch h
  attended := fun h => absurd rfl h

variable {f : Nat} {p : Pc C}

theorem not_exiting (hpc : s.pc w = p) (hleft : p ≠ .left) (htest : p ≠ .idleTest) :
    ¬ s.Exiting w := by
  unfold Exiting
  split
  · rename_i heq
    exact absurd (hpc.symm.trans heq) hleft
  · rename_i heq
    exact absurd (hpc.symm.trans heq) htest
  · exact not_false

theorem not_exiting_of_holds (hpc : s.pc w = p) (hp : p.holds = some f) : ¬ s.Exiting w := by
  apply not_exiting hpc
  · rintro rfl
    cases hp
  · rintro rfl
    cases hp

/-- The counters, the calls in progress outside and `clean_` do not matter. -/
theorem Accounted.of_eq (h : s.Accounted) (hfibers : s'.fibers = s.fibers)
    (hnext : s'.nextId = s.nextId) (hpending : s'.pendingFunctors = s.pendingFunctors)
    (hpc : s'.pc = s.pc) (hidle : s'.idleState = s.idleState) (hran : s'.ran = s.ran)
    (hstop : s.autoStop = true → s'.autoStop = true) : s'.Accounted := by
  obtain ⟨fibers, nextId, pending, active, idle, autoStop, clean, pc, idleState, outside, wakeups,
    ran⟩ := s'
  subst hfibers hnext hpending hpc hidle hran
  exact ⟨h.exclusive, h.nodup, h.mem_pending_iff, h.ran_nodup, h.mem_ran_iff, h.idle,
    fun w hw => hstop (h.stopped w hw), h.attended⟩

theorem Accounted.counters (h : s.Accounted) (active idle wakeups : Nat) :
    { s with
      activeThreadCount := active
      idleThreadCount := idle
      wakeups := wakeups }.Accounted :=
  h.of_eq rfl rfl rfl rfl rfl rfl id

/-! ## Steps with a fiber in hand -/

theorem Accounted.pending_keep (h : s.Accounted) (hbefore : (s.pc w).holds = some f)
    (hafter : p.holds = some f) (fiber : Fiber C) (g : Nat) :
    g ∈ s.pendingFunctors ↔ g < s.nextId ∧
      (∀ w', (Function.update s.pc w p w').holds ≠ some g) ∧
      (Function.update s.fibers f fiber g).state = .INIT := by
  simp only [Exclusive.holds_update (hafter.trans hbefore.symm)]
  rw [h.mem_pending_iff]
  refine and_congr_right fun _ => and_congr_right fun hfree => ?_
  have hne : g ≠ f := by
    rintro rfl
    exact hfree w hbefore
  rw [Function.update_of_ne hne]

theorem Accounted.write (h : s.Accounted) (hbefore : (s.pc w).holds = some f)
    (hafter : p.holds = some f) {fiber : Fiber C} (hruns : p.Runs fiber)
    (hctx : fiber.ctx = .fresh ↔ (s.fibers f).ctx = .fresh)
    (hidle : p.Idles (s.idleState w)) : ((s.setFiber f fiber).goto w p).Accounted := by
  refine ⟨h.exclusive.keep hbefore hafter hruns, h.nodup, h.pending_keep hbefore hafter fiber,
    h.ran_nodup, fun g => ?_, forall_goto h.idle hidle, h.stopped, fun _ => ⟨w, ?_⟩⟩
  · change g ∈ s.ran ↔ g < s.nextId ∧ (Function.update s.fibers f fiber g).ctx ≠ .fresh
    rw [h.mem_ran_iff]
    by_cases hg : g = f
    · rw [hg, Function.update_self, Ne, Ne, hctx]
    · rw [Function.update_of_ne hg]
  · exact not_exiting_of_holds (Function.update_self _ _ _) hafter

theorem Accounted.stay (h : s.Accounted) (hbefore : (s.pc w).holds = some f)
    (hafter : p.holds = some f) (hruns : p.Runs (s.fibers f))
    (hidle : p.Idles (s.idleState w)) : (s.goto w p).Accounted := by
  have hwrite := h.write hbefore hafter hruns Iff.rfl hidle
  rwa [setFiber, Function.update_eq_self] at hwrite

/-- `FiberRun` calls the callback. -/
theorem Accounted.start (h : s.Accounted) (hpc : s.pc w = .entered f) :
    ({ s.setFiber f { s.fibers f with ctx := .stale } with ran := s.ran ++ [f] }.goto w
      (.exec f)).Accounted := by
  have hbefore : (s.pc w).holds = some f := by rw [hpc]; rfl
  have hruns := h.exclusive.held hbefore
  have hidle := h.idle w
  rw [hpc] at hruns hidle
  have hnew : f ∉ s.ran := by
    rw [h.mem_ran_iff]
    rintro ⟨-, hctx⟩
    exact hctx hruns.2
  refine ⟨h.exclusive.keep hbefore rfl ⟨hruns.1, rfl⟩, h.nodup, h.pending_keep hbefore rfl _,
    h.ran_nodup.append (List.nodup_singleton f) (by simpa using hnew), fun g => ?_,
    forall_goto h.idle hidle, h.stopped, fun _ => ⟨w, ?_⟩⟩
  · change g ∈ s.ran ++ [f] ↔
      g < s.nextId ∧ (Function.update s.fibers f { s.fibers f with ctx := .stale } g).ctx ≠ .fresh
    rw [List.mem_append, List.mem_singleton, h.mem_ran_iff]
    by_cases hg : g = f
    · subst hg
      have hlt : g < s.nextId := h.exclusive.exists_of_held hbefore
      simp [hlt]
    · simp [hg]
  · exact not_exiting_of_holds (Function.update_self _ _ _) rfl

/-- The worker is through with a fiber that has ended. -/
theorem Accounted.drop (h : s.Accounted) (hpc : s.pc w = .settle f) :
    (s.goto w .scan).Accounted := by
  have hbefore : (s.pc w).holds = some f := by rw [hpc]; rfl
  have hruns := h.exclusive.held hbefore
  have hidle := h.idle w
  rw [hpc] at hruns hidle
  refine ⟨h.exclusive.drop hbefore rfl (Or.inr hruns), h.nodup, fun g => ?_, h.ran_nodup,
    h.mem_ran_iff, forall_goto h.idle hidle, h.stopped, fun _ => ⟨w, ?_⟩⟩
  · change g ∈ s.pendingFunctors ↔ g < s.nextId ∧
      (∀ w', (Function.update s.pc w .scan w').holds ≠ some g) ∧ (s.fibers g).state = .INIT
    rw [h.mem_pending_iff]
    refine and_congr_right fun _ => and_congr_left fun hinit => ?_
    have hne : g ≠ f := by
      rintro rfl
      have hended := hruns.1
      rw [hinit] at hended
      cases hended
    refine forall_congr' fun w' => ?_
    by_cases hw : w' = w
    · rw [hw, Function.update_self, hbefore]
      simpa [Pc.holds] using hne.symm
    · rw [Function.update_of_ne hw]
  · exact not_exiting (Function.update_self _ _ _) nofun nofun

theorem Accounted.take (h : s.Accounted) (hpc : s.pc w = .scan) (hpick : s.pick = some f) :
    ({ s with pendingFunctors := s.pendingFunctors.erase f }.goto w
      (.found f .test)).Accounted := by
  have hmem := (pick_eq_some hpick).1
  obtain ⟨hlt, hfree, hinit⟩ := (h.mem_pending_iff f).mp hmem
  have hbefore : (s.pc w).holds = none := by rw [hpc]; rfl
  have hidle := h.idle w
  rw [hpc] at hidle
  have hwhole : (Pc.found f .test : Pc C).Runs (s.fibers f) := by
    rcases h.exclusive.unheld hfree with hfresh | ⟨hended, -⟩
    · exact hfresh
    · rw [hinit] at hended
      cases hended
  refine ⟨h.exclusive.acquire hbefore hfree rfl hlt hwhole, h.nodup.erase f, fun g => ?_,
    h.ran_nodup, h.mem_ran_iff, forall_goto h.idle hidle, h.stopped, fun _ => ⟨w, ?_⟩⟩
  · change g ∈ s.pendingFunctors.erase f ↔ g < s.nextId ∧
      (∀ w', (Function.update s.pc w (.found f .test) w').holds ≠ some g) ∧
      (s.fibers g).state = .INIT
    rw [h.nodup.mem_erase_iff, h.mem_pending_iff]
    constructor
    · rintro ⟨hne, hg, hunheld, hstate⟩
      refine ⟨hg, fun w' => ?_, hstate⟩
      by_cases hw : w' = w
      · rw [hw, Function.update_self]
        exact fun heq => hne (Option.some.inj heq).symm
      · rw [Function.update_of_ne hw]
        exact hunheld w'
    · rintro ⟨hg, hunheld, hstate⟩
      refine ⟨?_, hg, fun w' => ?_, hstate⟩
      · rintro rfl
        exact hunheld w (by rw [Function.update_self]; rfl)
      · by_cases hw : w' = w
        · rw [hw, hbefore]
          intro heq
          cases heq
        · have hother := hunheld w'
          rwa [Function.update_of_ne hw] at hother
  · exact not_exiting_of_holds (Function.update_self _ _ _) rfl

/-! ## Steps without -/

theorem Accounted.rest (h : s.Accounted) (hbefore : (s.pc w).holds = none)
    (hafter : p.holds = none) (hidle : p.Idles (s.idleState w))
    (hattended : s.pendingFunctors ≠ [] → ∃ w', ¬ (s.goto w p).Exiting w') :
    (s.goto w p).Accounted := by
  refine ⟨h.exclusive.idle hbefore hafter, h.nodup, fun g => ?_, h.ran_nodup, h.mem_ran_iff,
    forall_goto h.idle hidle, h.stopped, hattended⟩
  change g ∈ s.pendingFunctors ↔ g < s.nextId ∧
    (∀ w', (Function.update s.pc w p w').holds ≠ some g) ∧ (s.fibers g).state = .INIT
  simp only [Exclusive.holds_update (hafter.trans hbefore.symm)]
  exact h.mem_pending_iff g

theorem Accounted.restIdle (h : s.Accounted) (hbefore : (s.pc w).holds = none)
    (hafter : p.holds = none) {state : FiberState} (hidle : p.Idles state)
    (hstopped : state.ended = true → s.autoStop = true)
    (hleft : p ≠ .left) (htest : p ≠ .idleTest) : ((s.setIdle w state).goto w p).Accounted := by
  refine ⟨h.exclusive.idle hbefore hafter, h.nodup, fun g => ?_, h.ran_nodup, h.mem_ran_iff,
    forall_goto_set h.idle hidle, fun w' hw' => ?_, fun _ => ⟨w, ?_⟩⟩
  · change g ∈ s.pendingFunctors ↔ g < s.nextId ∧
      (∀ w', (Function.update s.pc w p w').holds ≠ some g) ∧ (s.fibers g).state = .INIT
    simp only [Exclusive.holds_update (hafter.trans hbefore.symm)]
    exact h.mem_pending_iff g
  · change (Function.update s.idleState w state w').ended = true at hw'
    by_cases hw : w' = w
    · rw [hw, Function.update_self] at hw'
      exact hstopped hw'
    · rw [Function.update_of_ne hw] at hw'
      exact h.stopped w' hw'
  · exact not_exiting (Function.update_self _ _ _) hleft htest

theorem Accounted.schedulerNoLock (h : s.Accounted) (callback : Option C)
    (hattended : ∃ w, ¬ s.Exiting w) : (s.schedulerNoLock callback).1.Accounted := by
  have hnew : ∀ w, (s.pc w).holds ≠ some s.nextId := by
    intro w hw
    exact Nat.lt_irrefl _ (h.exclusive.exists_of_held hw)
  have hlt : ∀ g ∈ s.pendingFunctors, g < s.nextId := fun g hg => ((h.mem_pending_iff g).mp hg).1
  refine ⟨h.exclusive.alloc (Nat.lt_irrefl _) (Or.inl ⟨rfl, rfl⟩) fun g hg => Nat.lt_succ_of_lt hg,
    ?_, fun g => ?_, h.ran_nodup, fun g => ?_, h.idle, h.stopped, fun _ => hattended⟩
  · refine h.nodup.append (List.nodup_singleton _) ?_
    simpa using fun hmem => Nat.lt_irrefl _ (hlt _ hmem)
  · change g ∈ s.pendingFunctors ++ [s.nextId] ↔ g < s.nextId + 1 ∧
      (∀ w', (s.pc w').holds ≠ some g) ∧ (Function.update s.fibers s.nextId _ g).state = .INIT
    rw [List.mem_append, List.mem_singleton, h.mem_pending_iff]
    by_cases hg : g = s.nextId
    · subst hg
      simpa using hnew
    · rw [Function.update_of_ne hg]
      have hsucc : g < s.nextId + 1 ↔ g < s.nextId := by omega
      simp only [hg, or_false, hsucc]
  · change g ∈ s.ran ↔ g < s.nextId + 1 ∧ (Function.update s.fibers s.nextId _ g).ctx ≠ .fresh
    rw [h.mem_ran_iff]
    by_cases hg : g = s.nextId
    · subst hg
      simp
    · rw [Function.update_of_ne hg]
      have hsucc : g < s.nextId + 1 ↔ g < s.nextId := by omega
      rw [hsucc]

/-! ## Every step -/

theorem Accounted.enqueue (h : s.Accounted) (callbacks : List (Option C))
    (hattended : ∃ w, ¬ s.Exiting w) : (s.enqueue callbacks).1.Accounted := by
  have hboth : (s.enqueue callbacks).1.Accounted ∧ ∃ w, ¬ (s.enqueue callbacks).1.Exiting w :=
    enqueue_invariant (I := fun t => t.Accounted ∧ ∃ w, ¬ t.Exiting w)
      (fun t callback ht => ⟨ht.1.schedulerNoLock callback ht.2, ht.2⟩) callbacks ⟨h, hattended⟩
  exact hboth.1

theorem Accounted.not_exiting (h : s.Accounted) (hstop : s.autoStop = false) (w : Fin n) :
    ¬ s.Exiting w := by
  have hlive : (s.idleState w).ended = false := by
    cases hended : (s.idleState w).ended with
    | false => rfl
    | true => rw [h.stopped w hended] at hstop; cases hstop
  have hidle := h.idle w
  intro hexit
  unfold Exiting at hexit
  split at hexit
  · rename_i hpc
    rw [hpc] at hidle
    exact absurd (hlive.symm.trans hidle) nofun
  · exact absurd (hlive.symm.trans hexit) nofun
  · exact hexit

theorem Accounted.miss (h : s.Accounted) (hpc : s.pc w = .scan) (hpick : s.pick = none) :
    (s.goto w .idleTest).Accounted := by
  have hidle := h.idle w
  rw [hpc] at hidle
  refine h.rest (by rw [hpc]; rfl) rfl hidle fun hpending => ?_
  obtain ⟨f, hf⟩ := List.exists_mem_of_ne_nil _ hpending
  have hrunnable := pick_eq_none hpick f hf
  rw [((h.mem_pending_iff f).mp hf).2.2] at hrunnable
  cases hrunnable

theorem Accounted.leave (h : s.Accounted) (hpc : s.pc w = .idleTest)
    (hstate : (s.idleState w).ended = true) : (s.goto w .left).Accounted := by
  refine h.rest (by rw [hpc]; rfl) rfl hstate fun hpending => ?_
  obtain ⟨w', hw'⟩ := h.attended hpending
  have hne : w' ≠ w := by
    rintro rfl
    apply hw'
    simp only [Exiting, hpc]
    exact hstate
  refine ⟨w', ?_⟩
  have hsame : (s.goto w .left).pc w' = s.pc w' := Function.update_of_ne hne _ _
  unfold Exiting at hw' ⊢
  rw [hsame]
  exact hw'

theorem Accounted.wake (h : s.Accounted) {k : Nat} (hpc : (s.pc w).Wakes p) :
    ({ s with wakeups := k }.goto w p).Accounted := by
  have h' := h.counters s.activeThreadCount s.idleThreadCount k
  have hidle := h.idle w
  have hheld : ∀ f, (s.pc w).holds = some f → (s.pc w).Runs (s.fibers f) :=
    fun f hf => h.exclusive.held hf
  generalize hq : s.pc w = q at hpc hidle hheld
  cases hpc with
  | found hp =>
      rcases hp with rfl | ⟨next, rfl⟩ <;>
        exact h'.stay (by rw [hq]; rfl) rfl (hheld _ rfl) hidle
  | spawning hp =>
      rcases hp with rfl | ⟨next, rfl⟩ <;>
        exact h'.stay (by rw [hq]; rfl) rfl (hheld _ rfl) hidle
  | requeued hp => exact hidle.elim
  | dispatching hp => exact hidle.elim

theorem Accounted.advances (h : s.Accounted) (hadv : Advances .scheduler s w s') :
    s'.Accounted := by
  have hidle := h.idle w
  have hheld : ∀ f, (s.pc w).holds = some f → (s.pc w).Runs (s.fibers f) :=
    fun f hf => h.exclusive.held hf
  cases hadv with
  | take hpc hpick => exact h.take hpc hpick
  | miss hpc hpick => exact h.miss hpc hpick
  | wake hpc hk => exact h.wake hpc
  | push callbacks hpc =>
      generalize s.pc w = q at hpc hidle
      cases hpc <;> exact hidle.elim
  | count hpc =>
      rw [hpc] at hidle hheld
      exact (h.counters _ _ _).stay (by rw [hpc]; rfl) rfl (hheld _ rfl) hidle
  | enter hpc hstate =>
      rw [hpc] at hidle hheld
      exact h.write (by rw [hpc]; rfl) rfl ⟨rfl, (hheld _ rfl).2⟩ Iff.rfl hidle
  | start hpc hctx => exact h.start hpc
  | resume hpc hctx =>
      rw [hpc] at hheld
      exact absurd ((hheld _ rfl).2.symm.trans hctx) nofun
  | @suspend f hpc =>
      rw [hpc] at hidle hheld
      have hctx : (s.fibers f).ctx = .stale := (hheld f rfl).2
      exact h.write (by rw [hpc]; rfl) rfl ⟨(hheld f rfl).1, rfl⟩ (by simp [hctx]) hidle
  | uncount hpc =>
      rw [hpc] at hidle hheld
      exact (h.counters _ _ _).stay (by rw [hpc]; rfl) rfl (hheld _ rfl) hidle
  | ready hpc hstate =>
      rw [hpc] at hheld
      have hended := (hheld _ rfl).1
      rw [hstate] at hended
      cases hended
  | ended hpc hstate => exact h.drop hpc
  | unsettled hpc hready hstate =>
      rw [hpc] at hheld
      exact absurd (hstate.symm.trans (hheld _ rfl).1) nofun
  | mark hpc =>
      rw [hpc] at hidle
      exact hidle.elim
  | leave hpc hstate => exact h.leave hpc hstate
  | idleCount hpc hstate =>
      rw [hpc] at hidle
      exact (h.counters _ _ _).rest (by rw [hpc]; rfl) rfl ⟨hidle, hstate⟩
        fun _ => ⟨w, State.not_exiting (Function.update_self _ _ _) nofun nofun⟩
  | idleEnter hpc hstate => exact h.restIdle (by rw [hpc]; rfl) rfl rfl nofun nofun nofun
  | idleClean hpc hkind hclean =>
      have hstop : s.autoStop = true := by
        simp only [IsClean, Bool.and_eq_true] at hclean
        exact hclean.1.1.1
      exact h.restIdle (by rw [hpc]; rfl) rfl nofun (fun _ => hstop) nofun nofun
  | idleYield hpc hkind => exact h.restIdle (by rw [hpc]; rfl) rfl nofun nofun nofun nofun
  | idleWait hpc hkind => cases hkind
  | drain hpc =>
      rw [hpc] at hidle
      exact hidle.elim
  | idleOut hpc =>
      rw [hpc] at hidle
      exact hidle.elim
  | idleSwitch hpc =>
      rw [hpc] at hidle
      exact h.rest (by rw [hpc]; rfl) rfl hidle
        fun _ => ⟨w, State.not_exiting (Function.update_self _ _ _) nofun nofun⟩
  | idleEnded hpc hstate =>
      rw [hpc] at hidle
      exact h.rest (by rw [hpc]; rfl) rfl hidle
        fun _ => ⟨w, State.not_exiting (Function.update_self _ _ _) nofun nofun⟩
  | idleMark hpc hstate => exact h.restIdle (by rw [hpc]; rfl) rfl nofun nofun nofun nofun
  | idleUncount hpc =>
      rw [hpc] at hidle
      exact (h.counters _ _ _).rest (by rw [hpc]; rfl) rfl hidle
        fun _ => ⟨w, State.not_exiting (Function.update_self _ _ _) nofun nofun⟩

theorem Accounted.moves {a : Action n C} (hn : 0 < n) (h : s.Accounted)
    (ha : callbacksOnly s a = true) (hmoves : Moves .scheduler s a s') : s'.Accounted := by
  cases hmoves with
  | scheduler callbacks outside =>
      have hstop : s.autoStop = false := by simpa [callbacksOnly] using ha
      have h' := h.enqueue callbacks ⟨⟨0, hn⟩, h.not_exiting hstop _⟩
      exact h'.of_eq rfl rfl rfl rfl rfl rfl id
  | schedulerFiber hf => cases ha
  | wakeup outside hk => exact h.of_eq rfl rfl rfl rfl rfl rfl id
  | stop => exact h.of_eq rfl rfl rfl rfl rfl rfl fun _ => rfl
  | stopClean hstop => exact h.of_eq rfl rfl rfl rfl rfl rfl id
  | advance hadv => exact h.advances hadv
  | @epollWait v reports hpc =>
      have hidle := h.idle v
      rw [hpc] at hidle
      exact hidle.elim
  | @spawn v f p callbacks hpc hp =>
      have hholds : (s.pc v).holds = some f := by rw [hpc]; rfl
      have h' := h.enqueue callbacks ⟨v, not_exiting_of_holds rfl hholds⟩
      rw [← enqueue_pc callbacks] at hpc hholds
      have hidle := h'.idle v
      have hheld := h'.exclusive.held hholds
      rw [hpc] at hidle hheld
      rcases hp with rfl | rfl <;> exact h'.stay hholds rfl hheld hidle
  | spawnFiber hpc hg => cases ha
  | yieldToHold hpc => cases ha
  | yieldToReady hpc => cases ha
  | @finish v f thrown hpc =>
      have hholds : (s.pc v).holds = some f := by rw [hpc]; rfl
      have hidle := h.idle v
      have hheld := h.exclusive.held hholds
      rw [hpc] at hidle hheld
      cases thrown <;> exact h.write hholds rfl ⟨rfl, hheld.2⟩ Iff.rfl hidle

theorem Accounted.sound (h : s.Accounted) : ∀ w, s.Sound w := by
  intro w
  have hidle := h.idle w
  have hheld : ∀ f, (s.pc w).holds = some f → (s.pc w).Runs (s.fibers f) :=
    fun f hf => h.exclusive.held hf
  unfold Sound
  split
  · rename_i f hpc
    rw [hpc] at hheld
    rw [(hheld f rfl).1]
    exact nofun
  · rename_i f hpc
    rw [hpc] at hheld
    rw [(hheld f rfl).2]
    exact nofun
  · rename_i f hpc
    rw [hpc] at hheld
    exact (hheld f rfl).1
  · rename_i hpc
    rw [hpc] at hidle
    exact hidle.1
  · rename_i hpc
    rw [hpc] at hidle
    exact hidle
  · trivial

/-! ## The callbacks behind the fibers -/

theorem tasks_congr (hnext : s'.nextId = s.nextId)
    (htask : ∀ g, (s'.fibers g).task = (s.fibers g).task) : s'.tasks = s.tasks := by
  simp only [tasks, hnext, htask]

theorem task_update {fiber : Fiber C} (hfiber : fiber.task = (s.fibers f).task) (g : Nat) :
    (Function.update s.fibers f fiber g).task = (s.fibers g).task := by
  by_cases hg : g = f
  · rw [hg, Function.update_self, hfiber]
  · rw [Function.update_of_ne hg]

theorem tasks_schedulerNoLock (s : State n C) (callback : Option C) :
    (s.schedulerNoLock callback).1.tasks = s.tasks ++ [callback] := by
  change (List.range (s.nextId + 1)).map (fun f => (Function.update s.fibers s.nextId _ f).task) = _
  rw [List.range_succ, List.map_append, List.map_singleton, Function.update_self]
  congr 1
  apply List.map_congr_left
  intro g hg
  rw [Function.update_of_ne (Nat.ne_of_lt (List.mem_range.mp hg))]

theorem tasks_enqueue (callbacks : List (Option C)) :
    (s.enqueue callbacks).1.tasks = s.tasks ++ callbacks := by
  induction callbacks generalizing s with
  | nil => exact (List.append_nil _).symm
  | cons callback callbacks ih =>
      change ((s.schedulerNoLock callback).1.enqueue callbacks).1.tasks = _
      rw [ih, tasks_schedulerNoLock, List.append_assoc, List.singleton_append]

theorem Accounted.tasks_advances (h : s.Accounted) (hadv : Advances .scheduler s w s') :
    s'.tasks = s.tasks := by
  have hidle := h.idle w
  cases hadv with
  | push callbacks hpc =>
      generalize s.pc w = q at hpc hidle
      cases hpc <;> exact hidle.elim
  | enter hpc hstate => exact tasks_congr rfl (task_update rfl)
  | start hpc hctx => exact tasks_congr rfl (task_update rfl)
  | resume hpc hctx => exact tasks_congr rfl (task_update rfl)
  | suspend hpc => exact tasks_congr rfl (task_update rfl)
  | mark hpc => exact tasks_congr rfl (task_update rfl)
  | _ => exact tasks_congr rfl fun _ => rfl

theorem Accounted.tasks_moves {a : Action n C} (h : s.Accounted)
    (ha : callbacksOnly s a = true) (hmoves : Moves .scheduler s a s') :
    s'.tasks = s.tasks ++ a.callbacks := by
  have hnone : s.tasks = s.tasks ++ [] := (List.append_nil _).symm
  cases hmoves with
  | scheduler callbacks outside => exact tasks_enqueue callbacks
  | schedulerFiber hf => cases ha
  | advance hadv => exact (h.tasks_advances hadv).trans hnone
  | spawn callbacks hpc hp => exact tasks_enqueue callbacks
  | spawnFiber hpc hg => cases ha
  | yieldToHold hpc => cases ha
  | yieldToReady hpc => cases ha
  | @finish v f thrown hpc =>
      have hsame : ((s.finish f thrown).goto v (.out f)).tasks = s.tasks := by
        cases thrown <;> exact tasks_congr rfl (task_update rfl)
      exact hsame.trans hnone
  | _ => exact (tasks_congr rfl fun _ => rfl).trans hnone

theorem Accounted.run {acts : List (Action n C)} (hn : 0 < n) (h : s.Accounted)
    (hrun : (callbackMachine n C).run s acts = some s') :
    s'.Accounted ∧ s'.tasks = s.tasks ++ acts.flatMap Action.callbacks := by
  induction acts generalizing s with
  | nil =>
      cases hrun
      simpa using h
  | cons a acts ih =>
      obtain ⟨mid, hmid, hrest⟩ := (callbackMachine n C).run_cons_iff.mp hrun
      obtain ⟨ha, hstep⟩ := Machine.restrict_step_iff _ |>.mp hmid
      have hmoves := moves_of_step hstep
      obtain ⟨hs', htasks⟩ := ih (h.moves hn ha hmoves) hrest
      refine ⟨hs', ?_⟩
      rw [htasks, h.tasks_moves ha hmoves, List.flatMap_cons, List.append_assoc]

/-! ## Where the callbacks are -/

theorem Accounted.count_ran (h : s.Accounted) (hf : f < s.nextId) (hfinished : s.Finished f) :
    s.ran.count f = 1 := by
  refine List.count_eq_one_of_mem h.ran_nodup ((h.mem_ran_iff f).mpr ⟨hf, ?_⟩)
  by_cases hheld : ∃ w, (s.pc w).holds = some f
  · obtain ⟨w, hw⟩ := hheld
    exact (h.exclusive.held hw).not_fresh hfinished
  · have hfree : ∀ w, (s.pc w).holds ≠ some f := fun w hw => hheld ⟨w, hw⟩
    rcases h.exclusive.unheld hfree with ⟨hinit, -⟩ | ⟨-, hctx⟩
    · rw [Finished, hinit] at hfinished
      cases hfinished
    · rw [hctx]
      exact nofun

theorem Accounted.place (h : s.Accounted) (hf : f < s.nextId) :
    (s.pendingFunctors.count f = 1 ∧ (∀ w, ¬ s.Takes w f) ∧ ¬ s.Finished f) ∨
    (f ∉ s.pendingFunctors ∧ (∃! w, s.Takes w f) ∧ ¬ s.Finished f) ∨
    (f ∉ s.pendingFunctors ∧ (∀ w, ¬ s.Takes w f) ∧ s.Finished f ∧ s.ran.count f = 1) := by
  by_cases hfinished : s.Finished f
  · have hnot : (s.fibers f).state ≠ .INIT := by
      intro hinit
      rw [Finished, hinit] at hfinished
      cases hfinished
    refine Or.inr (Or.inr ⟨?_, fun w hw => hw.2 hfinished, hfinished, ?_⟩)
    · intro hmem
      exact hnot ((h.mem_pending_iff f).mp hmem).2.2
    · exact h.count_ran hf hfinished
  · by_cases hheld : ∃ w, (s.pc w).holds = some f
    · obtain ⟨w, hw⟩ := hheld
      refine Or.inr (Or.inl ⟨?_, ⟨w, ⟨hw, hfinished⟩, ?_⟩, hfinished⟩)
      · intro hmem
        exact ((h.mem_pending_iff f).mp hmem).2.1 w hw
      · intro w' hw'
        exact h.exclusive.unique hw'.1 hw
    · have hfree : ∀ w, (s.pc w).holds ≠ some f := fun w hw => hheld ⟨w, hw⟩
      have hinit : (s.fibers f).state = .INIT := by
        rcases h.exclusive.unheld hfree with hfresh | ⟨hended, -⟩
        · exact hfresh.1
        · exact absurd hended hfinished
      refine Or.inl ⟨?_, fun w hw => hfree w hw.1, hfinished⟩
      exact List.count_eq_one_of_mem h.nodup ((h.mem_pending_iff f).mpr ⟨hf, hfree, hinit⟩)

theorem Accounted.pending_eq_nil (h : s.Accounted) (hleft : ∀ w, s.pc w = .left) :
    s.pendingFunctors = [] := by
  by_contra hpending
  obtain ⟨w, hw⟩ := h.attended hpending
  apply hw
  simp only [Exiting, hleft w]

theorem Accounted.ran_perm (h : s.Accounted) (hleft : ∀ w, s.pc w = .left) :
    s.ran.Perm (List.range s.nextId) := by
  refine (List.perm_ext_iff_of_nodup h.ran_nodup List.nodup_range).mpr fun f => ?_
  rw [h.mem_ran_iff, List.mem_range]
  refine and_iff_left_of_imp fun hf => ?_
  have hfree : ∀ w, (s.pc w).holds ≠ some f := by
    intro w
    rw [hleft w]
    exact nofun
  rcases h.exclusive.unheld hfree with ⟨hinit, -⟩ | ⟨-, hctx⟩
  · have hmem := (h.mem_pending_iff f).mpr ⟨hf, hfree, hinit⟩
    rw [h.pending_eq_nil hleft] at hmem
    cases hmem
  · rw [hctx]
    exact nofun

end State

/--
On any number of workers and in any interleaving, each callback scheduled so far is in
the queue, with one worker, or finished after one call; and when all workers have left
`run()` the queue is empty and every callback has been called exactly once.
-/
theorem no_callback_lost {n : Nat} {C : Type} (hn : 0 < n) (acts : List (Action n C))
    (s : State n C) (hrun : (callbackMachine n C).run (.started n C) acts = some s) :
    s.tasks = acts.flatMap Action.callbacks ∧
    (∀ f < s.nextId,
      (s.pendingFunctors.count f = 1 ∧ (∀ w, ¬ s.Takes w f) ∧ ¬ s.Finished f) ∨
      (f ∉ s.pendingFunctors ∧ (∃! w, s.Takes w f) ∧ ¬ s.Finished f) ∨
      (f ∉ s.pendingFunctors ∧ (∀ w, ¬ s.Takes w f) ∧ s.Finished f ∧ s.ran.count f = 1)) ∧
    ((∀ w, s.pc w = .left) →
      s.pendingFunctors = [] ∧ s.ran.Perm (List.range s.tasks.length)) ∧
    (callbackMachine n C).Safe s := by
  obtain ⟨hs, htasks⟩ := State.started_accounted.run hn hrun
  have hlength : s.tasks.length = s.nextId := by simp [State.tasks]
  refine ⟨htasks, fun f hf => hs.place hf, fun hleft => ?_, fun a hguard => ?_⟩
  · rw [hlength]
    exact ⟨hs.pending_eq_nil hleft, hs.ran_perm hleft⟩
  · simp only [callbackMachine, Machine.restrict, Bool.and_eq_true] at hguard
    exact safe_of_sound hs.sound a hguard.1

/-- One worker runs two callbacks, the second scheduled by the first, and leaves. -/
def sampleStop : List (Action 1 Nat) :=
  [ .scheduler [some 7]
  , .advance 0, .advance 0, .advance 0, .advance 0, .advance 0
  , .stop, .stopClean
  , .call 0 (.scheduler [some 8]), .advance 0, .call 0 (.finish true)
  , .advance 0, .advance 0, .advance 0
  , .advance 0, .advance 0, .advance 0, .advance 0, .advance 0
  , .call 0 (.finish false)
  , .advance 0, .advance 0, .advance 0
  , .advance 0, .advance 0, .advance 0, .advance 0, .advance 0, .advance 0, .advance 0
  , .advance 0, .advance 0 ]

theorem no_callback_lost_sample :
    ∃ s, (callbackMachine 1 Nat).run (.started 1 Nat) sampleStop = some s ∧
      (∀ w, s.pc w = .left) ∧ s.tasks = [some 7, some 8] ∧ s.ran.Perm [0, 1] := by
  have hrun : ((callbackMachine 1 Nat).run (.started 1 Nat) sampleStop).map
      (fun s => decide (∀ w, s.pc w = .left)) = some true := by decide +kernel
  obtain ⟨s, hs, hdecide⟩ := Option.map_eq_some_iff.mp hrun
  have hleft := of_decide_eq_true hdecide
  obtain ⟨htasks, -, hdone, -⟩ := no_callback_lost (by decide) sampleStop s hs
  have hperm := (hdone hleft).2
  rw [htasks] at hperm
  exact ⟨s, hs, hleft, htasks, hperm⟩

end Qslary.Scheduler

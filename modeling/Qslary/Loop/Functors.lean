import Qslary.Loop.Handling

/-!
# Functors that are queued

Every functor that begins does so in the first batch that is taken after it was queued, and
in the order in which it was queued; in a thread without a scheduler none begins.  Once the
loop is told to stop there is one more batch at most, so that what is queued behind it waits
for the loop to be run again.
-/

namespace Qslary.Loop

open Qslary.Foundation
open Qslary.Events (EventMask)
open Qslary.Poller (Channels EPollPoller Seat)

variable {χ F : Type}

/-- The functors of `doPendingFunctors` that have not begun. -/
def LoopPc.batch : LoopPc χ F → List F
  | .calling fiber functors => fiber :: functors
  | .inFiber _ functors => functors
  | _ => []

theorem LoopPc.batch_of_swapping : (.swapping : LoopPc χ F).batch = [] := rfl

theorem LoopPc.batch_of_inFiber (fiber : F) (functors : List F) :
    (.inFiber fiber functors : LoopPc χ F).batch = functors := rfl

@[simp] theorem batch_forFunctors (functors : List F) :
    (LoopPc.forFunctors functors : LoopPc χ F).batch = functors := by
  cases functors <;> rfl

/-- How often the loop still polls and takes a batch before it tests `quit_`. -/
def LoopPc.pollsLeft : LoopPc χ F → Nat
  | .polling => 1
  | _ => 0

def LoopPc.batchesLeft : LoopPc χ F → Nat
  | .polling | .events _ | .inChannel _ _ | .swapping => 1
  | _ => 0

theorem LoopPc.batchesLeft_of_swapping : (.swapping : LoopPc χ F).batchesLeft = 1 := rfl

@[simp] theorem pollsLeft_forFunctors (functors : List F) :
    (LoopPc.forFunctors functors : LoopPc χ F).pollsLeft = 0 := by
  cases functors <;> rfl

@[simp] theorem batchesLeft_forFunctors (functors : List F) :
    (LoopPc.forFunctors functors : LoopPc χ F).batchesLeft = 0 := by
  cases functors <;> rfl

/-- The loop with a record of what was queued, with the batch in which it is due, and of what
has begun, with the batch in which it did. -/
structure Recorded (χ F : Type) where
  loop : EventLoop χ F
  batches : Nat
  queued : List (F × Nat)
  begun : List (F × Nat)

namespace Recorded

def new (inScheduler : Bool) : Recorded χ F := ⟨.new inScheduler, 0, [], []⟩

def record (r : Recorded χ F) (a : Action χ F) (l : EventLoop χ F) : Recorded χ F :=
  match a, r.loop.pc with
  | .own (.queueInLoop cb), _ | .queueInLoop cb, _ =>
      { r with loop := l, queued := r.queued ++ [(cb, r.batches + 1)] }
  | .swap, _ => { r with loop := l, batches := r.batches + 1 }
  | .swapIn, .calling fiber _ => { r with loop := l, begun := r.begun ++ [(fiber, r.batches)] }
  | _, _ => { r with loop := l }

def machine [DecidableEq χ] (chs : Channels χ) : Machine (Recorded χ F) (Action χ F) Fault where
  guard r a := r.loop.guard chs a
  exec r a := (r.loop.exec chs a).map (r.record a)

end Recorded

/-! ## Steps -/

/-- What an action does, apart from what becomes of the channels. -/
inductive Effect (l : EventLoop χ F) : Action χ F → EventLoop χ F → Prop where
  | channel {a : Poller.Answered χ} {poller : EPollPoller χ} :
      Effect l (.own (.channel a)) { l with poller_ := poller }
  | destroy {c : χ} {destroyed : χ → Bool} :
      Effect l (.own (.destroy c)) { l with destroyed := destroyed }
  | queueOwn {cb : F} : Effect l (.own (.queueInLoop cb)) (l.queueInLoop cb)
  | quitOwn : Effect l (.own .quit) l.quit
  | loop : l.pc = .outside →
      Effect l (.own .loop) { l with looping_ := true, quit_ := false, pc := .testing }
  | queue {cb : F} : Effect l (.queueInLoop cb) (l.queueInLoop cb)
  | quit : Effect l .quit l.quit
  | stop : l.pc = .testing → l.quit_ = true →
      Effect l .test { l with looping_ := false, pc := .outside }
  | goOn : l.pc = .testing → l.quit_ = false →
      Effect l .test { l with activeChannels_ := [], pc := .polling }
  | poll {reports : List (χ × EventMask)} {revents : χ → EventMask} {size : Nat}
      {channels : List χ} : l.pc = .polling →
      Effect l (.pollReturns reports) { l with
        revents_ := revents, eventsSize := size, activeChannels_ := channels
        iteration_ := l.iteration_ + 1, eventHandling_ := true, pc := .events channels }
  | enter {guarded : Bool} {c : χ} {rest : List χ} {handles : χ → Bool}
      {callbacks : List Callback} : l.pc = .events (c :: rest) →
      Effect l (.handle guarded) { l with
        currentActiveChannel_ := some c, handlesEvent := handles
        pc := .inChannel callbacks rest }
  | skip {guarded : Bool} {c : χ} {rest : List χ} : l.pc = .events (c :: rest) →
      Effect l (.handle guarded) { l with currentActiveChannel_ := some c, pc := .events rest }
  | next {callback : Callback} {callbacks : List Callback} {rest : List χ} :
      l.pc = .inChannel (callback :: callbacks) rest →
      Effect l .proceed { l with pc := .inChannel callbacks rest }
  | leave {rest : List χ} {handles : χ → Bool} : l.pc = .inChannel [] rest →
      Effect l .proceed { l with handlesEvent := handles, pc := .events rest }
  | handled : l.pc = .events [] → Effect l .handled l.handled
  | swap : l.pc = .swapping → Effect l .swap l.swap
  | swapIn {fiber : F} {functors : List F} : l.pc = .calling fiber functors →
      l.inScheduler = true → Effect l .swapIn { l with pc := .inFiber fiber functors }
  | swapOut {state : FiberState} {fiber : F} {functors : List F} :
      l.pc = .inFiber fiber functors →
      Effect l (.swapOut state) { l with
        callingPendingFunctors_ := false, pc := .forFunctors functors }

/-- `looping_` and `currentActiveChannel_` say where the loop is. -/
structure EventLoop.Placed (l : EventLoop χ F) : Prop where
  looping : l.looping_ = true ↔ l.pc ≠ .outside
  current : ∀ {callbacks rest}, l.pc = .inChannel callbacks rest →
    ∃ c, l.currentActiveChannel_ = some c

theorem EventLoop.placed_new (inScheduler : Bool) : (new inScheduler : EventLoop χ F).Placed :=
  ⟨by simp [new], fun hpc => by cases hpc⟩

variable {l l' : EventLoop χ F}

theorem Effect.inScheduler_eq {a : Action χ F} (h : Effect l a l') :
    l'.inScheduler = l.inScheduler := by
  cases h <;> rfl

theorem Effect.placed {a : Action χ F} (hplaced : l.Placed) (h : Effect l a l') : l'.Placed := by
  have hlooping := hplaced.looping
  have hcurrent := @hplaced.current
  have hfunctors : ∀ functors : List F, (.forFunctors functors : LoopPc χ F) ≠ .outside ∧
      ∀ callbacks rest, (.forFunctors functors : LoopPc χ F) ≠ .inChannel callbacks rest := by
    intro functors
    cases functors <;> simp [LoopPc.forFunctors]
  cases h with
  | channel | destroy | queueOwn | quitOwn | queue | quit => exact ⟨hlooping, hcurrent⟩
  | loop hpc => exact ⟨by simp, fun hchannel => by cases hchannel⟩
  | stop hpc => exact ⟨by simp, fun hchannel => by cases hchannel⟩
  | enter hpc => exact ⟨by simp [hlooping, hpc], fun _ => ⟨_, rfl⟩⟩
  | next hpc => exact ⟨by simp [hlooping, hpc], fun _ => hcurrent hpc⟩
  | goOn hpc | poll hpc | skip hpc | leave hpc | handled hpc | swapIn hpc =>
      exact ⟨by simp [hlooping, hpc, EventLoop.handled], fun hchannel => by cases hchannel⟩
  | swap hpc =>
      obtain ⟨hinside, hother⟩ := hfunctors l.pendingFunctors_
      exact ⟨by simp [EventLoop.swap, hlooping, hpc, hinside],
        fun hchannel => absurd hchannel (hother _ _)⟩
  | swapOut hpc =>
      obtain ⟨hinside, hother⟩ := hfunctors _
      exact ⟨by simp [hlooping, hpc, hinside], fun hchannel => absurd hchannel (hother _ _)⟩

variable [DecidableEq χ] {chs : Channels χ}

theorem EventLoop.fillActiveChannels_frame {events : List (χ × EventMask)}
    (hfill : EventLoop.fillActiveChannels chs events l = .ok l') :
    ∃ revents channels, l' = { l with revents_ := revents, activeChannels_ := channels } := by
  induction events generalizing l with
  | nil =>
      cases hfill
      exact ⟨_, _, rfl⟩
  | cons event events ih =>
      rw [EventLoop.fillActiveChannels] at hfill
      split at hfill
      · cases hfill
      · split at hfill
        · obtain ⟨revents, channels, rfl⟩ := ih hfill
          exact ⟨revents, channels, rfl⟩
        · cases hfill

theorem EventLoop.poll_frame {reports : List (χ × EventMask)}
    (hpoll : l.poll chs reports = .ok l') :
    ∃ revents size channels, l' = { l with
      revents_ := revents, eventsSize := size, activeChannels_ := channels } := by
  simp only [EventLoop.poll] at hpoll
  split at hpoll
  · cases hpoll
    exact ⟨l.revents_, l.eventsSize, l.activeChannels_, rfl⟩
  · split at hpoll
    · cases hpoll
    · obtain ⟨filled, hfill, hpoll⟩ := bind_eq_ok.mp hpoll
      obtain ⟨revents, channels, rfl⟩ := EventLoop.fillActiveChannels_frame hfill
      split at hpoll <;> cases hpoll
      · exact ⟨revents, l.eventsSize * 2, channels, rfl⟩
      · exact ⟨revents, l.eventsSize, channels, rfl⟩

theorem effect_of_request (h : l.Placed) {request : Request χ F}
    (hexec : l.request chs request = .ok l') : Effect l (.own request) l' := by
  cases request with
  | channel a =>
      simp only [EventLoop.request, EventLoop.callChannel] at hexec
      split at hexec
      · cases hexec
      · split at hexec
        · cases hexec
          exact .channel
        · cases hexec
  | destroy c =>
      simp only [EventLoop.request, EventLoop.destroy] at hexec
      split at hexec
      · cases hexec
      · cases hexec
        exact .destroy
  | queueInLoop cb =>
      cases hexec
      exact .queueOwn
  | quit =>
      cases hexec
      exact .quitOwn
  | loop =>
      simp only [EventLoop.request, EventLoop.loop] at hexec
      split at hexec
      · cases hexec
      · rename_i hlooping
        cases hexec
        exact .loop (not_not.mp fun hpc => hlooping (h.looping.mpr hpc))

/-- Whatever the kernel has answered, and however its record stands. -/
theorem effect_of_exec (h : l.Placed) {a : Action χ F} (hguard : l.guard chs a = true)
    (hexec : l.exec chs a = .ok l') : Effect l a l' := by
  cases a with
  | own request => exact effect_of_request h hexec
  | queueInLoop cb =>
      cases hexec
      exact .queue
  | quit =>
      cases hexec
      exact .quit
  | test =>
      cases hpc : l.pc with
      | testing =>
          cases hexec
          unfold EventLoop.test
          split
          · exact .stop hpc (by assumption)
          · rename_i hquit
            exact .goOn hpc (by simpa using hquit)
      | _ => simp [EventLoop.guard, hpc] at hguard
  | pollReturns reports =>
      cases hpc : l.pc with
      | polling =>
          obtain ⟨polled, hpoll, hexec⟩ := bind_eq_ok.mp hexec
          obtain ⟨revents, size, channels, rfl⟩ := EventLoop.poll_frame hpoll
          cases hexec
          exact .poll hpc
      | _ => simp [EventLoop.guard, hpc] at hguard
  | handle guarded =>
      cases hpc : l.pc with
      | events rest =>
          cases rest with
          | nil => simp [EventLoop.guard, hpc] at hguard
          | cons c rest =>
              simp only [EventLoop.exec, EventLoop.handle, hpc] at hexec
              split at hexec
              · cases hexec
              · split at hexec
                · cases hexec
                  exact .enter hpc
                · cases hexec
                  exact .skip hpc
      | _ => simp [EventLoop.guard, hpc] at hguard
  | proceed =>
      cases hpc : l.pc with
      | inChannel callbacks rest =>
          obtain ⟨c, hcurrent⟩ := h.current hpc
          simp only [EventLoop.exec, EventLoop.proceed, hpc, hcurrent] at hexec
          split at hexec
          · cases hexec
          · rw [← hcurrent] at hexec
            cases callbacks with
            | nil =>
                cases hexec
                exact .leave hpc
            | cons callback callbacks =>
                cases hexec
                exact .next hpc
      | _ => simp [EventLoop.guard, hpc] at hguard
  | handled =>
      cases hpc : l.pc with
      | events rest =>
          cases rest with
          | nil =>
              cases hexec
              exact .handled hpc
          | cons c rest => simp [EventLoop.guard, hpc] at hguard
      | _ => simp [EventLoop.guard, hpc] at hguard
  | swap =>
      cases hpc : l.pc with
      | swapping =>
          cases hexec
          exact .swap hpc
      | _ => simp [EventLoop.guard, hpc] at hguard
  | swapIn =>
      cases hpc : l.pc with
      | calling fiber functors =>
          simp only [EventLoop.exec, EventLoop.swapIn, hpc] at hexec
          split at hexec
          · cases hexec
            exact .swapIn hpc (by assumption)
          · cases hexec
      | _ => simp [EventLoop.guard, hpc] at hguard
  | swapOut state =>
      cases hpc : l.pc with
      | inFiber fiber functors =>
          cases state <;> simp only [EventLoop.exec, EventLoop.swapOut, hpc] at hexec <;>
            cases hexec
          · exact .swapOut hpc
          · exact .swapOut hpc
      | _ => simp [EventLoop.guard, hpc] at hguard

/-! ## The record -/

namespace Recorded

/-- What was queued is what has begun, what is left of the batch, and what is pending. -/
structure Inv (inScheduler : Bool) (r : Recorded χ F) : Prop where
  placed : r.loop.Placed
  scheduler : r.loop.inScheduler = inScheduler
  order : r.begun ++ r.loop.pc.batch.map (·, r.batches) ++
    r.loop.pendingFunctors_.map (·, r.batches + 1) = r.queued
  due : ∀ entry ∈ r.begun, entry.2 ≤ r.batches
  none : inScheduler = false → r.begun = []

omit [DecidableEq χ] in
theorem inv_new (inScheduler : Bool) : (new inScheduler : Recorded χ F).Inv inScheduler :=
  ⟨EventLoop.placed_new inScheduler, rfl, rfl, nofun, fun _ => rfl⟩

variable {inScheduler : Bool}

variable {r r' : Recorded χ F}

theorem loop_step {a : Action χ F} (hstep : (machine chs).step r a = some r') :
    ∃ l, (EventLoop.machine chs).step r.loop a = some l ∧ r' = r.record a l := by
  obtain ⟨hguard, hexec⟩ := (machine chs).step_eq_some_iff.mp hstep
  cases hloop : r.loop.exec chs a with
  | error fault => simp [machine, hloop, Except.map] at hexec
  | ok l =>
      simp only [machine, hloop, Except.map] at hexec
      cases hexec
      exact ⟨l, (EventLoop.machine chs).step_eq_some_iff.mpr ⟨hguard, hloop⟩, rfl⟩

omit [DecidableEq χ] in
@[simp] theorem record_loop (r : Recorded χ F) (a : Action χ F) (l : EventLoop χ F) :
    (r.record a l).loop = l := by
  unfold record
  split <;> rfl

omit [DecidableEq χ] in
theorem record_inv (h : r.Inv inScheduler) {a : Action χ F} (heffect : Effect r.loop a l) :
    (r.record a l).Inv inScheduler := by
  have horder := h.order
  have hdue := h.due
  have hnone := h.none
  have hplaced := heffect.placed h.placed
  have hscheduler := heffect.inScheduler_eq.trans h.scheduler
  refine ⟨by simpa using hplaced, by simpa using hscheduler, ?_, ?_, ?_⟩
  · cases heffect with
    | queue | queueOwn => simp [record, EventLoop.queueInLoop, ← horder]
    | channel | destroy | quit | quitOwn => simpa [record, EventLoop.quit] using horder
    | swap hpc =>
        rw [hpc] at horder
        simpa [record, EventLoop.swap, LoopPc.batch_of_swapping] using horder
    | swapOut hpc =>
        rw [hpc] at horder
        simpa [record, LoopPc.batch_of_inFiber] using horder
    | loop hpc | stop hpc | goOn hpc | poll hpc | enter hpc | skip hpc | next hpc | leave hpc
    | handled hpc | swapIn hpc =>
        simpa [record, hpc, LoopPc.batch, EventLoop.handled] using horder
  · cases heffect with
    | swap hpc =>
        intro entry hentry
        exact Nat.le_succ_of_le (hdue entry hentry)
    | swapIn hpc =>
        simp only [record, hpc, List.mem_append, List.mem_singleton]
        rintro entry (hentry | rfl)
        · exact hdue entry hentry
        · exact Nat.le_refl _
    | _ => simpa [record] using hdue
  · cases heffect with
    | swapIn hpc hin =>
        intro hout
        rw [h.scheduler, hout] at hin
        cases hin
    | _ => simpa [record] using hnone

theorem effect_of_step (h : r.Inv inScheduler) {a : Action χ F}
    (hstep : (machine chs).step r a = some r') :
    ∃ l, Effect r.loop a l ∧ r' = r.record a l := by
  obtain ⟨l, hloop, rfl⟩ := loop_step hstep
  obtain ⟨hguard, hexec⟩ := (EventLoop.machine chs).step_eq_some_iff.mp hloop
  exact ⟨l, effect_of_exec h.placed hguard hexec, rfl⟩

theorem step_inv (h : r.Inv inScheduler) {a : Action χ F}
    (hstep : (machine chs).step r a = some r') : r'.Inv inScheduler := by
  obtain ⟨l, heffect, rfl⟩ := effect_of_step h hstep
  exact record_inv h heffect

theorem inv_of_run {acts : List (Action χ F)}
    (hrun : (machine chs).run (.new inScheduler) acts = some r) : r.Inv inScheduler :=
  Machine.run_invariant (fun h hstep => step_inv h hstep) (inv_new inScheduler) hrun

/-- In every run, whatever the kernel answers: what has begun is what was queued first, in the same
order and each in the batch in which it was due; behind it come the rest of the batch that is
under way, and what is due in the next one.  In a thread without a scheduler nothing has begun. -/
theorem functors_exact (chs : Channels χ) (inScheduler : Bool) {acts : List (Action χ F)}
    (hrun : (machine chs).run (.new inScheduler) acts = some r) :
    r.begun ++ r.loop.pc.batch.map (·, r.batches) ++
        r.loop.pendingFunctors_.map (·, r.batches + 1) = r.queued ∧
      (∀ entry ∈ r.begun, entry.2 ≤ r.batches) ∧ (inScheduler = false → r.begun = []) :=
  ⟨(inv_of_run hrun).order, (inv_of_run hrun).due, (inv_of_run hrun).none⟩

/-- The first functor is queued while the loop polls, the second before the batch is taken, and
the third by the first. -/
def threeFunctors : List (Action Bool Nat) :=
  [.own .loop, .test, .queueInLoop 1, .pollReturns [], .handled, .queueInLoop 2, .swap, .swapIn,
    .own (.queueInLoop 3), .swapOut .TERM, .swapIn]

theorem functors_exact_three :
    ∃ r, (machine EventLoop.sockets).run (.new true) threeFunctors = some r ∧
      r.begun ++ r.loop.pc.batch.map (·, r.batches) ++
          r.loop.pendingFunctors_.map (·, r.batches + 1) = r.queued ∧
        ∀ entry ∈ r.begun, entry.2 ≤ r.batches := by
  have hsome : ((machine EventLoop.sockets).run (.new true) threeFunctors).isSome = true := by
    decide +kernel
  obtain ⟨r, hrun⟩ := Option.isSome_iff_exists.mp hsome
  obtain ⟨horder, hdue, -⟩ := functors_exact EventLoop.sockets true hrun
  exact ⟨r, hrun, horder, hdue⟩

/-! ## Stopping -/

omit [DecidableEq χ] in
theorem record_stops {a : Action χ F} (heffect : Effect r.loop a l) (hloop : a ≠ .own .loop)
    (hquit : r.loop.quit_ = true) :
    l.quit_ = true ∧ l.iteration_ + l.pc.pollsLeft ≤ r.loop.iteration_ + r.loop.pc.pollsLeft ∧
      (r.record a l).batches + l.pc.batchesLeft ≤ r.batches + r.loop.pc.batchesLeft := by
  cases heffect with
  | loop => exact absurd rfl hloop
  | goOn hpc hgoes =>
      rw [hquit] at hgoes
      cases hgoes
  | queue | queueOwn | channel | destroy | quit | quitOwn =>
      simp [record, EventLoop.queueInLoop, EventLoop.quit, hquit]
  | swap hpc => simp [record, hpc, hquit, EventLoop.swap, LoopPc.batchesLeft_of_swapping]
  | swapOut hpc => simp [record, hquit]
  | stop hpc | poll hpc | enter hpc | skip hpc | next hpc | leave hpc | handled hpc | swapIn hpc =>
      simp [record, hpc, hquit, LoopPc.pollsLeft, LoopPc.batchesLeft, EventLoop.handled]

/-- Once the loop is to stop, and until it is run again, it polls and takes a batch only if it is
in front of that; what is queued behind the batch does not begin. -/
theorem quit_exact (chs : Channels χ) (inScheduler : Bool) {acts acts' : List (Action χ F)}
    (hrun : (machine chs).run (.new inScheduler) acts = some r) (hquit : r.loop.quit_ = true)
    (hloop : ∀ a ∈ acts', a ≠ .own .loop) (hrun' : (machine chs).run r acts' = some r') :
    r'.loop.quit_ = true ∧ r'.loop.iteration_ ≤ r.loop.iteration_ + r.loop.pc.pollsLeft ∧
      r'.batches ≤ r.batches + r.loop.pc.batchesLeft ∧
      ∀ entry ∈ r'.begun, entry.2 ≤ r.batches + r.loop.pc.batchesLeft := by
  have hstep : ∀ {t : Recorded χ F} {a t'},
      (t.Inv inScheduler ∧ t.loop.quit_ = true ∧
        t.loop.iteration_ + t.loop.pc.pollsLeft ≤ r.loop.iteration_ + r.loop.pc.pollsLeft ∧
        t.batches + t.loop.pc.batchesLeft ≤ r.batches + r.loop.pc.batchesLeft) →
      a ≠ .own .loop → (machine chs).step t a = some t' →
      (t'.Inv inScheduler ∧ t'.loop.quit_ = true ∧
        t'.loop.iteration_ + t'.loop.pc.pollsLeft ≤ r.loop.iteration_ + r.loop.pc.pollsLeft ∧
        t'.batches + t'.loop.pc.batchesLeft ≤ r.batches + r.loop.pc.batchesLeft) := by
    rintro t a t' ⟨h, hquit, hpolls, hbatches⟩ ha hstep
    obtain ⟨l, heffect, rfl⟩ := effect_of_step h hstep
    obtain ⟨hquit', hpolls', hbatches'⟩ := record_stops heffect ha hquit
    rw [record_loop]
    exact ⟨step_inv h hstep, hquit', hpolls'.trans hpolls, hbatches'.trans hbatches⟩
  have hinv := inv_of_run hrun
  obtain ⟨h, hquit', hpolls, hbatches⟩ := Machine.invariant_of_meets hstep
    ⟨hinv, hquit, Nat.le_refl _, Nat.le_refl _⟩
    (Machine.meets_of_forall fun _ a ha => hloop a ha) hrun'
  refine ⟨hquit', by omega, by omega, fun entry hentry => ?_⟩
  have hdue := h.due entry hentry
  omega

/-- Another thread stops the loop in the middle of the batch. -/
theorem quit_exact_three :
    ∃ r r', (machine EventLoop.sockets).run (.new true) (threeFunctors ++ [.quit]) = some r ∧
      (machine EventLoop.sockets).run r [.queueInLoop 4, .swapOut .TERM, .test] = some r' ∧
      r'.loop.iteration_ ≤ r.loop.iteration_ + r.loop.pc.pollsLeft := by
  have hsome : ((machine EventLoop.sockets).run (.new true)
      (threeFunctors ++ [.quit])).isSome = true := by
    decide +kernel
  have hsome' : (((machine EventLoop.sockets).run (.new true) (threeFunctors ++ [.quit])).bind
      fun r => (machine EventLoop.sockets).run r
        [.queueInLoop 4, .swapOut .TERM, .test]).isSome = true := by
    decide +kernel
  have hquit : ((machine EventLoop.sockets).run (.new true) (threeFunctors ++ [.quit])).map
      (fun r => r.loop.quit_) = some true := by
    decide +kernel
  obtain ⟨r, hrun⟩ := Option.isSome_iff_exists.mp hsome
  rw [hrun] at hsome' hquit
  obtain ⟨r', hrun'⟩ := Option.isSome_iff_exists.mp hsome'
  refine ⟨r, r', hrun, hrun', ?_⟩
  exact (quit_exact EventLoop.sockets true hrun (Option.some.inj hquit) (by simp) hrun').2.1

end Recorded

end Qslary.Loop

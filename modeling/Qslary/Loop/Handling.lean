import Qslary.Loop.Model

/-!
# Channels while they are handled

A channel that the poller knows is there, and none that is active is taken from the poller
before its turn.  The loop therefore never touches a channel that has been destroyed, its own
assertions hold, and only the user's code can make one fail.
-/

namespace Qslary.Loop

open Qslary.Foundation
open Qslary.Events (EventMask)
open Qslary.Poller (POLLIN Channels EPollPoller Seat)

variable {χ F : Type} [DecidableEq χ] {chs : Channels χ}

/-- The channels whose turn is still to come. -/
def LoopPc.rest : LoopPc χ F → List χ
  | .events rest | .inChannel _ rest => rest
  | _ => []

namespace EventLoop

/-- What the user's code must not do: take another channel that is active from the poller,
destroy one that is handled or known, run the loop in itself, and yield. -/
def Misuse (chs : Channels χ) (l : EventLoop χ F) : Action χ F → Prop
  | .own (.channel ⟨.remove c, _⟩) =>
      l.eventHandling_ = true ∧ l.currentActiveChannel_ ≠ some c ∧ c ∈ l.activeChannels_
  | .own (.destroy c) =>
      l.handlesEvent c = true ∨ l.poller_.channels_ (chs.fd c) = some c
  | .own .loop => l.looping_ = true
  | .swapOut .READY | .swapOut .HOLD => True
  | _ => False

/-- `Fiber::swapIn` where the thread has no fiber of a scheduler. -/
def NoScheduler (l : EventLoop χ F) (a : Action χ F) : Prop :=
  a = .swapIn ∧ l.inScheduler = false

/-- The kernel refuses nothing that it would have changed. -/
def Kept (chs : Channels χ) (l : EventLoop χ F) : Action χ F → Prop
  | .own (.channel a) => Poller.Kept chs l.poller_ a
  | _ => True

/-- `currentActiveChannel_` is handled in its callbacks, with all that is active behind it. -/
structure Inv (chs : Channels χ) (l : EventLoop χ F) (seats : χ → Seat) : Prop where
  shows : l.poller_.Shows chs seats
  alive : ∀ c, (seats c).status ≠ .unknown → l.destroyed c = false
  looping : l.looping_ = true ↔ l.pc ≠ .outside
  handling : l.eventHandling_ = true ↔ (∃ rest, l.pc = .events rest) ∨
    ∃ callbacks rest, l.pc = .inChannel callbacks rest
  size : 0 < l.eventsSize
  cleared : l.pc = .polling → l.activeChannels_ = []
  known : ∀ c ∈ l.pc.rest, (seats c).status ≠ .unknown
  events : ∀ {rest}, l.pc = .events rest → ∃ done, l.activeChannels_ = done ++ rest ∧ rest.Nodup
  current : ∀ {callbacks rest}, l.pc = .inChannel callbacks rest →
    ∃ c done, l.currentActiveChannel_ = some c ∧ l.activeChannels_ = done ++ c :: rest ∧
      (c :: rest).Nodup ∧ l.handlesEvent c = true ∧ l.destroyed c = false

omit [DecidableEq χ] in
theorem inv_new (inScheduler : Bool) :
    (new inScheduler : EventLoop χ F).Inv chs fun _ => .start where
  shows := EPollPoller.start_shows
  alive _ _ := rfl
  looping := by simp [new]
  handling := by simp [new]
  size := Nat.succ_pos 15
  cleared := nofun
  known := nofun
  events := nofun
  current := nofun

variable {l l' : EventLoop χ F} {seats : χ → Seat}

/-! ## Polling -/

omit [DecidableEq χ] in
theorem epollWait_eq (h : l.poller_.Shows chs seats) {reports : List (χ × EventMask)}
    (hwatched : ∀ report ∈ reports, (l.poller_.epoll (chs.fd report.1)).isSome = true) :
    l.epollWait chs reports = reports := by
  have hptr : ∀ report ∈ reports,
      (l.poller_.epoll (chs.fd report.1)).map (fun event => (event.ptr, report.2)) =
        some report := by
    intro report hreport
    have hsome := hwatched report hreport
    rw [h.watched] at hsome ⊢
    cases hstatus : (seats report.1).status <;> simp_all [Seat.watched]
  rw [epollWait, List.filterMap_congr hptr, List.filterMap_some]

theorem fillActiveChannels_eq {events : List (χ × EventMask)}
    (hknown : ∀ event ∈ events, l.destroyed event.1 = false ∧
      l.poller_.channels_ (chs.fd event.1) = some event.1) :
    ∃ revents, fillActiveChannels chs events l = .ok { l with
      revents_ := revents, activeChannels_ := l.activeChannels_ ++ events.map Prod.fst } := by
  induction events generalizing l with
  | nil => exact ⟨l.revents_, by simp [fillActiveChannels]⟩
  | cons event events ih =>
      obtain ⟨channel, revents⟩ := event
      obtain ⟨halive, hlisted⟩ := hknown _ List.mem_cons_self
      obtain ⟨after, hfill⟩ := @ih { l with
        revents_ := Function.update l.revents_ channel revents
        activeChannels_ := l.activeChannels_ ++ [channel] }
        fun event hevent => hknown event (List.mem_cons_of_mem _ hevent)
      refine ⟨after, ?_⟩
      simp only [fillActiveChannels, halive, hlisted, Bool.false_eq_true, if_false, if_true]
      simpa using hfill

/-- What is reported is known, so that the assertions of `poll` hold. -/
theorem poll_eq (h : l.Inv chs seats) {reports : List (χ × EventMask)}
    (hsize : reports.length ≤ l.eventsSize)
    (hwatched : ∀ report ∈ reports, (l.poller_.epoll (chs.fd report.1)).isSome = true) :
    ∃ revents size, 0 < size ∧ l.poll chs reports = .ok { l with
      revents_ := revents, eventsSize := size
      activeChannels_ := l.activeChannels_ ++ reports.map Prod.fst } := by
  have hknown : ∀ report ∈ reports, l.destroyed report.1 = false ∧
      l.poller_.channels_ (chs.fd report.1) = some report.1 := by
    intro report hreport
    have hsome := hwatched report hreport
    rw [h.shows.watched] at hsome
    have hstatus : (seats report.1).status = .watched := by
      cases hstatus : (seats report.1).status <;> simp_all [Seat.watched]
    exact ⟨h.alive _ (by simp [hstatus]), (h.shows.isWatched hstatus).2.1⟩
  simp only [poll, epollWait_eq h.shows hwatched]
  by_cases hnone : reports = []
  · subst hnone
    exact ⟨l.revents_, l.eventsSize, h.size, by simp [pure, Except.pure]⟩
  · obtain ⟨revents, hfill⟩ := fillActiveChannels_eq (l := l) hknown
    rw [if_neg hnone, if_neg (by omega)]
    by_cases hfull : reports.length = l.eventsSize
    · refine ⟨revents, l.eventsSize * 2, by have := h.size; omega, ?_⟩
      simp [hfill, hfull, bind, Except.bind, pure, Except.pure]
    · exact ⟨revents, l.eventsSize, h.size, by
        simp [hfill, hfull, bind, Except.bind, pure, Except.pure]⟩

/-! ## Steps -/

omit [DecidableEq χ] in
theorem Inv.known_iff (h : l.Inv chs seats) (c : χ) :
    (l.poller_.channel c).addedToLoop_ = true ↔ l.poller_.channels_ (chs.fd c) = some c := by
  rw [h.shows.channel, h.shows.listed]
  cases hstatus : (seats c).status <;> simp [Seat.channel, Seat.listed, hstatus]

omit [DecidableEq χ] in
/-- Nothing is active outside of the loop over the channels. -/
theorem Inv.apart (h : l.Inv chs seats) (hpoller : l'.poller_ = l.poller_)
    (hdestroyed : l'.destroyed = l.destroyed) (hsize : l'.eventsSize = l.eventsSize)
    (hlooping : l'.looping_ = true ↔ l'.pc ≠ .outside) (hhandling : l'.eventHandling_ = false)
    (hcleared : l'.pc = .polling → l'.activeChannels_ = [])
    (hevents : ∀ rest, l'.pc ≠ .events rest)
    (hchannel : ∀ callbacks rest, l'.pc ≠ .inChannel callbacks rest) : l'.Inv chs seats where
  shows := hpoller ▸ h.shows
  alive := hdestroyed ▸ h.alive
  looping := hlooping
  handling := by simp [hhandling, hevents, hchannel]
  size := hsize ▸ h.size
  cleared := hcleared
  known := by
    cases hpc : l'.pc with
    | events rest => exact absurd hpc (hevents rest)
    | inChannel callbacks rest => exact absurd hpc (hchannel callbacks rest)
    | _ => exact nofun
  events hpc := absurd hpc (hevents _)
  current hpc := absurd hpc (hchannel _ _)

omit [DecidableEq χ] in
theorem Inv.idle (h : l.Inv chs seats) (hevents : ∀ rest, l.pc ≠ .events rest)
    (hchannel : ∀ callbacks rest, l.pc ≠ .inChannel callbacks rest) : l.eventHandling_ = false := by
  have hnot : ¬ l.eventHandling_ = true := by
    rw [h.handling]
    simp [hevents, hchannel]
  simpa using hnot

omit [DecidableEq χ] in
/-- Who is still to come is not the channel that is handled, so it may not be removed. -/
theorem Inv.misuse_of_rest (h : l.Inv chs seats) (huser : l.pc.callsUser = true) {c : χ}
    (hc : c ∈ l.pc.rest) (refused : Bool) :
    l.Misuse chs (.own (.channel ⟨.remove c, refused⟩)) := by
  cases hpc : l.pc with
  | inChannel callbacks rest =>
      rw [hpc] at hc
      obtain ⟨current, done, hcurrent, hactive, hnodup, -⟩ := h.current hpc
      have hne : current ≠ c := fun heq => (List.nodup_cons.mp hnodup).1 (heq ▸ hc)
      refine ⟨h.handling.mpr (.inr ⟨callbacks, rest, hpc⟩), ?_, ?_⟩
      · rw [hcurrent]
        exact fun heq => hne (Option.some.inj heq)
      · rw [hactive]
        exact List.mem_append_right _ (List.mem_cons_of_mem _ hc)
  | events rest =>
      rw [hpc] at huser
      cases huser
  | _ =>
      rw [hpc] at hc
      cases hc

theorem callChannel_inv (h : l.Inv chs seats) {a : Poller.Answered χ}
    (huser : l.pc.callsUser = true) (halive : l.destroyed a.call.target = false)
    (hcall : (Poller.Call.machine chs).guard l.poller_ a = true)
    (hmisuse : ¬ l.Misuse chs (.own (.channel a))) :
    ∃ l', l.callChannel chs a = .ok l' ∧
      (Poller.Kept chs l.poller_ a → ∃ seats', l'.Inv chs seats') := by
  obtain ⟨poller, hexec, hshows⟩ : ∃ poller, a.call.exec chs a.refused l.poller_ = .ok poller ∧
      (Poller.Kept chs l.poller_ a → poller.Shows chs (a.call.moveSeats seats)) :=
    ⟨_, Poller.Call.exec_eq h.shows hcall, fun hkept =>
      EPollPoller.put_shows h.shows ((Poller.Call.kept_iff h.shows a).mp hkept)⟩
  have hkeeps : ∀ c, c ≠ a.call.target → a.call.moveSeats seats c = seats c :=
    fun c hc => Function.update_of_ne hc _ _
  have hown : l.removesOther a.call = false := by
    obtain ⟨call, refused⟩ := a
    cases call with
    | remove c =>
        simp only [Misuse, not_and] at hmisuse
        simpa [removesOther, ← and_assoc] using hmisuse
    | _ => rfl
  refine ⟨{ l with poller_ := poller }, ?_, fun hkept => ⟨a.call.moveSeats seats, ?_⟩⟩
  · simp only [callChannel, hown, hexec, Bool.false_eq_true, if_false]
  · refine { h with shows := hshows hkept, alive := fun c hc => ?_, known := fun c hc => ?_ }
    · by_cases heq : c = a.call.target
      · rw [heq]
        exact halive
      · rw [hkeeps c heq] at hc
        exact h.alive c hc
    · by_cases heq : c = a.call.target
      · rw [heq, Poller.Call.moveSeats, Function.update_self]
        obtain ⟨call, refused⟩ := a
        refine (Poller.Call.moveSeat_known call _).mpr fun c' hremove => hmisuse ?_
        subst hremove
        subst heq
        exact h.misuse_of_rest huser hc refused
      · rw [hkeeps c heq]
        exact h.known c hc

theorem destroy_inv (h : l.Inv chs seats) {c : χ} (hmisuse : ¬ l.Misuse chs (.own (.destroy c))) :
    ∃ l' seats', l.destroy chs c = .ok l' ∧ l'.Inv chs seats' := by
  simp only [Misuse, not_or] at hmisuse
  have hunknown : (seats c).status = .unknown := by
    by_contra hknown
    refine hmisuse.2 ?_
    rw [h.shows.listed]
    cases hstatus : (seats c).status <;> simp_all [Seat.listed]
  have hadded : ¬ (l.poller_.channel c).addedToLoop_ = true := fun hadded =>
    hmisuse.2 ((h.known_iff c).mp hadded)
  have hother : ∀ c', c' ≠ c → Function.update l.destroyed c true c' = l.destroyed c' :=
    fun c' hne => Function.update_of_ne hne _ _
  refine ⟨{ l with destroyed := Function.update l.destroyed c true }, seats, ?_, ?_⟩
  · simp [destroy, hmisuse, hadded]
  · refine { h with alive := fun c' hknown => ?_, current := fun hpc => ?_ }
    · refine (hother c' ?_).trans (h.alive c' hknown)
      rintro rfl
      exact hknown hunknown
    · obtain ⟨current, done, hcurrent, hactive, hnodup, hhandles, halive⟩ := h.current hpc
      refine ⟨current, done, hcurrent, hactive, hnodup, hhandles, (hother current ?_).trans halive⟩
      rintro rfl
      exact hmisuse.1 hhandles

omit [DecidableEq χ] in
theorem loop_inv (h : l.Inv chs seats) (hmisuse : ¬ l.Misuse chs (.own .loop)) :
    ∃ l' seats', l.loop = .ok l' ∧ l'.Inv chs seats' := by
  have hpc : l.pc = .outside := by
    by_contra hpc
    exact hmisuse (h.looping.mpr hpc)
  have hidle : l.eventHandling_ = false := h.idle (by simp [hpc]) (by simp [hpc])
  refine ⟨{ l with looping_ := true, quit_ := false, pc := .testing }, seats, ?_, ?_⟩
  · have hnot : l.looping_ = false := by simpa [Misuse] using hmisuse
    simp [loop, hnot]
  · exact h.apart rfl rfl rfl (by simp) hidle nofun nofun nofun

theorem pollReturns_inv (h : l.Inv chs seats) {reports : List (χ × EventMask)}
    (hguard : l.guard chs (.pollReturns reports) = true) :
    ∃ l' seats', l.pollReturns chs reports = .ok l' ∧ l'.Inv chs seats' := by
  cases hpc : l.pc with
  | polling =>
      simp only [guard, hpc, Bool.and_eq_true, decide_eq_true_eq, List.all_eq_true] at hguard
      obtain ⟨⟨hsize, hnodup⟩, hwatched⟩ := hguard
      obtain ⟨revents, size, hpos, hpoll⟩ := poll_eq h hsize hwatched
      rw [h.cleared hpc, List.nil_append] at hpoll
      have hstatus : ∀ report ∈ reports, (seats report.1).status ≠ .unknown := by
        intro report hreport hunknown
        have hsome := hwatched report hreport
        rw [(h.shows.isUnknown hunknown).2.2] at hsome
        cases hsome
      refine ⟨_, seats, by rw [pollReturns, hpoll]; rfl, ?_⟩
      exact {
        h with
        looping := by simpa [hpc] using h.looping
        handling := by simp
        size := hpos
        cleared := nofun
        known := by simpa [LoopPc.rest] using fun c revents => hstatus (c, revents)
        events := fun hevents => ⟨[], by cases hevents; rfl, by cases hevents; exact hnodup⟩
        current := nofun }
  | _ => simp [guard, hpc] at hguard

theorem handle_inv (h : l.Inv chs seats) {guarded : Bool}
    (hguard : l.guard chs (.handle guarded) = true) :
    ∃ l' seats', l.handle guarded = .ok l' ∧ l'.Inv chs seats' := by
  cases hpc : l.pc with
  | events rest =>
      cases rest with
      | nil => simp [guard, hpc] at hguard
      | cons c rest =>
          obtain ⟨done, hactive, hnodup⟩ := h.events hpc
          have hknown : ∀ c' ∈ c :: rest, (seats c').status ≠ .unknown := by
            simpa [hpc, LoopPc.rest] using h.known
          have halive := h.alive c (hknown c List.mem_cons_self)
          have hlooping : l.looping_ = true := by simp [h.looping, hpc]
          have hhandling : l.eventHandling_ = true := by simp [h.handling, hpc]
          have hlater := fun c' hc' => hknown c' (List.mem_cons_of_mem c hc')
          cases guarded with
          | false =>
              refine ⟨_, seats, by simp [handle, hpc, halive]; rfl, ?_⟩
              exact {
                h with
                looping := by simp [hlooping]
                handling := by simp [hhandling]
                cleared := nofun
                known := hlater
                events := fun hevents => ⟨done ++ [c], by cases hevents; simp [hactive], by
                  cases hevents; exact hnodup.of_cons⟩
                current := nofun }
          | true =>
              refine ⟨_, seats, by simp [handle, hpc, halive]; rfl, ?_⟩
              exact {
                h with
                looping := by simp [hlooping]
                handling := by simp [hhandling]
                cleared := nofun
                known := hlater
                events := nofun
                current := fun hchannel => ⟨c, done, rfl, by cases hchannel; exact hactive, by
                  cases hchannel; exact hnodup, by simp, halive⟩ }
  | _ => simp [guard, hpc] at hguard

theorem proceed_inv (h : l.Inv chs seats) (hguard : l.guard chs .proceed = true) :
    ∃ l' seats', l.proceed = .ok l' ∧ l'.Inv chs seats' := by
  cases hpc : l.pc with
  | inChannel callbacks rest =>
      obtain ⟨c, done, hcurrent, hactive, hnodup, hhandles, halive⟩ := h.current hpc
      have hlooping : l.looping_ = true := by simp [h.looping, hpc]
      have hhandling : l.eventHandling_ = true := by simp [h.handling, hpc]
      have hknown : ∀ c ∈ rest, (seats c).status ≠ .unknown := by
        simpa [hpc, LoopPc.rest] using h.known
      cases callbacks with
      | nil =>
          refine ⟨_, seats, by simp [proceed, hpc, hcurrent, halive]; rfl, ?_⟩
          exact {
            h with
            looping := by simp [hlooping]
            handling := by simp [hhandling]
            cleared := nofun
            known := hknown
            events := fun hevents => ⟨done ++ [c], by cases hevents; simp [hactive], by
              cases hevents; exact hnodup.of_cons⟩
            current := nofun }
      | cons callback callbacks =>
          refine ⟨_, seats, by simp [proceed, hpc, hcurrent, halive]; rfl, ?_⟩
          exact {
            h with
            looping := by simp [hlooping]
            handling := by simp [hhandling]
            cleared := nofun
            known := hknown
            events := nofun
            current := fun hchannel => ⟨c, done, rfl, by cases hchannel; exact hactive, by
              cases hchannel; exact hnodup, hhandles, halive⟩ }
  | _ => simp [guard, hpc] at hguard

omit [DecidableEq χ] in
theorem test_inv (h : l.Inv chs seats) (hpc : l.pc = .testing) : l.test.Inv chs seats := by
  have hidle := h.idle (by simp [hpc]) (by simp [hpc])
  have hlooping : l.looping_ = true := by simp [h.looping, hpc]
  unfold test
  split
  · exact h.apart rfl rfl rfl (by simp) hidle nofun nofun nofun
  · exact h.apart rfl rfl rfl (by simp [hlooping]) hidle (fun _ => rfl) nofun nofun

omit [DecidableEq χ] in
theorem Inv.forFunctors (h : l.Inv chs seats) (functors : List F)
    (hpoller : l'.poller_ = l.poller_) (hdestroyed : l'.destroyed = l.destroyed)
    (hsize : l'.eventsSize = l.eventsSize) (hlooping : l'.looping_ = true)
    (hhandling : l'.eventHandling_ = false) (hpc : l'.pc = .forFunctors functors) :
    l'.Inv chs seats := by
  have hplace : l'.pc ≠ .outside ∧ l'.pc ≠ .polling ∧ (∀ rest, l'.pc ≠ .events rest) ∧
      ∀ callbacks rest, l'.pc ≠ .inChannel callbacks rest := by
    rw [hpc]
    cases functors <;> simp [LoopPc.forFunctors]
  exact h.apart hpoller hdestroyed hsize (by simp [hlooping, hplace]) hhandling
    (fun hpolling => absurd hpolling hplace.2.1) hplace.2.2.1 hplace.2.2.2

theorem swapOut_inv (h : l.Inv chs seats) {state : FiberState}
    (hguard : l.guard chs (.swapOut state) = true) (hmisuse : ¬ l.Misuse chs (.swapOut state)) :
    ∃ l' seats', l.swapOut state = .ok l' ∧ l'.Inv chs seats' := by
  cases hpc : l.pc with
  | inFiber fiber functors =>
      have hidle := h.idle (by simp [hpc]) (by simp [hpc])
      have hlooping : l.looping_ = true := by simp [h.looping, hpc]
      cases state with
      | TERM | EXCEPTION =>
          refine ⟨_, seats, by simp only [swapOut, hpc]; rfl, ?_⟩
          exact h.forFunctors functors rfl rfl rfl hlooping hidle rfl
      | READY | HOLD => exact absurd trivial hmisuse
  | _ => simp [guard, hpc] at hguard

theorem swapIn_inv (h : l.Inv chs seats) (hguard : l.guard chs .swapIn = true)
    (hscheduler : l.inScheduler = true) :
    ∃ l' seats', l.swapIn = .ok l' ∧ l'.Inv chs seats' := by
  cases hpc : l.pc with
  | calling fiber functors =>
      have hidle := h.idle (by simp [hpc]) (by simp [hpc])
      have hlooping : l.looping_ = true := by simp [h.looping, hpc]
      refine ⟨{ l with pc := .inFiber fiber functors }, seats, ?_, ?_⟩
      · simp [swapIn, hpc, hscheduler]
      · exact h.apart rfl rfl rfl (by simp [hlooping]) hidle nofun nofun nofun
  | _ => simp [guard, hpc] at hguard

/-- Whatever is enabled goes through, except for what the user must not do and for a functor in a
thread without a scheduler. -/
theorem exec_inv (h : l.Inv chs seats) {a : Action χ F} (hguard : l.guard chs a = true)
    (hmisuse : ¬ l.Misuse chs a) (hscheduler : ¬ l.NoScheduler a) :
    ∃ l', l.exec chs a = .ok l' ∧ (l.Kept chs a → ∃ seats', l'.Inv chs seats') := by
  have hkept : ∀ {x : Except Fault (EventLoop χ F)},
      (∃ l' seats', x = .ok l' ∧ l'.Inv chs seats') →
      ∃ l', x = .ok l' ∧ (l.Kept chs a → ∃ seats', l'.Inv chs seats') :=
    fun ⟨l', seats', hexec, hinv⟩ => ⟨l', hexec, fun _ => ⟨seats', hinv⟩⟩
  cases a with
  | own request =>
      obtain ⟨huser, hasks⟩ := Bool.and_eq_true_iff.mp hguard
      cases request with
      | channel a =>
          obtain ⟨halive, hcall⟩ := Bool.and_eq_true_iff.mp hasks
          exact callChannel_inv h huser (by simpa using halive) hcall hmisuse
      | destroy c => exact hkept (destroy_inv h hmisuse)
      | queueInLoop cb => exact hkept ⟨_, seats, rfl, { h with }⟩
      | quit => exact hkept ⟨_, seats, rfl, { h with }⟩
      | loop => exact hkept (loop_inv h hmisuse)
  | queueInLoop cb => exact hkept ⟨_, seats, rfl, { h with }⟩
  | quit => exact hkept ⟨_, seats, rfl, { h with }⟩
  | pollReturns reports => exact hkept (pollReturns_inv h hguard)
  | handle guarded => exact hkept (handle_inv h hguard)
  | proceed => exact hkept (proceed_inv h hguard)
  | swapIn =>
      exact hkept (swapIn_inv h hguard (by simpa [NoScheduler] using hscheduler))
  | swapOut state => exact hkept (swapOut_inv h hguard hmisuse)
  | test =>
      cases hpc : l.pc with
      | testing => exact hkept ⟨_, seats, rfl, test_inv h hpc⟩
      | _ => simp [guard, hpc] at hguard
  | handled =>
      cases hpc : l.pc with
      | events rest =>
          have hlooping : l.looping_ = true := by simp [h.looping, hpc]
          exact hkept ⟨_, seats, rfl, h.apart rfl rfl rfl (by simp [handled, hlooping]) rfl nofun
            nofun nofun⟩
      | _ => simp [guard, hpc] at hguard
  | swap =>
      cases hpc : l.pc with
      | swapping =>
          have hidle := h.idle (by simp [hpc]) (by simp [hpc])
          have hlooping : l.looping_ = true := by simp [h.looping, hpc]
          exact hkept ⟨_, seats, rfl,
            h.forFunctors l.pendingFunctors_ rfl rfl rfl hlooping hidle rfl⟩
      | _ => simp [guard, hpc] at hguard

/-- What the user must not do is found out. -/
theorem exec_misuse {a : Action χ F} (hguard : l.guard chs a = true) (hmisuse : l.Misuse chs a) :
    l.exec chs a = .error .assertion := by
  cases a with
  | own request =>
      cases request with
      | channel a =>
          obtain ⟨call, refused⟩ := a
          cases call with
          | remove c =>
              obtain ⟨hhandling, hcurrent, hactive⟩ := hmisuse
              simp [exec, request, callChannel, removesOther, hhandling, hcurrent, hactive]
          | _ => exact hmisuse.elim
      | destroy c =>
          rcases hmisuse with hhandles | hlisted
          · simp [exec, request, destroy, hhandles]
          · simp [exec, request, destroy, hlisted]
      | loop =>
          have hlooping : l.looping_ = true := hmisuse
          simp [exec, request, loop, hlooping]
      | _ => exact hmisuse.elim
  | swapOut state =>
      cases hpc : l.pc with
      | inFiber fiber functors =>
          cases state with
          | READY | HOLD => simp [exec, swapOut, hpc]
          | _ => exact hmisuse.elim
      | _ => simp [guard, hpc] at hguard
  | _ => exact hmisuse.elim

theorem exec_noScheduler {a : Action χ F} (hguard : l.guard chs a = true)
    (hscheduler : l.NoScheduler a) : l.exec chs a = .error .null := by
  obtain ⟨rfl, hscheduler⟩ := hscheduler
  cases hpc : l.pc with
  | calling fiber functors => simp [exec, swapIn, hpc, hscheduler]
  | _ => simp [guard, hpc] at hguard

theorem step_inv (h : l.Inv chs seats) {a : Action χ F} (hkept : l.Kept chs a)
    (hstep : (machine chs).step l a = some l') : ∃ seats', l'.Inv chs seats' := by
  obtain ⟨hguard, hexec⟩ := (machine chs).step_eq_some_iff.mp hstep
  change l.exec chs a = .ok l' at hexec
  by_cases hmisuse : l.Misuse chs a
  · rw [exec_misuse hguard hmisuse] at hexec
    cases hexec
  · by_cases hscheduler : l.NoScheduler a
    · rw [exec_noScheduler hguard hscheduler] at hexec
      cases hexec
    · obtain ⟨after, hafter, hinv⟩ := exec_inv h hguard hmisuse hscheduler
      rw [hafter] at hexec
      cases hexec
      exact hinv hkept

/-- What an action that is enabled fails with. -/
theorem exec_eq_error_iff (h : l.Inv chs seats) {a : Action χ F} (hguard : l.guard chs a = true)
    (fault : Fault) :
    l.exec chs a = .error fault ↔
      fault = .assertion ∧ l.Misuse chs a ∨ fault = .null ∧ l.NoScheduler a := by
  by_cases hmisuse : l.Misuse chs a
  · have hnot : ¬ l.NoScheduler a := by
      rintro ⟨rfl, -⟩
      exact hmisuse
    simp [exec_misuse hguard hmisuse, hmisuse, hnot, eq_comm]
  · by_cases hscheduler : l.NoScheduler a
    · simp [exec_noScheduler hguard hscheduler, hmisuse, hscheduler, eq_comm]
    · obtain ⟨l', hexec, -⟩ := exec_inv h hguard hmisuse hscheduler
      simp [hexec, hmisuse, hscheduler]

def socket (c : Bool) : Int := cond c 5 7

theorem socket_injective : Function.Injective socket := by
  intro c d h
  cases c <;> cases d <;> simp_all [socket]

def sockets : Channels Bool := ⟨socket, fun h => socket_injective h⟩

/-- Two channels are ready, and the first one is handled. -/
def bothReady : List (Action Bool Nat) :=
  [.own (.channel ⟨.enableReading true, false⟩), .own (.channel ⟨.enableReading false, false⟩),
    .own .loop, .test, .pollReturns [(true, POLLIN), (false, POLLIN)], .handle true]

end EventLoop

end Qslary.Loop

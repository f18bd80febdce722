import Qslary.Events.Model

/-!
# The registry against the interest set

Each operation changes the registry entry and the interest of one descriptor, so
agreement is a condition on single descriptors.  `StepOk` says for which steps it
survives: an `Add` must not meet a registration of the other direction, whose event
the mask it passes leaves out, nor an entry whose descriptor the kernel has dropped;
a cancel or a deletion must have nothing to undo in the kernel.
-/

namespace Qslary.Events

open Qslary.Foundation

variable {C : Type}

/-- The kernel reports the event of this direction. -/
def listens (interest : Option EventMask) (d : Direction) : Bool :=
  match interest with
  | none => false
  | some events => events &&& d.event != 0

def concerned (entry : Option (FdCallback C)) (d : Direction) : Bool :=
  match entry with
  | none => false
  | some f => f.concern d

/-- One descriptor: both directions agree, and what the kernel watches has an entry. -/
structure Matches (entry : Option (FdCallback C)) (interest : Option EventMask) : Prop where
  listens_eq : ∀ d, listens interest d = concerned entry d
  known : interest ≠ none → entry ≠ none

/-- `mWakeupFd` is watched outside the registry, and `Idle` takes its reports itself. -/
def IOManager.Agree (m : IOManager C) : Prop :=
  ∀ fd, fd ≠ m.mWakeupFd → Matches (m.mFdGroups fd) (m.epoll.interest fd)

/-- The condition on the state before a step under which agreement survives it. -/
def StepOk (m : IOManager C) : Op C → Prop
  | .add d fd _ =>
      fd = m.mWakeupFd ∨
        match m.mFdGroups fd with
        | none => m.epoll.opened fd = true
        | some f => m.epoll.interest fd ≠ none ∧ f.concern d.other = false
  | .cancel d fd => fd = m.mWakeupFd ∨ concerned (m.mFdGroups fd) d = false
  | .delFileDesc fd => m.mFdGroups fd ≠ none ∧ (fd = m.mWakeupFd ∨ m.epoll.interest fd = none)
  | .close fd threadHookEnable ctx iomanager =>
      fd = m.mWakeupFd ∨ (threadHookEnable && ctx && iomanager) = true ∨
        ∀ d, concerned (m.mFdGroups fd) d = false
  | .openFd _ => True

/--
What an operation promises: agreement afterwards, and of an `Add` also that the kernel
watches for its event and has not stopped to watch for the other one.
-/
structure Kept (m : IOManager C) (op : Op C) (m' : IOManager C) : Prop where
  agree : m'.Agree
  added : ∀ d fd cb, op = .add d fd cb → fd ≠ m.mWakeupFd →
    listens (m'.epoll.interest fd) d = true
  other : ∀ d fd cb, op = .add d fd cb → fd ≠ m.mWakeupFd →
    listens (m.epoll.interest fd) d.other = true →
    listens (m'.epoll.interest fd) d.other = true

/-! ## One descriptor -/

theorem Direction.event_and_self (d : Direction) : (d.event &&& d.event != 0) = true := by
  cases d <;> decide

theorem Direction.event_and_other (d : Direction) :
    (d.event &&& d.other.event != 0) = false := by
  cases d <;> decide

theorem Direction.eq_or_other (d d' : Direction) : d' = d ∨ d' = d.other := by
  cases d <;> cases d' <;> simp [Direction.other]

namespace FdCallback

variable (f : FdCallback C) (cb : Callback C) (d : Direction)

theorem concern_register_self : (f.register cb d).concern d = true := by
  cases d <;> rfl

theorem concern_register_other : (f.register cb d).concern d.other = f.concern d.other := by
  cases d <;> rfl

theorem concern_unregister_self : (f.unregister d).concern d = false := by
  cases d <;> rfl

theorem concern_default : ({} : FdCallback C).concern d = false := by
  cases d <;> rfl

end FdCallback

variable {entry : Option (FdCallback C)} {interest : Option EventMask} {f : FdCallback C}
  {cb : Callback C} {d : Direction}

theorem matches_none_iff : Matches entry none ↔ ∀ d, concerned entry d = false := by
  constructor
  · intro h d
    exact (h.listens_eq d).symm
  · intro h
    exact ⟨fun d => (h d).symm, fun hnone => absurd rfl hnone⟩

theorem not_matches_registered_none : ¬ Matches (some (f.register cb d)) none := by
  intro h
  have hoff := matches_none_iff.mp h d
  simp only [concerned, f.concern_register_self] at hoff
  cases hoff

theorem matches_registered_iff :
    Matches (some (f.register cb d)) (some d.event) ↔ f.concern d.other = false := by
  constructor
  · intro h
    have hother := h.listens_eq d.other
    simp only [listens, concerned, d.event_and_other, f.concern_register_other] at hother
    exact hother.symm
  · intro h
    refine ⟨fun d' => ?_, fun _ => Option.some_ne_none _⟩
    rcases d.eq_or_other d' with rfl | rfl
    · simp only [listens, concerned, Direction.event_and_self, f.concern_register_self]
    · simp only [listens, concerned, d.event_and_other, f.concern_register_other, h]

/-- The kernel still listens where a registration has been taken back. -/
theorem not_matches_unregistered (h : Matches (some f) interest) (hon : f.concern d = true) :
    ¬ Matches (some (f.unregister d)) interest := by
  intro hoff
  have hbefore := h.listens_eq d
  have hafter := hoff.listens_eq d
  simp only [concerned, hon] at hbefore
  simp only [concerned, f.concern_unregister_self] at hafter
  rw [hbefore] at hafter
  cases hafter

/-! ## One operation -/

namespace IOManager

variable {m m' : IOManager C} {fd : Int}

theorem agree_iff_at (m' : IOManager C) (fd : Int) (hm : m.Agree)
    (hwakeup : m'.mWakeupFd = m.mWakeupFd)
    (hgroups : ∀ fd', fd' ≠ fd → m'.mFdGroups fd' = m.mFdGroups fd')
    (hinterest : ∀ fd', fd' ≠ fd → m'.epoll.interest fd' = m.epoll.interest fd') :
    m'.Agree ↔ fd = m.mWakeupFd ∨ Matches (m'.mFdGroups fd) (m'.epoll.interest fd) := by
  constructor
  · intro h
    by_cases hfd : fd = m.mWakeupFd
    · exact Or.inl hfd
    · exact Or.inr (h fd (hwakeup ▸ hfd))
  · intro h fd' hfd'
    rw [hwakeup] at hfd'
    by_cases heq : fd' = fd
    · subst heq
      exact h.resolve_left hfd'
    · rw [hgroups fd' heq, hinterest fd' heq]
      exact hm fd' hfd'

/-- The interest after an `Add`, whose `epoll_ctl` depends on the registry entry. -/
def interestAfterAdd (m : IOManager C) (d : Direction) (fd : Int) : Option EventMask :=
  match m.mFdGroups fd, m.epoll.interest fd with
  | none, none => if m.epoll.opened fd then some d.event else none
  | none, some events => some events
  | some _, none => none
  | some _, some _ => some d.event

theorem addEvent_interest :
    (m.AddEvent d fd cb).1.epoll.interest =
      Function.update m.epoll.interest fd (m.interestAfterAdd d fd) := by
  have hsame : Function.update m.epoll.interest fd (m.epoll.interest fd) = m.epoll.interest :=
    Function.update_eq_self _ _
  unfold AddEvent UpdateEpoll interestAfterAdd
  cases hentry : m.mFdGroups fd with
  | none =>
      cases hinterest : m.epoll.interest fd with
      | none =>
          rw [hinterest] at hsame
          cases hopened : m.epoll.opened fd <;>
            simp [Epoll.ctlAdd, hinterest, hopened, hsame]
      | some events =>
          rw [hinterest] at hsame
          simp [Epoll.ctlAdd, hinterest, hsame]
  | some f =>
      cases hinterest : m.epoll.interest fd with
      | none =>
          rw [hinterest] at hsame
          simp [Epoll.ctlMod, hinterest, hsame]
      | some events => simp [Epoll.ctlMod, hinterest]

theorem addEvent_groups :
    (m.AddEvent d fd cb).1.mFdGroups =
      Function.update m.mFdGroups fd (some (((m.mFdGroups fd).getD {}).register cb d)) := by
  unfold AddEvent UpdateEpoll
  cases hentry : m.mFdGroups fd <;> simp [hentry]

theorem addEvent_wakeup : (m.AddEvent d fd cb).1.mWakeupFd = m.mWakeupFd := by
  unfold AddEvent UpdateEpoll
  cases m.mFdGroups fd <;> rfl

theorem addEvent_count : (m.AddEvent d fd cb).1.pendingEventCount = m.pendingEventCount := by
  unfold AddEvent UpdateEpoll
  cases m.mFdGroups fd <;> rfl

theorem addEvent_agree_iff (hm : m.Agree) :
    (m.AddEvent d fd cb).1.Agree ↔ StepOk m (.add d fd cb) := by
  rw [agree_iff_at _ fd hm addEvent_wakeup]
  · simp only [addEvent_groups, addEvent_interest, Function.update_self, StepOk]
    by_cases hfd : fd = m.mWakeupFd
    · simp [hfd]
    · have hat := hm fd hfd
      simp only [hfd, false_or, interestAfterAdd]
      cases hentry : m.mFdGroups fd with
      | none =>
          have hnone : m.epoll.interest fd = none := by
            by_contra hsome
            exact hat.known hsome hentry
          cases hopened : m.epoll.opened fd <;>
            simp [hnone, not_matches_registered_none, matches_registered_iff,
              FdCallback.concern_default]
      | some f =>
          cases hinterest : m.epoll.interest fd with
          | none => simp [not_matches_registered_none]
          | some events => simp [matches_registered_iff]
  · intro fd' hne
    rw [addEvent_groups, Function.update_of_ne hne]
  · intro fd' hne
    rw [addEvent_interest, Function.update_of_ne hne]

theorem cancelEvent_epoll : (m.CancelEvent d fd).1.epoll = m.epoll := by
  unfold CancelEvent
  cases m.mFdGroups fd with
  | none => rfl
  | some f =>
      simp only
      split <;> rfl

theorem cancelEvent_wakeup : (m.CancelEvent d fd).1.mWakeupFd = m.mWakeupFd := by
  unfold CancelEvent
  cases m.mFdGroups fd with
  | none => rfl
  | some f =>
      simp only
      split <;> rfl

theorem cancelEvent_count : (m.CancelEvent d fd).1.pendingEventCount = m.pendingEventCount := by
  unfold CancelEvent
  cases m.mFdGroups fd with
  | none => rfl
  | some f =>
      simp only
      split <;> rfl

theorem unregister_of_not_concern (h : f.concern d = false) : f.unregister d = f := by
  obtain ⟨concernRead, concernWrite, readCallback, writeCallback⟩ := f
  cases d with
  | read =>
      have hoff : concernRead = false := h
      simp only [FdCallback.unregister, hoff]
  | write =>
      have hoff : concernWrite = false := h
      simp only [FdCallback.unregister, hoff]

theorem cancelEvent_groups :
    (m.CancelEvent d fd).1.mFdGroups =
      Function.update m.mFdGroups fd ((m.mFdGroups fd).map fun f => f.unregister d) := by
  have hsame : Function.update m.mFdGroups fd (m.mFdGroups fd) = m.mFdGroups :=
    Function.update_eq_self _ _
  unfold CancelEvent
  cases hentry : m.mFdGroups fd with
  | none =>
      rw [hentry] at hsame
      simp [hsame]
  | some f =>
      cases hon : f.concern d with
      | false =>
          rw [hentry] at hsame
          simp [hon, unregister_of_not_concern hon, hsame]
      | true => simp [hon]

theorem cancelEvent_agree_iff (hm : m.Agree) :
    (m.CancelEvent d fd).1.Agree ↔ StepOk m (.cancel d fd) := by
  rw [agree_iff_at _ fd hm cancelEvent_wakeup]
  · simp only [cancelEvent_groups, cancelEvent_epoll, Function.update_self, StepOk]
    by_cases hfd : fd = m.mWakeupFd
    · simp [hfd]
    · have hat := hm fd hfd
      simp only [hfd, false_or]
      cases hentry : m.mFdGroups fd with
      | none => simpa [concerned, hentry] using hat
      | some f =>
          rw [hentry] at hat
          cases hon : f.concern d with
          | false => simpa [concerned, hon, unregister_of_not_concern hon] using hat
          | true => simpa [concerned, hon] using not_matches_unregistered hat hon
  · intro fd' hne
    rw [cancelEvent_groups, Function.update_of_ne hne]
  · intro fd' _
    rw [cancelEvent_epoll]

theorem matches_none_left_iff : Matches (none : Option (FdCallback C)) interest ↔
    interest = none := by
  constructor
  · intro h
    by_contra hsome
    exact h.known hsome rfl
  · rintro rfl
    exact matches_none_iff.mpr fun _ => rfl

theorem erase_agree_iff (hm : m.Agree) :
    ({ m with mFdGroups := Function.update m.mFdGroups fd none } : IOManager C).Agree ↔
      fd = m.mWakeupFd ∨ m.epoll.interest fd = none := by
  rw [agree_iff_at { m with mFdGroups := Function.update m.mFdGroups fd none } fd hm rfl ?_
    fun _ _ => rfl]
  · simp only [Function.update_self, matches_none_left_iff]
  · intro fd' hne
    exact Function.update_of_ne hne _ _

theorem cancelAll_groups :
    (m.CancelAll fd).1.mFdGroups =
      Function.update m.mFdGroups fd
        ((m.mFdGroups fd).map fun f => (f.unregister .read).unregister .write) := by
  have hdone : (m.CancelEvent .read fd).2 = true := by
    unfold CancelEvent
    cases m.mFdGroups fd with
    | none => rfl
    | some f =>
        simp only
        split <;> rfl
  simp only [CancelAll, CancelReadEvent, CancelWriteEvent, hdone, if_true, cancelEvent_groups,
    Function.update_self, Function.update_idem, Option.map_map]
  rfl

theorem cancelAll_epoll : (m.CancelAll fd).1.epoll = m.epoll := by
  unfold CancelAll
  simp only
  split
  · rw [CancelWriteEvent, cancelEvent_epoll, CancelReadEvent, cancelEvent_epoll]
  · rw [CancelReadEvent, cancelEvent_epoll]

theorem cancelAll_wakeup : (m.CancelAll fd).1.mWakeupFd = m.mWakeupFd := by
  unfold CancelAll
  simp only
  split
  · rw [CancelWriteEvent, cancelEvent_wakeup, CancelReadEvent, cancelEvent_wakeup]
  · rw [CancelReadEvent, cancelEvent_wakeup]

theorem concerned_cancelled (d : Direction) :
    concerned (entry.map fun f => (f.unregister .read).unregister .write) d = false := by
  cases entry with
  | none => rfl
  | some f => cases d <;> rfl

theorem closeF_agree_iff (fd : Int) (hm : m.Agree) (hwakeup : m'.mWakeupFd = m.mWakeupFd)
    (hepoll : m'.epoll = m.epoll)
    (hgroups : ∀ fd', fd' ≠ fd → m'.mFdGroups fd' = m.mFdGroups fd') :
    (m'.closeF fd).Agree ↔
      fd = m.mWakeupFd ∨ ∀ d, concerned (m'.mFdGroups fd) d = false := by
  rw [agree_iff_at (m'.closeF fd) fd hm hwakeup hgroups]
  · simp only [closeF, Epoll.closeFd, Function.update_self, matches_none_iff]
  · intro fd' hne
    simp only [closeF, Epoll.closeFd, Function.update_of_ne hne, hepoll]

theorem close_agree_iff {threadHookEnable ctx iomanager : Bool} (hm : m.Agree) :
    (m.close fd threadHookEnable ctx iomanager).Agree ↔
      StepOk m (.close fd threadHookEnable ctx iomanager) := by
  have hplain := closeF_agree_iff fd hm rfl rfl fun _ _ => rfl
  have hcancelled := closeF_agree_iff fd hm cancelAll_wakeup cancelAll_epoll
    fun fd' hne => by rw [cancelAll_groups, Function.update_of_ne hne]
  have hoff : ∀ d, concerned ((m.CancelAll fd).1.mFdGroups fd) d = false := by
    intro d
    rw [cancelAll_groups, Function.update_self, concerned_cancelled]
  unfold close StepOk
  cases threadHookEnable <;> cases ctx <;> cases iomanager <;>
    simp [hplain, hcancelled, hoff]

end IOManager

/-! ## Runs -/

variable {m m' : IOManager C} {op : Op C}

theorem perform_add (fd : Int) :
    perform m (.add d fd cb) = .ok (m.AddEvent d fd cb).1 := by
  cases d <;> rfl

theorem perform_cancel (fd : Int) :
    perform m (.cancel d fd) = .ok (m.CancelEvent d fd).1 := by
  cases d <;> rfl

theorem perform_agree_iff (hm : m.Agree) :
    (∃ m', perform m op = .ok m' ∧ m'.Agree) ↔ StepOk m op := by
  cases op with
  | add d fd cb =>
      simp only [perform_add, Except.ok.injEq, exists_eq_left',
        IOManager.addEvent_agree_iff hm]
  | cancel d fd =>
      simp only [perform_cancel, Except.ok.injEq, exists_eq_left',
        IOManager.cancelEvent_agree_iff hm]
  | delFileDesc fd =>
      cases hentry : m.mFdGroups fd with
      | none => simp [perform, IOManager.DelFileDesc, hentry, Except.map, StepOk]
      | some f =>
          simp [perform, IOManager.DelFileDesc, hentry, Except.map, StepOk,
            IOManager.erase_agree_iff hm]
  | close fd threadHookEnable ctx iomanager =>
      simp only [perform, Except.ok.injEq, exists_eq_left', IOManager.close_agree_iff hm]
  | openFd fd =>
      simp only [perform, Except.ok.injEq, exists_eq_left', StepOk, iff_true]
      exact hm

theorem kept_iff_agree (hm : m.Agree) (hperform : perform m op = .ok m') :
    Kept m op m' ↔ m'.Agree := by
  constructor
  · exact Kept.agree
  · intro hagree
    have hwakeup : ∀ d fd cb, op = .add d fd cb → m'.mWakeupFd = m.mWakeupFd := by
      rintro d fd cb rfl
      rw [perform_add] at hperform
      cases hperform
      exact IOManager.addEvent_wakeup
    refine ⟨hagree, ?_, ?_⟩
    · rintro d fd cb rfl hfd
      have hat := hagree fd (hwakeup d fd cb rfl ▸ hfd)
      rw [perform_add] at hperform
      cases hperform
      rw [hat.listens_eq, IOManager.addEvent_groups, Function.update_self]
      exact FdCallback.concern_register_self _ _ _
    · rintro d fd cb rfl hfd hbefore
      have hat := hagree fd (hwakeup d fd cb rfl ▸ hfd)
      rw [perform_add] at hperform
      cases hperform
      rw [(hm fd hfd).listens_eq] at hbefore
      rw [hat.listens_eq, IOManager.addEvent_groups, Function.update_self]
      cases hentry : m.mFdGroups fd with
      | none =>
          rw [hentry] at hbefore
          cases hbefore
      | some f =>
          rw [hentry] at hbefore
          simp only [concerned, Option.getD_some, FdCallback.concern_register_other]
          exact hbefore

theorem step_kept_iff (hm : m.Agree) :
    (∃ m', (machine C).step m op = some m' ∧ Kept m op m') ↔ StepOk m op := by
  rw [← perform_agree_iff hm]
  simp only [Machine.step_eq_some_iff]
  constructor
  · rintro ⟨m', ⟨-, hperform⟩, hkept⟩
    exact ⟨m', hperform, hkept.agree⟩
  · rintro ⟨m', hperform, hagree⟩
    exact ⟨m', ⟨rfl, hperform⟩, (kept_iff_agree hm hperform).mpr hagree⟩

theorem constructed_agree (opened : Int → Bool) (mWakeupFd timerfd : Int)
    (handleRead : Callback C) :
    (IOManager.constructed opened mWakeupFd timerfd handleRead).Agree := by
  unfold IOManager.constructed IOManager.AddReadEvent
  have hblank : (⟨mWakeupFd, fun _ => none,
      (((⟨opened, fun _ => none⟩ : Epoll).openFd timerfd).openFd mWakeupFd).ctlAdd mWakeupFd
        EPOLLIN, 0⟩ : IOManager C).Agree := by
    intro fd hfd
    simp only [Epoll.ctlAdd, Epoll.openFd, Function.update_self, Option.isNone_none, Bool.and_true,
      if_true, Function.update_of_ne hfd]
    exact IOManager.matches_none_left_iff.mpr rfl
  rw [IOManager.addEvent_agree_iff hblank]
  by_cases hfd : timerfd = mWakeupFd
  · exact Or.inl hfd
  · exact Or.inr (by simp [Epoll.ctlAdd, Epoll.openFd, Function.update_of_ne hfd])

/--
Along every sequence of operations from the constructor on, the registry and the
interest set agree after each operation if and only if each step meets `StepOk`.
-/
theorem registry_agrees_iff (opened : Int → Bool) (mWakeupFd timerfd : Int)
    (handleRead : Callback C) (ops : List (Op C)) :
    (machine C).Always Kept (.constructed opened mWakeupFd timerfd handleRead) ops ↔
      (machine C).Meets StepOk (.constructed opened mWakeupFd timerfd handleRead) ops :=
  Machine.always_iff_meets step_kept_iff (fun _ _ hkept => hkept.agree)
    (constructed_agree opened mWakeupFd timerfd handleRead)

/-- Reading and then writing is registered for one socket, as `test_fiber` does. -/
def readThenWrite : List (Op Unit) :=
  [.add .read 5 (some ()), .add .write 5 (some ())]

theorem registry_agrees_fails :
    (∃ m, (machine Unit).run (.constructed (fun _ => true) 3 4 (some ())) readThenWrite = some m ∧
      concerned (m.mFdGroups 5) .read = true ∧ listens (m.epoll.interest 5) .read = false) ∧
    ¬ (machine Unit).Always Kept (.constructed (fun _ => true) 3 4 (some ())) readThenWrite := by
  constructor
  · exact ⟨_, rfl, by decide, by decide⟩
  · rintro ⟨m₁, h₁, -, m₂, h₂, hkept, -⟩
    cases h₁
    cases h₂
    have hread := (hkept.agree 5 (by decide)).listens_eq .read
    revert hread
    decide

end Qslary.Events

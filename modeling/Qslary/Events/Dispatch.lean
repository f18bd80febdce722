import Qslary.Events.Interest

/-!
# Dispatch of epoll events

What a descriptor's entry holds is determined by the last operation on each of its two
sides.  `TriggerEvent` tests `concernRead` for both sides, so what it schedules is what
the history calls for exactly when the write side is not asked for or both sides are in
the same condition.
-/

namespace Qslary.Events

open Qslary.Foundation

variable {C : Type}

namespace Op

/-- An `Add` or `Cancel` of direction `d` on `fd`. -/
def onSide (d : Direction) (fd : Int) : Op C → Bool
  | .add d' fd' _ => d' == d && fd' == fd
  | .cancel d' fd' => d' == d && fd' == fd
  | _ => false

def isRegistration : Op C → Bool
  | .add _ _ _ => true
  | .cancel _ _ => true
  | _ => false

/-- The callback of an `Add`. -/
def added : Op C → Option (Callback C)
  | .add _ _ cb => some cb
  | _ => none

end Op

/-- The callback of the last operation of direction `d` on `fd`, when that is an `Add`. -/
def lastAdd (d : Direction) (fd : Int) (history : List (Op C)) : Option (Callback C) :=
  (history.filter (Op.onSide d fd)).getLast?.bind Op.added

/-- The events a side is to be called for. -/
def Direction.events (d : Direction) : EventMask := d.event ||| (EPOLLERR ||| EPOLLHUP)

def called (d : Direction) (fd : Int) (events : EventMask) (history : List (Op C)) :
    List (Callback C) :=
  if events &&& d.events != 0 then (lastAdd d fd history).toList else []

/-- What a report on `fd` is to schedule after `history`. -/
def expected (fd : Int) (events : EventMask) (history : List (Op C)) : List (Callback C) :=
  called .read fd events history ++ called .write fd events history

/-! ## Masks -/

theorem mask_or_ne_zero (a b c : EventMask) :
    (a &&& (b ||| c) != 0) = ((a &&& b != 0) || (a &&& c != 0)) := by
  rw [BitVec.and_or_distrib_left, Bool.eq_iff_iff, Bool.or_eq_true]
  simp only [bne_iff_ne, ne_eq]
  rw [← not_and_or]
  exact not_congr BitVec.or_eq_zero_iff

/-- `ProcessFdEvent` widens the mask of an error or a hangup. -/
def widened (events : EventMask) : EventMask :=
  if events &&& (EPOLLERR ||| EPOLLHUP) != 0 then events ||| (EPOLLIN ||| EPOLLOUT) else events

theorem widened_and_event (events : EventMask) (d : Direction) :
    (widened events &&& d.event != 0) = (events &&& d.events != 0) := by
  rw [Direction.events, mask_or_ne_zero]
  unfold widened
  split
  · rename_i herr
    rw [herr, Bool.or_true]
    have hown : (d.event &&& (EPOLLIN ||| EPOLLOUT) != 0) = true := by cases d <;> decide
    rw [BitVec.and_comm, mask_or_ne_zero, hown, Bool.or_true]
  · rename_i herr
    simp only [Bool.not_eq_true] at herr
    rw [herr, Bool.or_false]

/-! ## The entry and the history -/

namespace FdCallback

def callback (f : FdCallback C) : Direction → Callback C
  | .read => f.readCallback
  | .write => f.writeCallback

/-- The callback of a side that is registered. -/
def active (f : FdCallback C) (d : Direction) : Option (Callback C) :=
  if f.concern d then some (f.callback d) else none

theorem active_register (f : FdCallback C) (cb : Callback C) (d d' : Direction) :
    (f.register cb d).active d' = if d = d' then some cb else f.active d' := by
  cases d <;> cases d' <;> rfl

theorem active_unregister (f : FdCallback C) (d d' : Direction) :
    (f.unregister d).active d' = if d = d' then none else f.active d' := by
  cases d <;> cases d' <;> rfl

end FdCallback

variable {m m' : IOManager C} {op : Op C} {fd : Int} {history : List (Op C)}

/-- An operation sets the side it is on and leaves the others alone. -/
theorem active_of_perform (d : Direction) (hop : op.isRegistration = true)
    (hperform : perform m op = .ok m') :
    (m'.mFdGroups fd).bind (·.active d) =
      if op.onSide d fd then op.added else (m.mFdGroups fd).bind (·.active d) := by
  cases op with
  | add d' fd' cb =>
      rw [perform_add] at hperform
      cases hperform
      rw [IOManager.addEvent_groups]
      by_cases hfd : fd' = fd
      · subst hfd
        have hdefault : ({} : FdCallback C).active d = none := by cases d <;> rfl
        rw [Function.update_self, Option.bind_some, FdCallback.active_register]
        by_cases hd : d' = d
        · simp [hd, Op.onSide, Op.added]
        · cases hentry : m.mFdGroups fd' <;> simp [hd, Op.onSide, hdefault]
      · rw [Function.update_of_ne (Ne.symm hfd)]
        simp [hfd, Op.onSide]
  | cancel d' fd' =>
      rw [perform_cancel] at hperform
      cases hperform
      rw [IOManager.cancelEvent_groups]
      by_cases hfd : fd' = fd
      · subst hfd
        rw [Function.update_self]
        by_cases hd : d' = d
        · cases hentry : m.mFdGroups fd' <;>
            simp [hd, Op.onSide, Op.added, FdCallback.active_unregister]
        · cases hentry : m.mFdGroups fd' <;>
            simp [hd, Op.onSide, FdCallback.active_unregister]
      · rw [Function.update_of_ne (Ne.symm hfd)]
        simp [hfd, Op.onSide]
  | delFileDesc fd' => cases hop
  | close fd' threadHookEnable ctx iomanager => cases hop
  | openFd fd' => cases hop

theorem lastAdd_append (d : Direction) :
    lastAdd d fd (history ++ [op]) =
      if op.onSide d fd then op.added else lastAdd d fd history := by
  unfold lastAdd
  rw [List.filter_append, List.filter_singleton]
  cases hside : op.onSide d fd <;> simp

theorem groups_ne_none_of_perform (hop : op.isRegistration = true)
    (hperform : perform m op = .ok m')
    (hentry : m.mFdGroups fd ≠ none ∨ ∃ d cb, op = .add d fd cb) : m'.mFdGroups fd ≠ none := by
  cases op with
  | add d' fd' cb =>
      rw [perform_add] at hperform
      cases hperform
      rw [IOManager.addEvent_groups]
      by_cases hfd : fd = fd'
      · subst hfd
        rw [Function.update_self]
        exact Option.some_ne_none _
      · rw [Function.update_of_ne hfd]
        refine hentry.resolve_right ?_
        rintro ⟨d, cb', heq⟩
        cases heq
        exact hfd rfl
  | cancel d' fd' =>
      have hold : m.mFdGroups fd ≠ none := by
        refine hentry.resolve_right ?_
        rintro ⟨d, cb', heq⟩
        cases heq
      rw [perform_cancel] at hperform
      cases hperform
      rw [IOManager.cancelEvent_groups]
      by_cases hfd : fd = fd'
      · subst hfd
        rw [Function.update_self]
        simpa using hold
      · rw [Function.update_of_ne hfd]
        exact hold
  | delFileDesc fd' => cases hop
  | close fd' threadHookEnable ctx iomanager => cases hop
  | openFd fd' => cases hop

/-- The registry after `history`, seen from one descriptor. -/
structure Recorded (m : IOManager C) (history : List (Op C)) (fd : Int) : Prop where
  active_eq : ∀ d, (m.mFdGroups fd).bind (·.active d) = lastAdd d fd history
  entry : (∃ d cb, .add d fd cb ∈ history) → m.mFdGroups fd ≠ none

theorem Recorded.perform (h : Recorded m history fd) (hop : op.isRegistration = true)
    (hperform : perform m op = .ok m') : Recorded m' (history ++ [op]) fd := by
  refine ⟨fun d => ?_, ?_⟩
  · rw [active_of_perform d hop hperform, lastAdd_append, h.active_eq]
  · rintro ⟨d, cb, hmem⟩
    apply groups_ne_none_of_perform hop hperform
    rcases List.mem_append.mp hmem with hold | hnew
    · exact Or.inl (h.entry ⟨d, cb, hold⟩)
    · exact Or.inr ⟨d, cb, (List.mem_singleton.mp hnew).symm⟩

theorem Recorded.run {ops : List (Op C)} (h : Recorded m history fd)
    (hops : ∀ op ∈ ops, op.isRegistration = true) (hrun : (machine C).run m ops = some m') :
    Recorded m' (history ++ ops) fd := by
  induction ops generalizing m history with
  | nil =>
      cases hrun
      simpa using h
  | cons op ops ih =>
      obtain ⟨mid, hmid, hrest⟩ := (machine C).run_cons_iff.mp hrun
      have hperform := ((machine C).step_eq_some_iff.mp hmid).2
      have hmidrec := h.perform (hops op List.mem_cons_self) hperform
      have hafter := ih hmidrec (fun o ho => hops o (List.mem_cons_of_mem op ho)) hrest
      rwa [List.append_assoc] at hafter

theorem recorded_constructed (opened : Int → Bool) (mWakeupFd timerfd : Int)
    (handleRead : Callback C) (fd : Int) :
    Recorded (IOManager.constructed opened mWakeupFd timerfd handleRead)
      [.add .read timerfd handleRead] fd := by
  unfold IOManager.constructed
  exact Recorded.perform (⟨fun _ => rfl, by simp⟩ : Recorded _ [] fd) rfl rfl

/-! ## What is scheduled -/

theorem triggerEvent_scheduled (f : FdCallback C) (events : EventMask) :
    (f.TriggerEvent events).1 =
      (if f.concernRead && events &&& EPOLLIN != 0 then [f.readCallback] else []) ++
        if f.concernRead && events &&& EPOLLOUT != 0 then [f.writeCallback] else [] := by
  unfold FdCallback.TriggerEvent
  cases (f.concernRead && events &&& EPOLLIN != 0) <;>
    cases (f.concernRead && events &&& EPOLLOUT != 0) <;> rfl

theorem processFdEvent_eq {f : FdCallback C} (hentry : m.mFdGroups fd = some f)
    (events : EventMask) :
    ∃ m', m.ProcessFdEvent fd events = .ok (m', (f.TriggerEvent (widened events)).1) := by
  unfold IOManager.ProcessFdEvent
  simp only [hentry]
  exact ⟨_, rfl⟩

/-- The two sides of an entry and the two masks decide it. -/
theorem scheduled_eq_iff (f : FdCallback C) (events : EventMask)
    (hactive : ∀ d, f.active d = lastAdd d fd history) :
    (f.TriggerEvent (widened events)).1 = expected fd events history ↔
      events &&& Direction.write.events = 0 ∨
        (lastAdd .read fd history).isSome = (lastAdd .write fd history).isSome := by
  have hin : (widened events &&& EPOLLIN != 0) = (events &&& Direction.read.events != 0) :=
    widened_and_event events .read
  have hout : (widened events &&& EPOLLOUT != 0) = (events &&& Direction.write.events != 0) :=
    widened_and_event events .write
  have hmask : events &&& Direction.write.events = 0 ↔
      (events &&& Direction.write.events != 0) = false := by simp
  obtain ⟨concernRead, concernWrite, readCallback, writeCallback⟩ := f
  simp only [expected, called, triggerEvent_scheduled, hin, hout, ← hactive, hmask]
  cases concernRead <;> cases concernWrite <;>
    cases (events &&& Direction.read.events != 0) <;>
    cases (events &&& Direction.write.events != 0) <;>
    simp [FdCallback.active, FdCallback.concern, FdCallback.callback]

/--
After any history of `Add` and `Cancel` calls, a report on a registered descriptor
schedules what the history calls for if and only if it does not concern writing, or
reading and writing were last both added or both not.
-/
theorem dispatch_exact_iff (opened : Int → Bool) (mWakeupFd timerfd : Int)
    (handleRead : Callback C) (ops : List (Op C)) (hops : ∀ op ∈ ops, op.isRegistration = true)
    (m : IOManager C)
    (hrun : (machine C).run (.constructed opened mWakeupFd timerfd handleRead) ops = some m)
    (fd : Int) (hregistered : ∃ d cb, .add d fd cb ∈ .add .read timerfd handleRead :: ops)
    (events : EventMask) :
    (∃ m', m.ProcessFdEvent fd events =
        .ok (m', expected fd events (.add .read timerfd handleRead :: ops))) ↔
      events &&& Direction.write.events = 0 ∨
        (lastAdd .read fd (.add .read timerfd handleRead :: ops)).isSome =
          (lastAdd .write fd (.add .read timerfd handleRead :: ops)).isSome := by
  have hrecorded :=
    (recorded_constructed opened mWakeupFd timerfd handleRead fd).run hops hrun
  obtain ⟨f, hf⟩ := Option.ne_none_iff_exists'.mp (hrecorded.entry hregistered)
  have hactive := hrecorded.active_eq
  simp only [hf, Option.bind_some, List.singleton_append] at hactive
  obtain ⟨m', hprocess⟩ := processFdEvent_eq hf events
  rw [← scheduled_eq_iff f events hactive, hprocess]
  simp

theorem dispatch_exact_sample :
    ∃ m m', (machine Nat).run (.constructed (fun _ => true) 3 4 none)
        [.add .read 5 (some 1), .add .write 5 (some 2)] = some m ∧
      m.ProcessFdEvent 5 EPOLLHUP = .ok (m', [some 1, some 2]) := by
  obtain ⟨m', hprocess⟩ := (dispatch_exact_iff (fun _ => true) 3 4 none
    [.add .read 5 (some 1), .add .write 5 (some 2)] (by decide) _ rfl 5
    ⟨.read, some 1, by simp⟩ EPOLLHUP).mpr (Or.inr rfl)
  exact ⟨_, m', rfl, hprocess⟩

/-- A write event on a descriptor registered for writing alone schedules nothing. -/
theorem dispatch_drops_write :
    ∃ m m', (machine Nat).run (.constructed (fun _ => true) 3 4 none)
        [.add .write 5 (some 2)] = some m ∧
      m.ProcessFdEvent 5 EPOLLOUT = .ok (m', []) ∧
      expected 5 EPOLLOUT [.add .read 4 none, .add .write 5 (some 2)] = [some 2] :=
  ⟨_, _, rfl, rfl, by decide⟩

end Qslary.Events

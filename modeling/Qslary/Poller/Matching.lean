import Qslary.Poller.Epoller

/-!
# The three records of a channel

To the poller a channel is unknown, watched, or known and not watched, and each of the
three records says which.  Descriptors are not shared, so the poller is one such automaton
for each channel, and what a run leaves in the records is what the automata come to.  Only
the kernel can set the records apart: the poller goes on as if it were never refused.
-/

namespace Qslary.Poller

open Qslary.Foundation
open Qslary.Events (EventMask)

inductive Status where
  | unknown
  | watched
  | idle
  deriving DecidableEq, Repr

/-- A channel with what it asks for. -/
structure Seat where
  status : Status
  events : EventMask
  deriving DecidableEq, Repr

namespace Seat

variable {χ : Type}

def index (seat : Seat) : Int :=
  match seat.status with
  | .unknown => kNew
  | .watched => kAdded
  | .idle => kDeleted

def channel (seat : Seat) : Channel :=
  ⟨seat.events, seat.index, seat.status != .unknown⟩

def listed (seat : Seat) (c : χ) : Option χ :=
  match seat.status with
  | .unknown => none
  | _ => some c

def watched (seat : Seat) (c : χ) : Option (Event χ) :=
  match seat.status with
  | .watched => some ⟨seat.events, c⟩
  | _ => none

/-- A watched channel that asks for nothing is dropped; any other is watched afterwards. -/
def setEvents (seat : Seat) (events : EventMask) : Seat :=
  if seat.status = .watched ∧ events = kNoneEvent then ⟨.idle, events⟩
  else ⟨.watched, events⟩

def remove (seat : Seat) : Seat := ⟨.unknown, seat.events⟩

def start : Seat := ⟨.unknown, kNoneEvent⟩

end Seat

variable {χ : Type}

namespace Call

def target : Call χ → χ
  | enableReading c | disableReading c | enableWriting c | disableWriting c | disableAll c
  | remove c => c

/-- What the channel asks for after the call. -/
def events (call : Call χ) (events_ : EventMask) : EventMask :=
  match call with
  | enableReading _ => events_ ||| kReadEvent
  | disableReading _ => events_ &&& ~~~kReadEvent
  | enableWriting _ => events_ ||| kWriteEvent
  | disableWriting _ => events_ &&& ~~~kWriteEvent
  | disableAll _ => kNoneEvent
  | remove _ => events_

def isRemove : Call χ → Bool
  | remove _ => true
  | _ => false

/-- What the poller wants the kernel to watch the descriptor for after the call. -/
def wants (call : Call χ) (p : EPollPoller χ) : Option (Event χ) :=
  let ch := p.channel call.target
  if call.isRemove || ch.index_ == kAdded && call.events ch.events_ == kNoneEvent then none
  else some ⟨call.events ch.events_, call.target⟩

def moveSeat (call : Call χ) (seat : Seat) : Seat :=
  if call.isRemove then seat.remove else seat.setEvents (call.events seat.events)

def moveSeats [DecidableEq χ] (seats : χ → Seat) (call : Call χ) : χ → Seat :=
  Function.update seats call.target (call.moveSeat (seats call.target))

end Call

/-- If the kernel refuses, then only what would have changed nothing. -/
def Kept (chs : Channels χ) (p : EPollPoller χ) (a : Answered χ) : Prop :=
  a.refused = true → a.call.wants p = p.epoll (chs.fd a.call.target)

instance [DecidableEq χ] (chs : Channels χ) (p : EPollPoller χ) (a : Answered χ) :
    Decidable (Kept chs p a) :=
  inferInstanceAs (Decidable (_ → _))

variable {chs : Channels χ} {refused : Bool}

/-- What the kernel watches once it has been asked to watch the descriptor for `next`. -/
def Epoll.answer (k : Epoll χ) (fd : Int) (refused : Bool) (next : Option (Event χ)) : Epoll χ :=
  Function.update k fd (if refused then k fd else next)

theorem assert_true : assert true = .ok () := rfl

namespace EPollPoller

/-- The records are those of the automata, and `epoll_ctl` has never failed. -/
structure Shows (chs : Channels χ) (p : EPollPoller χ) (seats : χ → Seat) : Prop where
  channel : ∀ c, p.channel c = (seats c).channel
  listed : ∀ c, p.channels_ (chs.fd c) = (seats c).listed c
  watched : ∀ c, p.epoll (chs.fd c) = (seats c).watched c
  failed : p.failed = []

variable {p : EPollPoller χ} {seats : χ → Seat}

theorem start_shows : (start : EPollPoller χ).Shows chs fun _ => .start :=
  ⟨fun _ => rfl, fun _ => rfl, fun _ => rfl, rfl⟩

theorem Shows.isUnknown (h : p.Shows chs seats) {c : χ} (hstatus : (seats c).status = .unknown) :
    (p.channel c).index_ = kNew ∧ p.channels_ (chs.fd c) = none ∧ p.epoll (chs.fd c) = none := by
  simp [h.channel, h.listed, h.watched, Seat.channel, Seat.index, Seat.listed, Seat.watched,
    hstatus]

theorem Shows.isIdle (h : p.Shows chs seats) {c : χ} (hstatus : (seats c).status = .idle) :
    (p.channel c).index_ = kDeleted ∧ p.channels_ (chs.fd c) = some c ∧
      p.epoll (chs.fd c) = none := by
  simp [h.channel, h.listed, h.watched, Seat.channel, Seat.index, Seat.listed, Seat.watched,
    hstatus]

theorem Shows.isWatched (h : p.Shows chs seats) {c : χ} (hstatus : (seats c).status = .watched) :
    (p.channel c).index_ = kAdded ∧ p.channels_ (chs.fd c) = some c ∧
      p.epoll (chs.fd c) = some ⟨(p.channel c).events_, c⟩ := by
  simp [h.channel, h.listed, h.watched, Seat.channel, Seat.index, Seat.listed, Seat.watched,
    hstatus]

theorem update_eq {operation : Operation} {c : χ} {next : Option (Event χ)}
    (hctl : p.epoll.ctl operation (chs.fd c) ⟨(p.channel c).events_, c⟩ =
      some (Function.update p.epoll (chs.fd c) next)) :
    p.update chs refused operation c =
      { p with epoll := p.epoll.answer (chs.fd c) refused next } := by
  cases refused with
  | false => simp [update, Epoll.answer, hctl]
  | true => simp [update, Epoll.answer, hctl]

theorem update_add {c : χ} (hwatched : p.epoll (chs.fd c) = none) :
    p.update chs refused .EPOLL_CTL_ADD c =
      { p with epoll := p.epoll.answer (chs.fd c) refused (some ⟨(p.channel c).events_, c⟩) } :=
  update_eq (by simp [Epoll.ctl, hwatched])

theorem update_mod {c : χ} {event : Event χ} (hwatched : p.epoll (chs.fd c) = some event) :
    p.update chs refused .EPOLL_CTL_MOD c =
      { p with epoll := p.epoll.answer (chs.fd c) refused (some ⟨(p.channel c).events_, c⟩) } :=
  update_eq (by simp [Epoll.ctl, hwatched])

theorem update_del {c : χ} {event : Event χ} (hwatched : p.epoll (chs.fd c) = some event) :
    p.update chs refused .EPOLL_CTL_DEL c =
      { p with epoll := p.epoll.answer (chs.fd c) refused none } :=
  update_eq (by simp [Epoll.ctl, hwatched])

theorem update_listed {c : χ} (hlisted : p.channels_ (chs.fd c) = some c) :
    Function.update p.channels_ (chs.fd c) (some c) = p.channels_ := by
  rw [← hlisted]
  exact Function.update_eq_self _ _

/-! ## One channel written -/

variable [DecidableEq χ]

/-- The records with those of one channel written anew; the kernel's may stay behind. -/
def put (chs : Channels χ) (p : EPollPoller χ) (refused : Bool) (c : χ) (seat : Seat) :
    EPollPoller χ where
  channel := Function.update p.channel c seat.channel
  channels_ := Function.update p.channels_ (chs.fd c) (seat.listed c)
  epoll := p.epoll.answer (chs.fd c) refused (seat.watched c)
  failed := p.failed

theorem put_shows (h : p.Shows chs seats) {c : χ} {seat : Seat}
    (hkept : refused = true → seat.watched c = p.epoll (chs.fd c)) :
    (p.put chs refused c seat).Shows chs (Function.update seats c seat) := by
  have hanswer : (if refused then p.epoll (chs.fd c) else seat.watched c) = seat.watched c := by
    split
    · exact (hkept (by assumption)).symm
    · rfl
  have hfd : ∀ {c'}, c' ≠ c → chs.fd c' ≠ chs.fd c := fun hne heq => hne (chs.distinct heq)
  constructor
  · intro c'
    by_cases heq : c' = c
    · subst heq
      simp [put]
    · simp [put, heq, h.channel]
  · intro c'
    by_cases heq : c' = c
    · subst heq
      simp [put]
    · simp [put, heq, hfd heq, h.listed]
  · intro c'
    by_cases heq : c' = c
    · subst heq
      simp [put, Epoll.answer, hanswer]
    · simp [put, Epoll.answer, heq, hfd heq, h.watched]
  · exact h.failed

/-! ## One operation -/

theorem updateChannel_unknown {c : χ} (hindex : (p.channel c).index_ = kNew)
    (hlisted : p.channels_ (chs.fd c) = none) (hwatched : p.epoll (chs.fd c) = none) :
    p.updateChannel chs refused c =
      .ok { p with
        channel := Function.update p.channel c { p.channel c with index_ := kAdded }
        channels_ := Function.update p.channels_ (chs.fd c) (some c)
        epoll := p.epoll.answer (chs.fd c) refused (some ⟨(p.channel c).events_, c⟩) } := by
  simp [updateChannel, hindex, hlisted, assert, set_index, setChannel, update_add, hwatched]

theorem updateChannel_idle {c : χ} (hindex : (p.channel c).index_ = kDeleted)
    (hlisted : p.channels_ (chs.fd c) = some c) (hwatched : p.epoll (chs.fd c) = none) :
    p.updateChannel chs refused c =
      .ok { p with
        channel := Function.update p.channel c { p.channel c with index_ := kAdded }
        epoll := p.epoll.answer (chs.fd c) refused (some ⟨(p.channel c).events_, c⟩) } := by
  have hnew : kDeleted ≠ kNew := by decide
  simp [updateChannel, hindex, hlisted, hnew, assert, set_index, setChannel, update_add, hwatched]
  rfl

theorem updateChannel_watched {c : χ} {event : Event χ} (hindex : (p.channel c).index_ = kAdded)
    (hlisted : p.channels_ (chs.fd c) = some c) (hwatched : p.epoll (chs.fd c) = some event) :
    p.updateChannel chs refused c =
      if (p.channel c).events_ = kNoneEvent then
        .ok { p with
          channel := Function.update p.channel c { p.channel c with index_ := kDeleted }
          epoll := p.epoll.answer (chs.fd c) refused none }
      else
        .ok { p with
          epoll := p.epoll.answer (chs.fd c) refused (some ⟨(p.channel c).events_, c⟩) } := by
  have hnew : kAdded ≠ kNew := by decide
  have hdeleted : kAdded ≠ kDeleted := by decide
  simp [updateChannel, hindex, hlisted, hnew, hdeleted, assert, set_index, setChannel,
    Channel.isNoneEvent, update_del hwatched, update_mod hwatched]
  rfl

theorem removeChannel_watched {c : χ} {event : Event χ} (hindex : (p.channel c).index_ = kAdded)
    (hlisted : p.channels_ (chs.fd c) = some c) (hwatched : p.epoll (chs.fd c) = some event)
    (hnone : (p.channel c).events_ = kNoneEvent) :
    p.removeChannel chs refused c =
      .ok { p with
        channel := Function.update p.channel c { p.channel c with index_ := kNew }
        channels_ := Function.update p.channels_ (chs.fd c) none
        epoll := p.epoll.answer (chs.fd c) refused none } := by
  have hempty : (p.channel c).isNoneEvent = true := by simp [Channel.isNoneEvent, hnone]
  simp [removeChannel, hindex, hlisted, hempty, assert, set_index, setChannel, update_del, hwatched]
  rfl

theorem removeChannel_idle {c : χ} (hindex : (p.channel c).index_ = kDeleted)
    (hlisted : p.channels_ (chs.fd c) = some c) (hnone : (p.channel c).events_ = kNoneEvent) :
    p.removeChannel chs refused c =
      .ok { p with
        channel := Function.update p.channel c { p.channel c with index_ := kNew }
        channels_ := Function.update p.channels_ (chs.fd c) none } := by
  have hempty : (p.channel c).isNoneEvent = true := by simp [Channel.isNoneEvent, hnone]
  have hadded : kDeleted ≠ kAdded := by decide
  simp [removeChannel, hindex, hlisted, hempty, hadded, assert, set_index, setChannel]
  rfl

theorem setEvents_eq (h : p.Shows chs seats) (c : χ) (events : EventMask) :
    p.setEvents chs refused c events =
      .ok (p.put chs refused c ((seats c).setEvents events)) := by
  rw [setEvents]
  cases hstatus : (seats c).status with
  | unknown =>
      obtain ⟨hindex, hlisted, hwatched⟩ := h.isUnknown hstatus
      rw [updateChannel_unknown (p := p.setChannel c _) (by simp [setChannel, hindex]) hlisted
        hwatched]
      simp [setChannel, put, Seat.setEvents, hstatus, Seat.channel, Seat.index, Seat.listed,
        Seat.watched]
      rfl
  | idle =>
      obtain ⟨hindex, hlisted, hwatched⟩ := h.isIdle hstatus
      rw [updateChannel_idle (p := p.setChannel c _) (by simp [setChannel, hindex]) hlisted
        hwatched]
      simp [setChannel, put, Seat.setEvents, hstatus, Seat.channel, Seat.index, Seat.listed,
        Seat.watched, update_listed hlisted]
      rfl
  | watched =>
      obtain ⟨hindex, hlisted, hwatched⟩ := h.isWatched hstatus
      rw [updateChannel_watched (p := p.setChannel c _) (by simp [setChannel, hindex]) hlisted
        hwatched]
      by_cases hnone : events = kNoneEvent
      · simp [setChannel, put, Seat.setEvents, hstatus, hnone, Seat.channel, Seat.index,
          Seat.listed, Seat.watched, update_listed hlisted]
        rfl
      · simp [setChannel, put, Seat.setEvents, hstatus, hnone, Seat.channel, Seat.index,
          Seat.listed, Seat.watched, update_listed hlisted, hindex]
        rfl

theorem remove_eq (h : p.Shows chs seats) {c : χ} (hknown : (seats c).status ≠ .unknown)
    (hnone : (seats c).events = kNoneEvent) :
    p.remove chs refused c = .ok (p.put chs refused c (seats c).remove) := by
  have hevents : (p.channel c).events_ = kNoneEvent := by rw [h.channel, Seat.channel, hnone]
  have hempty : (p.channel c).isNoneEvent = true := by simp [Channel.isNoneEvent, hevents]
  rw [remove, hempty, assert_true]
  change EPollPoller.removeChannel chs refused _ c = _
  cases hstatus : (seats c).status with
  | unknown => exact absurd hstatus hknown
  | idle =>
      obtain ⟨hindex, hlisted, hwatched⟩ := h.isIdle hstatus
      have hkeep : p.epoll.answer (chs.fd c) refused none = p.epoll := by
        simp [Epoll.answer, ← hwatched]
      rw [removeChannel_idle (p := p.setChannel c _) (by simp [setChannel, hindex]) hlisted
        (by simp [setChannel, hevents])]
      simp [setChannel, put, Seat.remove, Seat.channel, Seat.index, Seat.listed, Seat.watched,
        hevents, hnone, hkeep]
  | watched =>
      obtain ⟨hindex, hlisted, hwatched⟩ := h.isWatched hstatus
      rw [removeChannel_watched (p := p.setChannel c _) (by simp [setChannel, hindex]) hlisted
        hwatched (by simp [setChannel, hevents])]
      simp [setChannel, put, Seat.remove, Seat.channel, Seat.index, Seat.listed, Seat.watched,
        hevents, hnone]

/-- The kernel's record is that of the automaton just where it has not been kept from it. -/
theorem put_watched_iff (c : χ) (seat : Seat) :
    (p.put chs refused c seat).epoll (chs.fd c) = seat.watched c ↔
      (refused = true → seat.watched c = p.epoll (chs.fd c)) := by
  cases refused with
  | false => simp [put, Epoll.answer]
  | true => simp [put, Epoll.answer, eq_comm]

end EPollPoller

namespace Call

variable [DecidableEq χ] {p p' : EPollPoller χ} {seats : χ → Seat}

/-- Every call the owner may make goes through, and moves the automaton of its channel. -/
theorem exec_eq (h : p.Shows chs seats) {a : Answered χ}
    (hguard : (machine chs).guard p a = true) :
    (machine chs).exec p a =
      .ok (p.put chs a.refused a.call.target (a.call.moveSeat (seats a.call.target))) := by
  have hevents : ∀ c, (p.channel c).events_ = (seats c).events := fun c =>
    congrArg Channel.events_ (h.channel c)
  obtain ⟨call, refused⟩ := a
  cases call with
  | enableReading c =>
      simp only [machine, exec, EPollPoller.enableReading, hevents, EPollPoller.setEvents_eq h]
      rfl
  | disableReading c =>
      simp only [machine, exec, EPollPoller.disableReading, hevents, EPollPoller.setEvents_eq h]
      rfl
  | enableWriting c =>
      simp only [machine, exec, EPollPoller.enableWriting, hevents, EPollPoller.setEvents_eq h]
      rfl
  | disableWriting c =>
      simp only [machine, exec, EPollPoller.disableWriting, hevents, EPollPoller.setEvents_eq h]
      rfl
  | disableAll c => exact EPollPoller.setEvents_eq h c kNoneEvent
  | remove c =>
      simp only [machine, h.channel c, Seat.channel, Channel.isNoneEvent, Bool.and_eq_true,
        bne_iff_ne, beq_iff_eq] at hguard
      exact EPollPoller.remove_eq h hguard.1 hguard.2

omit [DecidableEq χ] in
theorem wants_eq (h : p.Shows chs seats) (call : Call χ) :
    call.wants p = (call.moveSeat (seats call.target)).watched call.target := by
  have hindex : (p.channel call.target).index_ = kAdded ↔
      (seats call.target).status = .watched := by
    rw [h.channel]
    cases hstatus : (seats call.target).status <;>
      simp [Seat.channel, Seat.index, hstatus, kNew, kAdded, kDeleted]
  have hevents : (p.channel call.target).events_ = (seats call.target).events :=
    congrArg Channel.events_ (h.channel _)
  cases hremove : call.isRemove with
  | true => simp [wants, moveSeat, hremove, Seat.remove, Seat.watched]
  | false =>
      simp only [wants, moveSeat, hremove, hevents, Bool.false_or, Bool.and_eq_true, beq_iff_eq,
        hindex, Seat.setEvents, Bool.false_eq_true, if_false]
      split <;> rfl

omit [DecidableEq χ] in
theorem kept_iff (h : p.Shows chs seats) (a : Answered χ) :
    Kept chs p a ↔ (a.refused = true → (a.call.moveSeat (seats a.call.target)).watched
      a.call.target = p.epoll (chs.fd a.call.target)) := by
  rw [Kept, wants_eq h]

theorem step_shows (h : p.Shows chs seats) {a : Answered χ} (hkept : Kept chs p a)
    (hstep : (machine chs).step p a = some p') : p'.Shows chs (moveSeats seats a.call) := by
  obtain ⟨hguard, hexec⟩ := (machine chs).step_eq_some_iff.mp hstep
  rw [exec_eq h hguard] at hexec
  cases hexec
  exact EPollPoller.put_shows h ((kept_iff h a).mp hkept)

omit [DecidableEq χ] in
theorem moveSeat_known (call : Call χ) (seat : Seat) :
    (call.moveSeat seat).status ≠ .unknown ↔ ∀ c, call ≠ remove c := by
  have hset : ∀ events, (seat.setEvents events).status ≠ .unknown := by
    intro events
    unfold Seat.setEvents
    split <;> simp
  cases call <;> simp [moveSeat, isRemove, hset, Seat.remove]

/-! ## Who may be removed -/

/-- Whether a channel has been updated since its last removal, after one more call. -/
def updates (c : χ) (updated : Bool) (call : Call χ) : Bool :=
  if call.target = c then !call.isRemove else updated

theorem added_set_index (p : EPollPoller χ) (c c' : χ) (idx : Int) :
    ((p.set_index c idx).channel c').addedToLoop_ = (p.channel c').addedToLoop_ := by
  by_cases heq : c' = c
  · subst heq
    simp [EPollPoller.set_index, EPollPoller.setChannel]
  · simp [EPollPoller.set_index, EPollPoller.setChannel, heq]

omit [DecidableEq χ] in
theorem channel_update (p : EPollPoller χ) (operation : Operation) (c : χ) :
    (p.update chs refused operation c).channel = p.channel := by
  unfold EPollPoller.update
  split
  · split <;> rfl
  · rfl

theorem added_updateChannel {c : χ} (hexec : p.updateChannel chs refused c = .ok p') (c' : χ) :
    (p'.channel c').addedToLoop_ = (p.channel c').addedToLoop_ := by
  simp only [EPollPoller.updateChannel] at hexec
  split at hexec
  · split at hexec
    · obtain ⟨-, -, hexec⟩ := bind_eq_ok.mp hexec
      cases hexec
      rw [channel_update, added_set_index]
    · obtain ⟨-, -, hexec⟩ := bind_eq_ok.mp hexec
      obtain ⟨-, -, hexec⟩ := bind_eq_ok.mp hexec
      cases hexec
      rw [channel_update, added_set_index]
  · obtain ⟨-, -, hexec⟩ := bind_eq_ok.mp hexec
    obtain ⟨-, -, hexec⟩ := bind_eq_ok.mp hexec
    obtain ⟨-, -, hexec⟩ := bind_eq_ok.mp hexec
    split at hexec
    · cases hexec
      rw [added_set_index, channel_update]
    · cases hexec
      rw [channel_update]

theorem added_removeChannel {c : χ} (hexec : p.removeChannel chs refused c = .ok p') (c' : χ) :
    (p'.channel c').addedToLoop_ = (p.channel c').addedToLoop_ := by
  simp only [EPollPoller.removeChannel] at hexec
  obtain ⟨-, -, hexec⟩ := bind_eq_ok.mp hexec
  obtain ⟨-, -, hexec⟩ := bind_eq_ok.mp hexec
  obtain ⟨-, -, hexec⟩ := bind_eq_ok.mp hexec
  obtain ⟨-, -, hexec⟩ := bind_eq_ok.mp hexec
  obtain ⟨-, -, hexec⟩ := bind_eq_ok.mp hexec
  split at hexec
  · cases hexec
    rw [added_set_index, channel_update]
  · cases hexec
    rw [added_set_index]

theorem added_setEvents {c : χ} {events : EventMask}
    (hexec : p.setEvents chs refused c events = .ok p') (c' : χ) :
    (p'.channel c').addedToLoop_ = if c = c' then true else (p.channel c').addedToLoop_ := by
  rw [added_updateChannel hexec c']
  by_cases heq : c = c'
  · subst heq
    simp [EPollPoller.setChannel]
  · simp [EPollPoller.setChannel, heq, Ne.symm heq]

theorem added_remove {c : χ} (hexec : p.remove chs refused c = .ok p') (c' : χ) :
    (p'.channel c').addedToLoop_ = if c = c' then false else (p.channel c').addedToLoop_ := by
  obtain ⟨-, -, hexec⟩ := bind_eq_ok.mp hexec
  rw [added_removeChannel hexec c']
  by_cases heq : c = c'
  · subst heq
    simp [EPollPoller.setChannel]
  · simp [EPollPoller.setChannel, heq, Ne.symm heq]

theorem added_of_step {a : Answered χ} (hstep : (machine chs).step p a = some p') (c : χ) :
    (p'.channel c).addedToLoop_ = updates c (p.channel c).addedToLoop_ a.call := by
  obtain ⟨-, hexec⟩ := (machine chs).step_eq_some_iff.mp hstep
  obtain ⟨call, refused⟩ := a
  cases call with
  | remove c' => exact added_remove hexec c
  | _ => exact added_setEvents hexec c

/-- `addedToLoop_` says what the owner has done, whatever the kernel has answered. -/
theorem removable_iff {calls : List (Answered χ)} (hrun : (machine chs).run .start calls = some p)
    (c : χ) (refused : Bool) :
    (machine chs).guard p ⟨.remove c, refused⟩ = true ↔
      (calls.map Answered.call).foldl (updates c) false = true ∧
        (p.channel c).events_ = kNoneEvent := by
  have hadded : (p.channel c).addedToLoop_ =
      (calls.map Answered.call).foldl (updates c) false := by
    let Told (p : EPollPoller χ) (updated : Bool) : Prop := (p.channel c).addedToLoop_ = updated
    have htold : ∀ {p a p'} {updated : Bool}, True → Told p updated →
        (machine chs).step p a = some p' → Told p' (updates c updated a.call) := by
      intro p a p' updated _ hupdated hstep
      exact (added_of_step hstep c).trans (by rw [hupdated])
    rw [List.foldl_map]
    exact @Machine.run_tracks _ _ _ (machine chs) Bool (fun _ => True) Told
      (fun updated a => updates c updated a.call) (fun _ _ => trivial) htold _ _ _ _ trivial rfl
      hrun
  simp [machine, hadded, Channel.isNoneEvent]

/-! ## Runs -/

/-- The three records of a channel say the same. -/
structure Agrees (chs : Channels χ) (p : EPollPoller χ) (c : χ) : Prop where
  listed : p.channels_ (chs.fd c) = some c ↔ (p.channel c).index_ ≠ kNew
  watched : (p.epoll (chs.fd c)).isSome ↔ (p.channel c).index_ = kAdded
  mask : ∀ event, p.epoll (chs.fd c) = some event →
    event.events = (p.channel c).events_ ∧ event.ptr = c

/-- The records agree for every channel, no `epoll_ctl` has met a descriptor that was there or was
not, and no call that its owner may make next stops at an assertion. -/
structure Matches (chs : Channels χ) (p : EPollPoller χ) : Prop where
  agrees : ∀ c, Agrees chs p c
  failed : p.failed = []
  safe : (machine chs).Safe p

omit [DecidableEq χ] in
theorem agrees_of_shows (h : p.Shows chs seats) (c : χ) : Agrees chs p c := by
  cases hstatus : (seats c).status with
  | unknown =>
      obtain ⟨hindex, hlisted, hwatched⟩ := h.isUnknown hstatus
      constructor <;> simp [hindex, hlisted, hwatched, kNew, kAdded]
  | idle =>
      obtain ⟨hindex, hlisted, hwatched⟩ := h.isIdle hstatus
      constructor <;> simp [hindex, hlisted, hwatched, kNew, kAdded, kDeleted]
  | watched =>
      obtain ⟨hindex, hlisted, hwatched⟩ := h.isWatched hstatus
      constructor <;> simp [hindex, hlisted, hwatched, kNew, kAdded]

theorem matches_of_shows (h : p.Shows chs seats) : Matches chs p :=
  ⟨agrees_of_shows h, h.failed, fun _ hguard => ⟨_, exec_eq h hguard⟩⟩

omit [DecidableEq χ] in
theorem Agrees.watched_eq {c : χ} {seat : Seat} (h : Agrees chs p c)
    (hchannel : p.channel c = seat.channel) : p.epoll (chs.fd c) = seat.watched c := by
  have hwatched := h.watched
  have hmask := h.mask
  rw [hchannel] at hwatched hmask
  cases hepoll : p.epoll (chs.fd c) with
  | none =>
      rw [hepoll] at hwatched
      cases hstatus : seat.status <;>
        simp_all [Seat.channel, Seat.index, Seat.watched]
  | some event =>
      obtain ⟨hevents, hptr⟩ := hmask event hepoll
      rw [hepoll] at hwatched
      cases hstatus : seat.status <;>
        simp_all [Seat.channel, Seat.index, Seat.watched, kNew, kAdded, kDeleted]
      rw [← hevents, ← hptr]

/-- The poller goes on whatever the kernel answers, so a refusal that matters sets the kernel's
record apart. -/
theorem step_matches_iff (h : p.Shows chs seats) {a : Answered χ}
    (hstep : (machine chs).step p a = some p') : Matches chs p' ↔ Kept chs p a := by
  constructor
  · intro hmatches
    obtain ⟨hguard, hexec⟩ := (machine chs).step_eq_some_iff.mp hstep
    rw [exec_eq h hguard] at hexec
    cases hexec
    rw [kept_iff h, ← EPollPoller.put_watched_iff]
    exact (hmatches.agrees _).watched_eq (Function.update_self _ _ _)
  · intro hkept
    exact matches_of_shows (step_shows h hkept hstep)

/-- In every run: the poller starts with its records in agreement, and they agree after each call if
and only if the kernel refuses nothing that it would have changed. -/
theorem states_match_iff (chs : Channels χ) {calls : List (Answered χ)}
    (hrun : (machine chs).run .start calls = some p) :
    Matches chs .start ∧
      ((machine chs).Always (fun _ _ p' => Matches chs p') .start calls ↔
        (machine chs).Meets (Kept chs) .start calls) := by
  have hexact : ∀ {p a p'}, (∃ seats, p.Shows chs seats) → (machine chs).step p a = some p' →
      (Matches chs p' ↔ Kept chs p a) :=
    fun ⟨_, h⟩ hstep => step_matches_iff h hstep
  have hshows : ∀ {p a p'}, (∃ seats, p.Shows chs seats) → Kept chs p a →
      (machine chs).step p a = some p' → ∃ seats, p'.Shows chs seats :=
    fun ⟨_, h⟩ hkept hstep => ⟨_, step_shows h hkept hstep⟩
  exact ⟨matches_of_shows EPollPoller.start_shows,
    Machine.always_iff_meets_of_run hexact hshows ⟨_, EPollPoller.start_shows⟩ hrun⟩

def twoChannels : Channels Bool := ⟨fun c => if c then 5 else 7, by decide⟩

/-- One is added, dropped and watched again, the other added with nothing to watch for; the kernel
refuses what it has already. -/
def twoCalls : List (Answered Bool) :=
  [⟨.enableReading true, false⟩, ⟨.enableReading true, true⟩, ⟨.disableReading false, false⟩,
    ⟨.disableAll true, false⟩, ⟨.enableWriting true, false⟩, ⟨.disableWriting true, false⟩,
    ⟨.remove true, false⟩, ⟨.remove false, false⟩]

theorem states_match_iff_two :
    (machine twoChannels).Always (fun _ _ p' => Matches twoChannels p') .start twoCalls := by
  have hsome : ((machine twoChannels).run .start twoCalls).isSome = true := by rfl
  have hkept : (machine twoChannels).Meets (Kept twoChannels) .start twoCalls := by decide +kernel
  obtain ⟨p, hrun⟩ := Option.isSome_iff_exists.mp hsome
  exact (states_match_iff twoChannels hrun).2.mpr hkept

/-- The first call adds a descriptor that the kernel does not take, that of a regular file, say. -/
theorem states_match_refused :
    ∃ p, (machine twoChannels).run .start [⟨.enableReading true, true⟩] = some p ∧
      ¬ Agrees twoChannels p true := by
  refine ⟨_, rfl, fun h => ?_⟩
  have hwatched := h.watched
  revert hwatched
  decide

end Call

end Qslary.Poller

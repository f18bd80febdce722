import Qslary.Timers.Firing
import Qslary.Timers.Timerfd

/-!
# Callbacks that throw

Nothing in `handleRead` catches: an exception of a callback leaves it in the middle of
the loop, `FiberRun` swallows it, and the batch is a local that is lost.  `throws` says
which timers, by sequence number, have a callback that throws.  Such a callback may add
and cancel timers before it does.
-/

namespace Qslary.Timers

open Qslary.Foundation

variable {C D : Type} [Seconds D]

/-- The entry whose callback is running. -/
def Batch.running (b : Batch) : Option Entry :=
  (b.expired.take (b.expired.length - b.rest.length)).getLast?

/-- A callback that is going to throw is running. -/
def System.throwing (throws : Nat → Bool) (s : System C D) : Bool :=
  match s.batch.bind Batch.running with
  | none => false
  | some entry =>
      match s.manger.heap entry.second with
      | none => false
      | some timer => throws timer.sequence

inductive ThrowingAction (C D : Type) where
  | clocked (action : ClockedAction C D)
  | throw

namespace ThrowingAction

/-- The loop goes on or ends: the callback before has returned. -/
def returns : ClockedAction C D → Bool
  | .timer (.call _) _ => true
  | .timer .finish _ => true
  | _ => false

/-- A step of `handleRead` between its first and its last. -/
def isInner : ThrowingAction C D → Bool
  | .clocked (.timer .finish _) => false
  | .throw => false
  | _ => true

def action? : ThrowingAction C D → Option (Action C D)
  | .clocked (.timer action _) => some action
  | _ => none

end ThrowingAction

namespace Clocked

def throwGuard (throws : Nat → Bool) (s : Clocked C D) : ThrowingAction C D → Bool
  | .clocked a => s.guard a && (!ThrowingAction.returns a || !s.system.throwing throws)
  | .throw => s.system.throwing throws

/-- Unwinding `handleRead` drops its locals and runs no other code of it. -/
def throwExec (s : Clocked C D) : ThrowingAction C D → Except (Option Fault) (Clocked C D)
  | .clocked a => s.exec a
  | .throw => .ok { s with system := { s.system with batch := none } }

end Clocked

def throwingMachine (C D : Type) [Seconds D] (throws : Nat → Bool) :
    Machine (Clocked C D) (ThrowingAction C D) (Option Fault) where
  guard := Clocked.throwGuard throws
  exec := Clocked.throwExec

/--
What a `handleRead` at `now` leaves behind.  `cancelled` are the timers its callbacks
cancelled.
-/
structure Restored (s s' : Clocked C D) (now : Timestamp) (cancelled : TimerId → Prop) :
    Prop where
  calling_eq : s'.system.manger.callingExpiredTimers = false
  recurring_back : ∀ p timer, s.system.manger.heap p = some timer → timer.expiration ≤ now →
    timer.recurring = true → ¬ cancelled ⟨p, timer.sequence⟩ →
      s'.system.manger.heap p = some { timer with expiration := addTime now timer.interval } ∧
      (⟨addTime now timer.interval, p⟩ : Entry) ∈ s'.system.manger.timers ∧
      (⟨p, timer.sequence⟩ : ActiveTimer) ∈ s'.system.manger.activeTimers
  oneShot_gone : ∀ p timer, s.system.manger.heap p = some timer → timer.expiration ≤ now →
    timer.recurring = false → ∀ q other, s'.system.manger.heap q = some other →
      other.sequence ≠ timer.sequence
  armed : s'.system.manger.timers.front? ≠ none → s'.timerfd ≠ .idle

/-! ## The same run without the exception -/

section Steps

variable {throws : Nat → Bool} {s s' : Clocked C D}

theorem clocked_of_throwing {a : ClockedAction C D}
    (hstep : (throwingMachine C D throws).step s (.clocked a) = some s') :
    (clockedMachine C D).step s a = some s' ∧
      (ThrowingAction.returns a = true → s.system.throwing throws = false) := by
  obtain ⟨hguard, hexec⟩ := (Machine.step_eq_some_iff _).mp hstep
  simp only [throwingMachine, Clocked.throwGuard, Bool.and_eq_true] at hguard
  refine ⟨(Machine.step_eq_some_iff _).mpr ⟨hguard.1, hexec⟩, fun hreturns => ?_⟩
  simpa [hreturns] using hguard.2

theorem system_of_clocked {action : Action C D} {t : Timestamp} (h : s.system.Inv)
    (hstep : (clockedMachine C D).step s (.timer action t) = some s') :
    (machine C D).step s.system action = some s'.system := by
  obtain ⟨hguard, hexec⟩ := (Machine.step_eq_some_iff _).mp hstep
  simp only [clockedMachine, Clocked.guard, Bool.and_eq_true] at hguard
  obtain ⟨next, armed, hperform, -⟩ := System.perform_moves h hguard.1
  have hnext : next = s'.system := by
    simp only [clockedMachine, Clocked.exec, hperform, bind, Except.bind] at hexec
    cases hread : Clocked.isHandleRead action with
    | false =>
        rw [hread] at hexec
        cases hexec
        rfl
    | true =>
        rw [hread] at hexec
        cases hfd : s.timerfd.readTimerfd with
        | none => rw [hfd] at hexec; cases hexec
        | some fd => rw [hfd] at hexec; cases hexec; rfl
  refine (Machine.step_eq_some_iff _).mpr ⟨hguard.1, ?_⟩
  change (s.system.perform action).map Prod.fst = _
  rw [hperform, ← hnext]
  rfl

end Steps

section Batches

variable {throws : Nat → Bool} {s t t' : Clocked C D} {now : Timestamp} {ran rest : List Entry}

/-- A batch in progress: every callback it has run returned, except perhaps the last. -/
structure Unwinding (throws : Nat → Bool) (s t : Clocked C D) (now : Timestamp)
    (ran rest : List Entry) : Prop where
  inv : t.Inv
  inBatch : System.InBatch s.system t.system now ran rest
  returned : ∀ e ∈ ran.dropLast, ∀ timer, s.system.manger.heap e.second = some timer →
    throws timer.sequence = false

omit [Seconds D] in
theorem throwing_iff (hin : System.InBatch s.system t.system now ran rest) :
    t.system.throwing throws = true ↔ ∃ e timer, ran.getLast? = some e ∧
      s.system.manger.heap e.second = some timer ∧ throws timer.sequence = true := by
  have hrunning : t.system.batch.bind Batch.running = ran.getLast? := by
    rw [hin.batch_eq]
    simp [Batch.running]
  unfold System.throwing
  rw [hrunning]
  cases hlast : ran.getLast? with
  | none => simp
  | some e =>
      have hmem : e ∈ ran ++ rest := List.mem_append_left _ (List.mem_of_getLast? hlast)
      simp only [hin.heap_eq e hmem, Option.some.injEq, exists_and_left, exists_eq_left']
      cases s.system.manger.heap e.second <;> simp

theorem Unwinding.all_returned (h : Unwinding throws s t now ran rest)
    (hnot : t.system.throwing throws = false) :
    ∀ e ∈ ran, ∀ timer, s.system.manger.heap e.second = some timer →
      throws timer.sequence = false := by
  intro e he timer halloc
  rcases List.eq_nil_or_concat' ran with rfl | ⟨before, last, rfl⟩
  · cases he
  · rcases List.mem_append.mp he with he | he
    · exact h.returned e (by simpa using he) timer halloc
    · obtain rfl : e = last := by simpa using he
      cases hthrows : throws timer.sequence with
      | false => rfl
      | true =>
          have hthrowing := (throwing_iff h.inBatch).mpr ⟨e, timer, by simp, halloc, hthrows⟩
          exact absurd (hthrowing.symm.trans hnot) nofun

theorem Unwinding.of_expire (h : Unwinding throws s t now ran rest)
    (hstep : (clockedMachine C D).step t .expire = some t') :
    Unwinding throws s t' now ran rest := by
  have hinv := h.inv.of_step (a := .expire) trivial hstep
  obtain ⟨-, hexec⟩ := (Machine.step_eq_some_iff _).mp hstep
  cases hexec
  exact ⟨hinv, h.inBatch, h.returned⟩

theorem Unwinding.of_timer (h : Unwinding throws s t now ran rest) {action : Action C D}
    {time : Timestamp} (hfinish : action ≠ .finish)
    (hstep : (throwingMachine C D throws).step t (.clocked (.timer action time)) = some t') :
    ∃ ran' rest', ran ++ rest = ran' ++ rest' ∧ Unwinding throws s t' now ran' rest' := by
  obtain ⟨hclocked, hreturns⟩ := clocked_of_throwing hstep
  obtain ⟨fd, armed, hmove, -, -⟩ := Clocked.moves_of_step h.inv hclocked
  obtain ⟨system', timerfd'⟩ := t'
  simp only at hmove
  have hpos : Clocked.ReadsPositive (.timer action time) := by
    cases hmove with
    | handleRead now' hbatch => rw [h.inBatch.batch_eq] at hbatch; cases hbatch
    | _ => trivial
  have hinv := h.inv.of_step hpos hclocked
  obtain ⟨ran', rest', hsplit, hin⟩ := h.inBatch.of_moves h.inv.inv hmove hfinish
  refine ⟨ran', rest', hsplit, hinv, hin, ?_⟩
  have hsame : system'.batch = t.system.batch → ran' = ran := by
    intro hbatch
    rw [hin.batch_eq, h.inBatch.batch_eq] at hbatch
    obtain rfl : rest' = rest := congrArg Batch.rest (Option.some.inj hbatch)
    exact (List.append_cancel_right hsplit).symm
  cases hmove with
  | call now' expired entry rest₁ timer hbatch halloc =>
      have hrest' : rest' = rest₁ := congrArg Batch.rest (Option.some.inj (hin.batch_eq.symm))
      rw [h.inBatch.batch_eq] at hbatch
      obtain ⟨-, -, hrest⟩ := Batch.mk.inj (Option.some.inj hbatch)
      rw [hrest, ← hrest', ← List.singleton_append, ← List.append_assoc] at hsplit
      obtain rfl := List.append_cancel_right hsplit
      intro e he
      exact h.all_returned (hreturns rfl) e (by simpa using he)
  | finish => exact absurd rfl hfinish
  | handleRead now' hbatch => rw [h.inBatch.batch_eq] at hbatch; cases hbatch
  | addTimer | cancelActive | cancelInBatch | cancelNothing => exact hsame rfl ▸ h.returned

theorem Unwinding.of_run (h : Unwinding throws s t now ran rest)
    {body : List (ThrowingAction C D)} (hbody : ∀ a ∈ body, a.isInner = true)
    (hrun : (throwingMachine C D throws).run t body = some t') :
    ∃ ran' rest', ran ++ rest = ran' ++ rest' ∧ Unwinding throws s t' now ran' rest' := by
  induction body generalizing t ran rest with
  | nil =>
      cases hrun
      exact ⟨ran, rest, rfl, h⟩
  | cons a body ih =>
      obtain ⟨mid, hstep, hrest⟩ := (Machine.run_cons_iff _).mp hrun
      have hinner := hbody a List.mem_cons_self
      have hstepped : ∃ ran' rest', ran ++ rest = ran' ++ rest' ∧
          Unwinding throws s mid now ran' rest' := by
        match a, hinner with
        | .clocked .expire, _ =>
            exact ⟨ran, rest, rfl, h.of_expire (clocked_of_throwing hstep).1⟩
        | .clocked (.timer action time), hinner =>
            refine h.of_timer ?_ hstep
            rintro rfl
            cases hinner
      obtain ⟨ran₁, rest₁, hsplit, h₁⟩ := hstepped
      obtain ⟨ran₂, rest₂, hsplit₂, h₂⟩ :=
        ih h₁ (fun b hb => hbody b (List.mem_cons_of_mem a hb)) hrest
      exact ⟨ran₂, rest₂, hsplit.trans hsplit₂, h₂⟩

/-! ## The end of the batch -/

theorem system_run_of_throwing (h : t.system.Inv) {body : List (ThrowingAction C D)}
    (hbody : ∀ a ∈ body, a.isInner = true)
    (hrun : (throwingMachine C D throws).run t body = some t') :
    (machine C D).run t.system (body.filterMap ThrowingAction.action?) = some t'.system := by
  induction body generalizing t with
  | nil =>
      cases hrun
      rfl
  | cons a body ih =>
      obtain ⟨mid, hstep, hrest⟩ := (Machine.run_cons_iff _).mp hrun
      have hinner := hbody a List.mem_cons_self
      have htail := fun b hb => hbody b (List.mem_cons_of_mem a hb)
      match a, hinner with
      | .clocked .expire, _ =>
          obtain ⟨-, hexec⟩ := (Machine.step_eq_some_iff _).mp hstep
          cases hexec
          exact ih (t := { t with timerfd := .expired }) h htail hrest
      | .clocked (.timer action time), _ =>
          have hsystem := system_of_clocked h (clocked_of_throwing hstep).1
          refine (Machine.run_cons_iff _).mpr ⟨mid.system, hsystem, ?_⟩
          exact ih (h.of_step hsystem) htail hrest

omit [Seconds D] in
theorem finish_not_mem {body : List (ThrowingAction C D)}
    (hbody : ∀ a ∈ body, a.isInner = true) :
    Action.finish ∉ body.filterMap ThrowingAction.action? := by
  intro hmem
  obtain ⟨a, ha, haction⟩ := List.mem_filterMap.mp hmem
  have hinner := hbody a ha
  match a, haction with
  | .clocked (.timer action time), haction =>
      cases haction
      cases hinner

theorem restored_of_finish (h : s.system.Inv) (h' : t'.Inv) (hidle : t'.system.batch = none)
    {body : List (Action C D)} (hbody : Action.finish ∉ body)
    (hrun : (machine C D).run s.system (System.handleReadActions now body) = some t'.system) :
    Restored s t' now (fun id => Action.cancel id ∈ body) where
  calling_eq := by
    rw [h'.inv.calling_eq, hidle]
    rfl
  recurring_back p timer halloc hle hrecurring hcancel :=
    System.recurring_of_handleRead h hbody hrun halloc hle hrecurring hcancel
  oneShot_gone p timer halloc hle honeshot :=
    System.oneShot_of_handleRead h hbody hrun halloc hle honeshot
  armed := by
    intro hfront hfd
    obtain ⟨e, he⟩ := Option.ne_none_iff_exists'.mp hfront
    rcases h'.covers e he (Or.inl hidle) with hexpired | ⟨deadline, armedAt, harmed, -⟩
    · exact absurd (hfd.symm.trans hexpired) nofun
    · exact absurd (hfd.symm.trans harmed) nofun

theorem Unwinding.of_handleRead (h : s.Inv) {time : Timestamp} (hnow : 0 < now)
    (hstep : (clockedMachine C D).step s (.timer (.handleRead now) time) = some t) :
    Unwinding throws s t now [] (s.system.manger.expired now) ∧ s.system.batch = none := by
  have hinv : t.Inv := h.of_step (a := .timer (.handleRead now) time) hnow hstep
  obtain ⟨fd, armed, hmove, -, -⟩ := Clocked.moves_of_step h hstep
  obtain ⟨system, timerfd⟩ := t
  simp only at hmove
  cases hmove with
  | handleRead _ hbatch =>
      exact ⟨⟨hinv, ⟨rfl, by simp [System.callsOf], fun e _ => rfl⟩, by simp⟩, hbatch⟩

end Batches

/--
A `handleRead` leaves the manager in order exactly if the callback of no expired timer
throws.  After an exception `callingExpiredTimers_` stays set, and the batch is neither
put back nor deleted.
-/
theorem handleRead_restores_iff (throws : Nat → Bool) (acts : List (ClockedAction C D))
    (s : Clocked C D) (hclock : ∀ a ∈ acts, Clocked.ReadsPositive a)
    (hrun : (clockedMachine C D).run .initial acts = some s)
    (now time : Timestamp) (hnow : 0 < now) (body : List (ThrowingAction C D))
    (hbody : ∀ a ∈ body, a.isInner = true) (last : ThrowingAction C D)
    (hlast : last.isInner = false) (s' : Clocked C D)
    (hread : (throwingMachine C D throws).run s
      (.clocked (.timer (.handleRead now) time) :: (body ++ [last])) = some s') :
    Restored s s' now (fun id => Action.cancel id ∈ body.filterMap ThrowingAction.action?) ↔
      ∀ p timer, s.system.manger.heap p = some timer → timer.expiration ≤ now →
        throws timer.sequence = false := by
  have hmeets : (clockedMachine C D).Meets (fun _ a => Clocked.ReadsPositive a) .initial acts :=
    Machine.meets_of_forall fun _ a ha => hclock a ha
  have hinv : s.Inv := Machine.invariant_of_meets Clocked.Inv.of_step Clocked.initial_inv
    hmeets hrun
  obtain ⟨started, hstart, hrest⟩ := (Machine.run_cons_iff _).mp hread
  obtain ⟨mid, hmid, hend⟩ := (Machine.run_append_iff _).mp hrest
  have hend := (Machine.run_single_iff _).mp hend
  have hstart := (clocked_of_throwing hstart).1
  obtain ⟨hunwinding, hidle⟩ : Unwinding throws _ started now [] _ ∧ _ :=
    Unwinding.of_handleRead hinv hnow hstart
  have hwf := hinv.inv.wf_idle hidle
  obtain ⟨ran, rest, hsplit, hunwinding⟩ := hunwinding.of_run hbody hmid
  rw [List.nil_append] at hsplit
  match last, hlast with
  | .throw, _ =>
      obtain ⟨hguard, hexec⟩ := (Machine.step_eq_some_iff _).mp hend
      cases hexec
      obtain ⟨e, timer, hgetLast, halloc, hthrows⟩ := (throwing_iff hunwinding.inBatch).mp hguard
      constructor
      · intro hrestored
        have hcalling := hunwinding.inv.inv.calling_eq
        rw [hunwinding.inBatch.batch_eq] at hcalling
        exact absurd (hcalling.symm.trans hrestored.calling_eq) nofun
      · intro hnone
        have hmem : e ∈ s.system.manger.expired now := by
          rw [hsplit]
          exact List.mem_append_left _ (List.mem_of_getLast? hgetLast)
        obtain ⟨hin, hle⟩ := (TimerManger.mem_expired_iff hwf now e).mp hmem
        obtain ⟨other, hother, hexp, -⟩ := (hwf.mem_timers e).mp hin
        rw [halloc] at hother
        cases hother
        exact absurd (hthrows.symm.trans (hnone _ _ halloc (hexp ▸ hle))) nofun
  | .clocked (.timer .finish time'), _ =>
      obtain ⟨hclocked, hreturned⟩ := clocked_of_throwing hend
      have hsystem := system_of_clocked hunwinding.inv.inv hclocked
      have hinv' : s'.Inv := hunwinding.inv.of_step (a := .timer .finish time') trivial hclocked
      have hidle' : s'.system.batch = none := by
        obtain ⟨armed, -, hmove⟩ := System.moves_of_step hunwinding.inv.inv hsystem
        generalize s'.system = system at hmove
        cases hmove with
        | finish => rfl
      have hempty : rest = [] := by
        obtain ⟨now', expired, hbatch⟩ :=
          System.guard_finish ((Machine.step_eq_some_iff _).mp hsystem).1
        rw [hunwinding.inBatch.batch_eq] at hbatch
        exact congrArg Batch.rest (Option.some.inj hbatch)
      have hrunSystem : (machine C D).run s.system (System.handleReadActions now
          (body.filterMap ThrowingAction.action?)) = some s'.system := by
        have hfirst := system_of_clocked hinv.inv hstart
        refine (Machine.run_cons_iff _).mpr ⟨_, hfirst, ?_⟩
        refine (Machine.run_append_iff _).mpr ⟨mid.system, ?_, ?_⟩
        · exact system_run_of_throwing (hinv.inv.of_step hfirst) hbody hmid
        · exact (Machine.run_single_iff _).mpr hsystem
      refine iff_of_true ?_ ?_
      · exact restored_of_finish hinv.inv hinv' hidle' (finish_not_mem hbody) hrunSystem
      · intro p timer halloc hle
        have hactive := (System.follows_waiting hinv.inv hidle halloc).1.2.2
        have hmem := (TimerManger.mem_expired_iff hwf now ⟨timer.expiration, p⟩).mpr
          ⟨hwf.mem_timers_of_active halloc hactive, hle⟩
        rw [hsplit, hempty, List.append_nil] at hmem
        exact hunwinding.all_returned (hreturned rfl) _ hmem timer halloc

/-- A timer that recurs every second and a one-shot timer, both due at the first expiry. -/
def dueTogether : List (ClockedAction Unit ℚ) :=
  [.timer (.runEvery 16 100 1 ()) 100, .timer (.runAt 32 900000 ()) 200, .expire]

def thrownBatch : List (ThrowingAction Unit ℚ) :=
  [ .clocked (.timer (.handleRead 1000200) 1000200)
  , .clocked (.timer (.call 2) 1000200)
  , .throw ]

theorem handleRead_restores_sample :
    ∃ s s', (clockedMachine Unit ℚ).run .initial dueTogether = some s ∧
      (throwingMachine Unit ℚ (fun _ => false)).run s
        (.clocked (.timer (.handleRead 1000200) 1000200) ::
          ([.clocked (.timer (.call 2) 1000200), .clocked (.timer (.call 1) 1000200)] ++
            [.clocked (.timer .finish 1000300)])) = some s' ∧
      s'.system.manger.callingExpiredTimers = false := by
  have hrun : (((clockedMachine Unit ℚ).run .initial dueTogether).bind fun s =>
      ((throwingMachine Unit ℚ (fun _ => false)).run s
        (.clocked (.timer (.handleRead 1000200) 1000200) ::
          ([.clocked (.timer (.call 2) 1000200), .clocked (.timer (.call 1) 1000200)] ++
            [.clocked (.timer .finish 1000300)]))).map fun _ => true) = some true := by decide
  obtain ⟨s, hs, hrest⟩ := Option.bind_eq_some_iff.mp hrun
  obtain ⟨s', hs', -⟩ := Option.map_eq_some_iff.mp hrest
  have hrestored := handleRead_restores_iff (fun _ => false) dueTogether s
    (by simp [dueTogether, Clocked.ReadsPositive, Action.runEvery, Action.runAt]) hs 1000200
    1000200 (by decide) _ (by simp [ThrowingAction.isInner]) _ (by rfl) s' hs'
  exact ⟨s, s', hs, hs', (hrestored.mpr fun _ _ _ _ => rfl).calling_eq⟩

/-- The one-shot timer comes first and throws: the recurring one is in neither set. -/
theorem handleRead_restores_fails :
    ∃ s s', (clockedMachine Unit ℚ).run .initial dueTogether = some s ∧
      (throwingMachine Unit ℚ (fun sequence => sequence == 2)).run s thrownBatch = some s' ∧
      s.system.manger.heap 16 = some (Timer.new () 1000100 1 1) ∧
      s'.system.manger.callingExpiredTimers = true ∧
      (⟨16, 1⟩ : ActiveTimer) ∉ s'.system.manger.activeTimers ∧
      ¬ Restored s s' 1000200 (fun _ => False) := by
  have hrun : (((clockedMachine Unit ℚ).run .initial dueTogether).bind fun s =>
      ((throwingMachine Unit ℚ (fun sequence => sequence == 2)).run s thrownBatch).map
        fun s' => (s.system.manger.heap 16, s'.system.manger.callingExpiredTimers,
          decide ((⟨16, 1⟩ : ActiveTimer) ∉ s'.system.manger.activeTimers))) =
      some (some (Timer.new () 1000100 1 1), true, true) := by decide
  obtain ⟨s, hs, hrest⟩ := Option.bind_eq_some_iff.mp hrun
  obtain ⟨s', hs', heq⟩ := Option.map_eq_some_iff.mp hrest
  simp only [Prod.mk.injEq, decide_eq_true_eq] at heq
  refine ⟨s, s', hs, hs', heq.1, heq.2.1, heq.2.2, fun hrestored => ?_⟩
  exact absurd (heq.2.1.symm.trans hrestored.calling_eq) nofun

end Qslary.Timers

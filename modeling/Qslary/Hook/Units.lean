import Mathlib.Algebra.Order.Field.Rat
import Mathlib.Tactic.FieldSimp
import Mathlib.Tactic.Ring
import Qslary.Hook.Retrying
import Qslary.Timers.Model

/-!
# The units of the hooked waits

`runAfter` takes seconds.  `sleep` and `connect_with_timeout` give it seconds; `usleep`
gives it milliseconds, and `nanaosleep` and `do_io` a number of seconds or of milliseconds
as it stands.

The `double`s on the way to an expiry are taken as the rationals that they stand for: the
delay that `runAfter` is given, what `addTime` makes of it, and the hook's own quotient
`(double)timeout_ms / 1000`, which need not be a `double`.
-/

namespace Qslary.Hook

open Qslary.Descriptors (FdContext Fd SO_RCVTIMEO)
open Qslary.Timers (Timestamp Seconds addTime)

inductive Fault where
  /-- `static_cast<int64_t>` of a `double` that does not fit -/
  | castRange
  | overflow
  deriving DecidableEq, Repr

def fitsInt64 (n : Int) : Bool := -2 ^ 63 ≤ n ∧ n < 2 ^ 63

/-- `addTime(now, delay)` with its range checks. -/
def expiration (now : Timestamp) (delay : ℚ) : Except Fault Timestamp :=
  if !fitsInt64 (Seconds.toMicros delay) then .error .castRange
  else if !fitsInt64 (addTime now delay) then .error .overflow
  else .ok (addTime now delay)

/-- A delay that is a whole number of microseconds is taken for that number. -/
theorem toMicros_eq {delay : ℚ} {micros : Int} (h : delay * 1000000 = micros) :
    Seconds.toMicros delay = micros := by
  have hden : (delay.den : ℚ) ≠ 0 := Nat.cast_ne_zero.mpr delay.den_nz
  have hnum : (delay.num : ℚ) * 1000000 = micros * delay.den := by
    rw [← h]
    nth_rewrite 2 [← Rat.num_div_den delay]
    field_simp
  have hint : delay.num * Timestamp.kMicroSecondsPerSecond = micros * delay.den := by
    exact_mod_cast hnum
  show (delay.num * Timestamp.kMicroSecondsPerSecond).tdiv delay.den = micros
  rw [hint, Int.mul_tdiv_cancel _ (Int.natCast_ne_zero.mpr delay.den_nz)]

theorem expiration_eq_iff {delay : ℚ} {micros : Int} (h : delay * 1000000 = micros)
    (now requested : Nat) :
    expiration now delay = .ok (now + requested : Int) ↔
      micros = requested ∧ now + requested < 2 ^ 63 := by
  have hadd : addTime (now : Int) delay = now + micros := by rw [addTime, toMicros_eq h]
  unfold expiration
  rw [hadd, toMicros_eq h]
  constructor
  · intro hok
    split at hok
    · cases hok
    split at hok
    · cases hok
    rename_i hfits
    simp only [fitsInt64, Bool.not_eq_true, Bool.not_eq_false', decide_eq_true_eq] at hfits
    have hsum : (now : Int) + micros = now + requested := Except.ok.inj hok
    omega
  · rintro ⟨rfl, hlt⟩
    have hdelta : fitsInt64 requested = true := by
      unfold fitsInt64
      simp only [decide_eq_true_eq]
      omega
    have hsum : fitsInt64 ((now : Int) + requested) = true := by
      unfold fitsInt64
      simp only [decide_eq_true_eq]
      omega
    rw [hdelta, hsum]
    rfl

/-! ## What is asked for -/

inductive Wait where
  | sleep (seconds : UInt32)
  | usleep (usec : UInt32)
  | nanaosleep (req : Timespec)
  | connect (sockfd : Fd) (timeoutMs : UInt64)
  /-- The timeout that was set, in milliseconds, if any. -/
  | io (fun_ : OriginFun) (fd : Fd) (timeout : Option UInt64)

/-- The duration in microseconds; without one the call waits for ever. -/
def Wait.requested : Wait → Option Nat
  | .sleep seconds => some (seconds.toNat * 1000000)
  | .usleep usec => some usec.toNat
  | .nanaosleep req => some (req.tvSec * 1000000 + req.tvNsec / 1000)
  | .connect _ timeoutMs => some (timeoutMs.toNat * 1000)
  | .io _ _ timeout => timeout.map fun t => t.toNat * 1000

/-- One timer is armed for the duration, or none if there is no duration. -/
def Punctual (now : Nat) (before after : List ArmedTimer) : Option Nat → Prop
  | some micros => ∃ timer, after = before ++ [timer] ∧
      expiration now timer.delay = .ok (now + micros : Int)
  | none => after = before

/-- When the timer that is armed is the one that is asked for; the quotient that `connect` passes on
is not rounded. -/
def Wait.InUnits (now : Nat) : Wait → Prop
  | .sleep seconds => now + seconds.toNat * 1000000 < 2 ^ 63
  | .usleep usec => usec = 0 ∧ now < 2 ^ 63
  | .nanaosleep req => req.tvNsec < 1000 ∧ req.tvSec < 2 ^ 31 ∧
      now + req.tvSec * 1000000 < 2 ^ 63
  | .connect _ timeoutMs => now + timeoutMs.toNat * 1000 < 2 ^ 63
  | .io _ _ (some timeout) => timeout = 0 ∧ now < 2 ^ 63
  | .io _ _ none => False

def OriginFun.setTimeout (fun_ : OriginFun) : Process → Bool → Fd → UInt64 → Process :=
  match fun_.event with
  | .read => Socket.setRecvTimeout
  | .write => Socket.setSendTimeout

def Process.timeout (p : Process) (fd : Fd) (timeoutSo : Nat) : Option UInt64 :=
  (p.context fd).map fun found => found.2.getTimeout timeoutSo

variable {C : Type}

/-- A hooked call that comes to wait in the thread `t`. -/
inductive Waits (t : Thread C) : Wait → Coroutine (Thread C) → Prop
  | sleep {seconds} (hhook : t.threadHookEnable = true) (sleep_f) :
      Waits t (.sleep seconds) (t.sleep seconds sleep_f)
  | usleep {usec} (hhook : t.threadHookEnable = true) (usleep_f) :
      Waits t (.usleep usec) (t.usleep usec usleep_f)
  | nanaosleep {req} (hhook : t.threadHookEnable = true) (nanaosleep_f) :
      Waits t (.nanaosleep req) (t.nanaosleep req nanaosleep_f)
  | connect {sockfd timeoutMs fdctx} (h : UserBlocking t sockfd fdctx) (getsockopt_f error) :
      Waits t (.connect sockfd timeoutMs)
        (t.connectWithTimeout sockfd timeoutMs ⟨-1, EINPROGRESS⟩ getsockopt_f error)
  | timed {fun_ fd timeout fdctx answers} (h : UserBlocking t fd fdctx)
      (hagain : answers.uninterrupted.failed EAGAIN = true) (hlt : timeout.toNat < 2 ^ 31 * 1000)
      (hset : ∃ earlier : Process, (earlier.context fd).isSome ∧
        t.process.timeout fd fun_.timeoutSo =
          (fun_.setTimeout earlier true fd timeout).timeout fd fun_.timeoutSo) :
      Waits t (.io fun_ fd (some timeout)) (t.doIo fd fun_ answers)
  | untimed {fun_ fd fdctx answers} (h : UserBlocking t fd fdctx)
      (hagain : answers.uninterrupted.failed EAGAIN = true)
      (hdefault : ∃ kernel, fdctx.getTimeout fun_.timeoutSo =
        (FdContext.new fd.val kernel).1.getTimeout fun_.timeoutSo) :
      Waits t (.io fun_ fd none) (t.doIo fd fun_ answers)

/-! ## The delays -/

section

variable {t : Thread C} {fd : Fd} {fdctx : FdContext}

/-- With a timer armed, the delay decides. -/
theorem punctual_append {delay : ℚ} {micros : Int} (h : delay * 1000000 = micros)
    (before : List ArmedTimer) (timerId : Nat) (cb : TimerCallback) (now requested : Nat) :
    Punctual now before (before ++ [⟨timerId, delay, cb⟩]) (some requested) ↔
      micros = requested ∧ now + requested < 2 ^ 63 := by
  rw [← expiration_eq_iff h]
  constructor
  · rintro ⟨timer, happend, hexpires⟩
    rw [List.append_cancel_left_eq, List.singleton_inj] at happend
    rw [← happend] at hexpires
    exact hexpires
  · intro hexpires
    exact ⟨_, rfl, hexpires⟩

theorem state_sleepFor (t : Thread C) (delay : ℚ) :
    (t.sleepFor delay).state.timers =
      t.timers ++ [⟨t.numCreated + 1, delay, .scheduler t.fiber⟩] := rfl

theorem state_socketError (t : Thread C) (getsockopt_f : Answer) (error : Nat) :
    (t.socketError getsockopt_f error).state.timers = t.timers := by
  unfold Thread.socketError
  split
  · rfl
  split
  · rfl
  · rfl

theorem state_connect (h : UserBlocking t fd fdctx) (timeoutMs : UInt64) (getsockopt_f : Answer)
    (error : Nat) :
    (t.connectWithTimeout fd timeoutMs ⟨-1, EINPROGRESS⟩ getsockopt_f error).state.timers =
      t.timers ++ [⟨t.numCreated + 1, (timeoutMs.toNat : ℚ) / 1000, .cancelAll fd.val⟩] := by
  obtain ⟨c, hcontext⟩ := h.context
  have hfailed : (⟨-1, EINPROGRESS⟩ : Answer).failed EINPROGRESS = true := by decide
  unfold Thread.connectWithTimeout
  simp only [h.hooked, hcontext, h.isOpen, h.isSocket, h.blocking, hfailed]
  exact state_socketError _ getsockopt_f error

theorem state_doIo (h : UserBlocking t fd fdctx) (fun_ : OriginFun) {answers : Answers}
    (hagain : answers.uninterrupted.failed EAGAIN = true) :
    (t.doIo fd fun_ answers).state.timers =
      t.timers ++ [⟨t.numCreated + 1, ((fdctx.getTimeout fun_.timeoutSo).toNat : ℚ),
        .cancelEvent fun_.event fd.val⟩] := by
  rw [doIo_eq h, if_pos hagain]
  rfl

/-! ## The timeout of a socket -/

theorem toInt_eq {n : Nat} (h : n < 2 ^ 31) : toInt n = n := by
  unfold toInt
  rw [Int.bmod_eq_of_le]
  · omega
  · omega

/-- Adding milliseconds to seconds is right when there are none. -/
theorem toInt_mul_eq_iff {sec nsec : Nat} (h : nsec < 1000000000) :
    toInt (sec + nsec / 1000 / 1000) * 1000000 = ((sec * 1000000 + nsec / 1000 : Nat) : Int) ↔
      nsec < 1000 ∧ sec < 2 ^ 31 := by
  constructor
  · intro heq
    have hlt : toInt (sec + nsec / 1000 / 1000) < 2 ^ 31 := by
      unfold toInt
      exact Int.bmod_lt (by decide)
    omega
  · rintro ⟨hnsec, hsec⟩
    have hnone : (nsec : Int) / 1000 / 1000 = 0 := by omega
    rw [hnone, Int.add_zero, toInt_eq hsec]
    omega

/-- A timeout goes through `timeval` and comes back in milliseconds. -/
theorem timeval_millis {val : UInt64} (h : val.toNat < 2 ^ 31 * 1000) :
    UInt64.ofInt ((Socket.timeval val).tvSec * 1000 + (Socket.timeval val).tvUsec.tdiv 1000) =
      val := by
  have hsec : ((val / 1000).toNat) = val.toNat / 1000 := UInt64.toNat_div val 1000
  have husec : (((val % 1000) * 1000).toNat) = val.toNat % 1000 * 1000 := by
    rw [UInt64.toNat_mul, UInt64.toNat_mod]
    apply Nat.mod_eq_of_lt
    have hlt : val.toNat % 1000 < 1000 := Nat.mod_lt _ (by decide)
    show val.toNat % 1000 * 1000 < 2 ^ 64
    omega
  have hsum : ((val.toNat / 1000 : Nat) : Int) * 1000 +
      ((val.toNat % 1000 * 1000 : Nat) : Int).tdiv 1000 = val.toNat := by
    rw [Int.tdiv_eq_ediv_of_nonneg (Int.natCast_nonneg _)]
    omega
  unfold Socket.timeval
  rw [hsec, husec, toInt_eq (by omega), toInt_eq (by omega)]
  show UInt64.ofInt (((val.toNat / 1000 : Nat) : Int) * 1000 +
    ((val.toNat % 1000 * 1000 : Nat) : Int).tdiv 1000) = val
  have hlt := val.toNat_lt
  have hmod : ((val.toNat : Int) % 2 ^ 64).toNat = val.toNat := by omega
  rw [hsum, UInt64.ofInt, hmod, UInt64.ofNat_toNat]

theorem context_store {p : Process} {c : Nat} (h : p.context fd = some (c, fdctx))
    (ctx : FdContext) : (p.store c ctx).context fd = some (c, ctx) := by
  rw [context_eq_some] at h ⊢
  refine ⟨h.1, ?_⟩
  show (p.manager.objects.set c ctx)[c]? = some ctx
  rw [List.getElem?_set_self']
  simp [h.2]

theorem timeout_setsockopt {p : Process} {timeoutSo : Nat}
    (hopt : timeoutSo = SO_RCVTIMEO ∨ timeoutSo = SO_SNDTIMEO) (hcontext : (p.context fd).isSome)
    {val : UInt64} (hval : val.toNat < 2 ^ 31 * 1000) :
    (p.setsockopt true fd SOL_SOCKET timeoutSo (Socket.timeval val)).timeout fd timeoutSo =
      some val := by
  obtain ⟨⟨c, ctx⟩, hctx⟩ := Option.isSome_iff_exists.mp hcontext
  unfold Process.setsockopt
  rw [hctx, timeval_millis hval, if_neg (by decide), if_pos ⟨rfl, hopt⟩, Process.timeout,
    context_store hctx]
  rcases hopt with hrecv | hsend
  · rw [hrecv]
    rfl
  · rw [hsend]
    rfl

theorem timeout_setTimeout {p : Process} (fun_ : OriginFun) (hcontext : (p.context fd).isSome)
    {val : UInt64} (hval : val.toNat < 2 ^ 31 * 1000) :
    (fun_.setTimeout p true fd val).timeout fd fun_.timeoutSo = some val := by
  cases fun_ with
  | accept | read | readv | recv | recvfrom | recvmsg =>
      exact timeout_setsockopt (.inl rfl) hcontext hval
  | write | writev | send | sendto | sendmsg =>
      exact timeout_setsockopt (.inr rfl) hcontext hval

end

/-- For every call that waits, and at any time since the epoch. -/
theorem wait_units_iff {t : Thread C} {wait : Wait} {call : Coroutine (Thread C)}
    (h : Waits t wait call) (now : Nat) :
    Punctual now t.timers call.state.timers wait.requested ↔ wait.InUnits now := by
  cases h with
  | sleep hhook sleep_f =>
      rename_i seconds
      have hmicros : ((seconds.toNat : ℕ) : ℚ) * 1000000 = ((seconds.toNat * 1000000 : Int) : ℚ) := by
        push_cast
        ring
      rw [Thread.sleep, hhook, if_neg (by decide), state_sleepFor, Wait.requested,
        punctual_append hmicros, Wait.InUnits]
      omega
  | usleep hhook usleep_f =>
      rename_i usec
      have hmicros : (usec.toNat : ℚ) / 1000 * 1000000 = ((usec.toNat * 1000 : Int) : ℚ) := by
        push_cast
        ring
      have hzero : usec = 0 ↔ usec.toNat = 0 := UInt32.toNat_inj.symm
      rw [Thread.usleep, hhook, if_neg (by decide), state_sleepFor, Wait.requested,
        punctual_append hmicros, Wait.InUnits, hzero]
      omega
  | nanaosleep hhook nanaosleep_f =>
      rename_i req
      have hmicros : ((toInt (req.tvSec + req.tvNsec / 1000 / 1000) : Int) : ℚ) * 1000000 =
          ((toInt (req.tvSec + req.tvNsec / 1000 / 1000) * 1000000 : Int) : ℚ) := by
        push_cast
        ring
      rw [Thread.nanaosleep, hhook, if_neg (by decide), state_sleepFor, Wait.requested,
        punctual_append hmicros, Wait.InUnits, toInt_mul_eq_iff req.nsec_lt, and_assoc]
      apply and_congr_right
      intro hnsec
      rw [Nat.div_eq_of_lt hnsec, Nat.add_zero]
  | connect h getsockopt_f error =>
      rename_i sockfd timeoutMs fdctx
      have hmicros : (timeoutMs.toNat : ℚ) / 1000 * 1000000 =
          ((timeoutMs.toNat * 1000 : Int) : ℚ) := by
        push_cast
        ring
      rw [state_connect h, Wait.requested, punctual_append hmicros, Wait.InUnits]
      omega
  | timed h hagain hlt hset =>
      rename_i fun_ fd timeout fdctx answers
      obtain ⟨earlier, hearlier, hset⟩ := hset
      obtain ⟨c, hcontext⟩ := h.context
      rw [timeout_setTimeout fun_ hearlier hlt, Process.timeout, hcontext] at hset
      have hmicros : (((fdctx.getTimeout fun_.timeoutSo).toNat : ℕ) : ℚ) * 1000000 =
          ((timeout.toNat * 1000000 : Int) : ℚ) := by
        have htimeout : fdctx.getTimeout fun_.timeoutSo = timeout := Option.some.inj hset
        rw [htimeout]
        push_cast
        ring
      have hzero : timeout = 0 ↔ timeout.toNat = 0 := UInt64.toNat_inj.symm
      rw [state_doIo h _ hagain, Wait.requested, Option.map_some, punctual_append hmicros,
        Wait.InUnits, hzero]
      omega
  | untimed h hagain hdefault =>
      rw [state_doIo h _ hagain]
      simp [Punctual, Wait.requested, Wait.InUnits]

theorem wait_units_sleep :
    Punctual 0 listening.timers (listening.sleep 2 ⟨0, 0⟩).state.timers (some 2000000) ↔
      Wait.InUnits 0 (.sleep 2) :=
  wait_units_iff (.sleep rfl ⟨0, 0⟩) 0

/-- `usleep(1000)` waits a second. -/
theorem usleep_millis :
    ¬ Punctual 0 listening.timers (listening.usleep 1000 ⟨0, 0⟩).state.timers (some 1000) := by
  have hmicros : ((1000 : UInt32).toNat : ℚ) / 1000 * 1000000 = ((1000000 : Int) : ℚ) := by
    have hnat : (1000 : UInt32).toNat = 1000 := rfl
    rw [hnat]
    norm_num
  have hpunctual := punctual_append hmicros [] 1 (.scheduler 7) 0 1000
  show ¬ Punctual 0 [] ([] ++ [⟨1, ((1000 : UInt32).toNat : ℚ) / 1000, .scheduler 7⟩]) (some 1000)
  rw [hpunctual]
  rintro ⟨heq, -⟩
  exact absurd heq (by decide)

end Qslary.Hook

import Qslary.Pool.Model

/-!
# The accounting of the pool

Every object that was made is pooled, lent or deleted, in exactly one of these
places and once; `total_` counts the first two, in 32 bits.
-/

namespace Qslary.Pool

open Qslary.Foundation

/-! ## The search of `conns_` -/

/-- What the two tests of the loop let through. -/
def HttpConnectionPool.usable (pool : HttpConnectionPool) (isConnected : HttpConnection → Bool)
    (nowMs : UInt64) (conn : HttpConnection) : Bool :=
  isConnected conn && decide (pool.deadline conn ≤ nowMs)

section Search

variable (pool : HttpConnectionPool) (isConnected : HttpConnection → Bool) (nowMs : UInt64)

theorem takeConnection_cons_unusable {conn : HttpConnection} (conns : List HttpConnection)
    (h : pool.usable isConnected nowMs conn = false) :
    takeConnection pool isConnected nowMs (conn :: conns) =
      { takeConnection pool isConnected nowMs conns with
        invalid := conn :: (takeConnection pool isConnected nowMs conns).invalid } := by
  simp only [HttpConnectionPool.usable, Bool.and_eq_false_iff, decide_eq_false_iff_not,
    UInt64.not_le] at h
  rcases h with h | h
  · simp [takeConnection, h]
  · simp [takeConnection, h]

theorem takeConnection_cons_usable {conn : HttpConnection} (conns : List HttpConnection)
    (h : pool.usable isConnected nowMs conn = true) :
    takeConnection pool isConnected nowMs (conn :: conns) = ⟨[], some conn, conns⟩ := by
  simp only [HttpConnectionPool.usable, Bool.and_eq_true, decide_eq_true_eq] at h
  simp [takeConnection, h.1, UInt64.not_lt.mpr h.2]

/-- The loop splits `conns_` at the first connection that passes both tests. -/
theorem takeConnection_spec (conns : List HttpConnection) :
    let taken := takeConnection pool isConnected nowMs conns
    conns = taken.invalid ++ taken.ptr.toList ++ taken.rest ∧
      (∀ conn ∈ taken.invalid, pool.usable isConnected nowMs conn = false) ∧
      (∀ conn ∈ taken.ptr, pool.usable isConnected nowMs conn = true) ∧
      (taken.ptr = none → taken.rest = []) := by
  induction conns with
  | nil => simp [takeConnection]
  | cons conn conns ih =>
      cases h : pool.usable isConnected nowMs conn with
      | false =>
          obtain ⟨hsplit, hinvalid, hptr, hrest⟩ := ih
          simp only [takeConnection_cons_unusable pool isConnected nowMs conns h]
          refine ⟨?_, ?_, hptr, hrest⟩
          · simpa using hsplit
          · intro other hother
            rcases List.mem_cons.mp hother with rfl | hother
            · exact h
            · exact hinvalid other hother
      | true =>
          simp only [takeConnection_cons_usable pool isConnected nowMs conns h]
          simp [h]

end Search

/-! ## The places of an object -/

namespace State

/-- The objects that exist, and then those that do not any more. -/
def objects (s : State) : List HttpConnection :=
  s.pool.conns ++ s.lent.map Lease.conn ++ s.deleted

structure Accounted (s : State) : Prop where
  places : (s.objects.map HttpConnection.id).Perm (List.range s.made)
  holders_nodup : (s.lent.map Lease.holder).Nodup
  holders_lt : ∀ lease ∈ s.lent, lease.holder < s.holders
  total_eq : s.pool.total = Int32.ofNat (s.pool.conns.length + s.lent.length)

theorem Accounted.objects_nodup {s : State} (h : s.Accounted) : s.objects.Nodup :=
  List.Pairwise.of_map HttpConnection.id (fun _ _ => mt (congrArg _))
    (h.places.symm.nodup List.nodup_range)

theorem Accounted.id_lt {s : State} {conn : HttpConnection} (h : s.Accounted)
    (hconn : conn ∈ s.objects) : conn.id < s.made :=
  List.mem_range.mp (h.places.subset (List.mem_map_of_mem hconn))

theorem initial_accounted (maxAliveTime : UInt32) : (initial maxAliveTime).Accounted where
  places := by simp [initial, objects, HttpConnectionPool.new]
  holders_nodup := List.nodup_nil
  holders_lt := by simp [initial]
  total_eq := rfl

end State

/-! ## Steps -/

/-- Everything a call can do to the places of the objects. -/
inductive Moves (s : State) (call : Call) : State → Prop
  | reuse (taken : Taken) (conn : HttpConnection) (connecting : Connecting)
      (haction : call.action = .getConnection connecting)
      (htaken : taken =
        takeConnection s.pool call.isConnected (getCurrentMs call.now) s.pool.conns)
      (hptr : taken.ptr = some conn) : Moves s call ((s.prune taken).lend conn)
  | connect (taken : Taken) (connecting : Connecting)
      (haction : call.action = .getConnection connecting)
      (htaken : taken =
        takeConnection s.pool call.isConnected (getCurrentMs call.now) s.pool.conns)
      (hptr : taken.ptr = none) : Moves s call ((s.prune taken).connect connecting)
  | release (lease : Lease) (haction : call.action = .releasePtr lease)
      (hlent : lease ∈ s.lent) : Moves s call (s.releasePtr call.isConnected call.now lease)

variable {s s' : State} {call : Call}

theorem step_moves (hstep : machine.step s call = some s') :
    s.aborted = false ∧ Moves s call s' := by
  obtain ⟨hguard, hexec⟩ := (Machine.step_eq_some_iff _).mp hstep
  obtain rfl : s.perform call = s' := by simpa [machine] using hexec
  obtain ⟨action, now, isConnected⟩ := call
  simp only [machine, State.guard, Bool.and_eq_true, Bool.not_eq_true'] at hguard
  refine ⟨hguard.1, ?_⟩
  cases action with
  | getConnection connecting =>
      simp only [State.perform, State.getConnection]
      cases hptr : (takeConnection s.pool isConnected (getCurrentMs now) s.pool.conns).ptr with
      | some conn => exact .reuse _ conn connecting rfl rfl hptr
      | none => exact .connect _ connecting rfl rfl hptr
  | releasePtr lease => exact .release lease rfl (by simpa using hguard.2)

namespace State

theorem Accounted.of_prune {taken : Taken} (h : s.Accounted)
    (hsplit : s.pool.conns = taken.invalid ++ taken.ptr.toList ++ taken.rest) :
    (((s.prune taken).objects ++ taken.ptr.toList).map HttpConnection.id).Perm
        (List.range s.made) ∧
      (s.prune taken).pool.total =
        Int32.ofNat (taken.ptr.toList.length + taken.rest.length + s.lent.length) := by
  constructor
  · refine List.Perm.trans (List.Perm.map _ ?_) h.places
    simp only [objects, prune, hsplit]
    rw [List.perm_iff_count]
    intro conn
    simp only [List.count_append]
    omega
  · simp only [prune, h.total_eq, hsplit, List.length_append]
    rw [← Int32.add_sub_cancel (Int32.ofNat (taken.ptr.toList.length + taken.rest.length +
      s.lent.length)) (Int32.ofNat taken.invalid.length), ← Int32.ofNat_add]
    congr 2
    omega

theorem Accounted.of_lend {conn : HttpConnection}
    (hplaces : ((conn :: s.objects).map HttpConnection.id).Perm (List.range s.made))
    (hnodup : (s.lent.map Lease.holder).Nodup)
    (hlt : ∀ lease ∈ s.lent, lease.holder < s.holders)
    (htotal : s.pool.total = Int32.ofNat (1 + s.pool.conns.length + s.lent.length)) :
    (s.lend conn).Accounted where
  places := by
    refine List.Perm.trans (List.Perm.map _ ?_) hplaces
    rw [List.perm_iff_count]
    intro other
    simp only [objects, lend, List.map_cons, List.count_append, List.count_cons]
    omega
  holders_nodup := by
    refine List.nodup_cons.mpr ⟨fun hmem => ?_, hnodup⟩
    obtain ⟨lease, hlease, heq⟩ := List.mem_map.mp hmem
    exact absurd heq (Nat.ne_of_lt (hlt lease hlease))
  holders_lt := by
    intro lease hlease
    rcases List.mem_cons.mp hlease with rfl | hlease
    · exact Nat.lt_succ_self s.holders
    · exact Nat.lt_succ_of_lt (hlt lease hlease)
  total_eq := by
    simp only [lend, htotal, List.length_cons]
    congr 1
    omega

theorem Accounted.of_release {isConnected : HttpConnection → Bool} {now : Timeval}
    {lease : Lease} (h : s.Accounted) (hlent : lease ∈ s.lent) :
    (s.releasePtr isConnected now lease).Accounted := by
  have hlength := List.length_erase_add_one hlent
  have hcount : ∀ conn, (s.lent.map Lease.conn).count conn =
      ((s.lent.erase lease).map Lease.conn).count conn + [lease.conn].count conn := by
    intro conn
    rw [((List.perm_cons_erase hlent).map Lease.conn).count_eq]
    simp only [List.map_cons, List.count_cons, List.count_nil, Nat.zero_add]
  have hsub : (s.lent.erase lease).Sublist s.lent := List.erase_sublist
  have hnodup := h.holders_nodup.sublist (hsub.map Lease.holder)
  have hlt : ∀ other ∈ s.lent.erase lease, other.holder < s.holders :=
    fun other hother => h.holders_lt other (hsub.mem hother)
  unfold releasePtr
  split
  · refine ⟨List.Perm.trans (List.Perm.map _ ?_) h.places, hnodup, hlt, ?_⟩
    · rw [List.perm_iff_count]
      intro conn
      have := hcount conn
      simp only [objects, List.count_append, List.count_cons, List.count_nil] at this ⊢
      omega
    · simp only [h.total_eq, ← hlength, ← Nat.add_assoc]
      rw [Int32.ofNat_add _ 1]
      exact Int32.add_sub_cancel _ _
  · refine ⟨List.Perm.trans (List.Perm.map _ ?_) h.places, hnodup, hlt, ?_⟩
    · rw [List.perm_iff_count]
      intro conn
      have := hcount conn
      simp only [objects, List.count_append, List.count_cons, List.count_nil] at this ⊢
      omega
    · simp only [h.total_eq, ← hlength, List.length_append, List.length_singleton]
      congr 1
      omega

theorem Accounted.of_step (h : s.Accounted) (hstep : machine.step s call = some s') :
    s'.Accounted := by
  obtain ⟨-, hmoves⟩ := step_moves hstep
  cases hmoves with
  | reuse taken conn connecting haction htaken hptr =>
      have hspec := takeConnection_spec s.pool call.isConnected (getCurrentMs call.now)
        s.pool.conns
      rw [← htaken] at hspec
      obtain ⟨hplaces, htotal⟩ := h.of_prune hspec.1
      rw [hptr] at hplaces htotal
      refine Accounted.of_lend ?_ h.holders_nodup h.holders_lt htotal
      exact ((List.perm_append_singleton conn _).symm.map _).trans hplaces
  | connect taken connecting haction htaken hptr =>
      have hspec := takeConnection_spec s.pool call.isConnected (getCurrentMs call.now)
        s.pool.conns
      rw [← htaken] at hspec
      obtain ⟨hplaces, htotal⟩ := h.of_prune hspec.1
      rw [hptr] at hplaces htotal
      simp only [Option.toList_none, List.append_nil, List.length_nil, Nat.zero_add]
        at hplaces htotal
      -- Every failing exit leaves the pruned pool as it is.
      have hpruned : (s.prune taken).Accounted :=
        ⟨hplaces, h.holders_nodup, h.holders_lt, htotal⟩
      cases connecting with
      | resolveFails => exact ⟨hplaces, h.holders_nodup, h.holders_lt, htotal⟩
      | noAddress => exact hpruned
      | noSocket => exact hpruned
      | connectFails => exact hpruned
      | connects time =>
          refine Accounted.of_lend ?_ h.holders_nodup h.holders_lt ?_
          · refine ((List.Perm.cons s.made hplaces).trans
              (List.perm_append_singleton s.made _).symm).trans ?_
            exact List.Perm.of_eq List.range_succ.symm
          · simp only [htotal]
            rw [Nat.add_assoc, Nat.add_comm 1, Int32.ofNat_add _ 1]
            rfl
  | release lease haction hlent => exact h.of_release hlent

end State

/-! ## Runs -/

/-- The places of object `id` in the three lists, with multiplicity. -/
def State.count (s : State) (id : Nat) : Nat × Nat × Nat :=
  ((s.pool.conns.map HttpConnection.id).count id,
    (s.lent.map fun lease => lease.conn.id).count id,
    (s.deleted.map HttpConnection.id).count id)

/--
After any sequence of calls every object made is in one place, once: pooled,
lent to one holder or deleted.  `total_` is the number of pooled and lent
connections in 32 bits, which is that number itself below `2 ^ 31`.
-/
theorem pool_accounting (maxAliveTime : UInt32) (calls : List Call) (s : State)
    (hrun : machine.run (.initial maxAliveTime) calls = some s) :
    (∀ id, id < s.made →
      s.count id = (1, 0, 0) ∨ s.count id = (0, 1, 0) ∨ s.count id = (0, 0, 1)) ∧
    (∀ id, s.made ≤ id → s.count id = (0, 0, 0)) ∧
    (s.lent.map Lease.holder).Nodup ∧
    s.pool.total = Int32.ofNat (s.pool.conns.length + s.lent.length) ∧
    (s.pool.conns.length + s.lent.length < 2 ^ 31 →
      s.pool.total.toInt = s.pool.conns.length + s.lent.length) := by
  have h : s.Accounted :=
    Machine.run_invariant State.Accounted.of_step (State.initial_accounted maxAliveTime) hrun
  have hsum : ∀ id, (s.count id).1 + (s.count id).2.1 + (s.count id).2.2 =
      (List.range s.made).count id := by
    intro id
    rw [← h.places.count_eq]
    simp only [State.count, State.objects, List.map_append, List.map_map, List.count_append]
    rfl
  refine ⟨fun id hid => ?_, fun id hid => ?_, h.holders_nodup, h.total_eq, fun hlt => ?_⟩
  · have := hsum id
    rw [List.nodup_range.count, if_pos (List.mem_range.mpr hid)] at this
    simp only [Prod.ext_iff]
    omega
  · have := hsum id
    rw [List.nodup_range.count, if_neg (by simpa using hid)] at this
    simp only [Prod.ext_iff]
    omega
  · rw [h.total_eq, Int32.toInt_ofNat_of_lt hlt]
    exact Int.natCast_add _ _

/-- A whole number of seconds after the epoch. -/
def atSecond (sec : Nat) (h : sec < 2 ^ 32) : Timeval := ⟨sec, 0, by decide, by omega⟩

/-- A connection is made, a second attempt fails, the first one comes back and is lent again after
the clock was set back. -/
def lentTwice : List Call :=
  let connected := fun _ : HttpConnection => true
  let first := atSecond 100 (by decide)
  [⟨.getConnection (.connects first), first, connected⟩,
    ⟨.getConnection .connectFails, first, connected⟩,
    ⟨.releasePtr ⟨0, .new 0 first⟩, atSecond 101 (by decide), connected⟩,
    ⟨.getConnection .noSocket, atSecond 90 (by decide), connected⟩]

theorem pool_accounting_sample :
    ∃ s, machine.run (.initial 1000) lentTwice = some s ∧ s.lent.length = 1 ∧
      s.pool.total.toInt = 1 := by
  have hrun : ((machine.run (.initial 1000) lentTwice).map
      fun s => (s.pool.conns.length, s.lent.length)) = some (0, 1) := by decide
  obtain ⟨s, hs, heq⟩ := Option.map_eq_some_iff.mp hrun
  obtain ⟨hconns, hlent⟩ := Prod.mk.inj heq
  have htotal := (pool_accounting 1000 lentTwice s hs).2.2.2.2 (by rw [hconns, hlent]; decide)
  exact ⟨s, hs, hlent, by rw [htotal, hconns, hlent]; rfl⟩

/-- Calls that find the pool empty and connect, with nothing ever given back. -/
theorem run_lending (maxAliveTime : UInt32) (time : Timeval) (n : Nat) :
    ∃ s, machine.run (.initial maxAliveTime)
        (List.replicate n ⟨.getConnection (.connects time), time, fun _ => false⟩) = some s ∧
      s.pool.conns = [] ∧ s.lent.length = n ∧ s.aborted = false := by
  induction n with
  | zero => exact ⟨_, rfl, rfl, rfl, rfl⟩
  | succ n ih =>
      obtain ⟨s, hrun, hconns, hlent, haborted⟩ := ih
      let call : Call := ⟨.getConnection (.connects time), time, fun _ => false⟩
      have hstep : machine.step s call = some (s.perform call) := by
        refine (Machine.step_eq_some_iff _).mpr ⟨?_, rfl⟩
        simp [machine, State.guard, call, haborted]
      have hnext : s.perform call =
          (s.prune (takeConnection s.pool call.isConnected (getCurrentMs time) [])).connect
            (.connects time) := by
        simp [State.perform, State.getConnection, call, hconns, takeConnection]
      refine ⟨s.perform call, ?_, ?_, ?_, ?_⟩
      · rw [List.replicate_succ', Machine.run_append_iff]
        exact ⟨s, hrun, (Machine.run_single_iff _).mpr hstep⟩
      all_goals rw [hnext]
      · rfl
      · simp [State.connect, State.lend, State.prune, hlent]
      · exact haborted

/-- The count is a signed 32-bit number: `2 ^ 31` lent connections make it negative. -/
theorem total_overflows :
    ∃ calls s, machine.run (.initial 0) calls = some s ∧
      s.pool.conns.length + s.lent.length = 2 ^ 31 ∧ s.pool.total.toInt < 0 := by
  obtain ⟨s, hrun, hconns, hlent, -⟩ := run_lending 0 (atSecond 100 (by decide)) (2 ^ 31)
  have h : s.Accounted :=
    Machine.run_invariant State.Accounted.of_step (State.initial_accounted 0) hrun
  have hlength : s.pool.conns.length + s.lent.length = 2 ^ 31 := by
    rw [hconns, hlent, List.length_nil, Nat.zero_add]
  refine ⟨_, s, hrun, hlength, ?_⟩
  rw [h.total_eq, hlength]
  decide

end Qslary.Pool

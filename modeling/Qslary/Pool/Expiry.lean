import Qslary.Pool.Accounting

/-!
# The age of pooled connections

`create_time` is never set, so the age tests of the pool compare `maxAliveTime_`
with the clock alone, the wrong way round, and the clock is not in milliseconds.
The condition below says exactly which calls do what an age test should.
-/

namespace Qslary.Pool

open Qslary.Foundation

/-- Made more than `maxAliveTime_` milliseconds before `now`. -/
def HttpConnection.OlderThan (conn : HttpConnection) (maxAliveTime : UInt32)
    (now : Timeval) : Prop :=
  conn.created.micros + maxAliveTime.toNat * 1000 < now.micros

instance (conn : HttpConnection) (maxAliveTime : UInt32) (now : Timeval) :
    Decidable (conn.OlderThan maxAliveTime now) :=
  inferInstanceAs (Decidable (_ < _))

/--
What a call should respect: nothing too old leaves the pool for a holder or
enters it, and what is deleted was disconnected or too old.
-/
structure ExpiresByAge (s : State) (call : Call) (s' : State) : Prop where
  lent_young : ∀ conn ∈ s.pool.conns, conn ∈ s'.lent.map Lease.conn →
    ¬ conn.OlderThan s.pool.maxAliveTime call.now
  pooled_young : ∀ conn ∈ s'.pool.conns, conn ∉ s.pool.conns →
    ¬ conn.OlderThan s.pool.maxAliveTime call.now
  deleted_old : ∀ conn ∈ s'.deleted, conn ∉ s.deleted → call.isConnected conn = true →
    conn.OlderThan s.pool.maxAliveTime call.now

/--
The calls whose tests come out right.  `getConnection` needs a clock past
`maxAliveTime_` and a young first choice, unless nothing pooled is connected;
`ReleasePtr` needs the same of a connection that is still connected.
-/
def TestsRight (s : State) (call : Call) : Prop :=
  let limit := s.pool.maxAliveTime
  let reading := call.now.sec * 1000 + call.now.usec
  match call.action with
  | .getConnection _ =>
      ∀ conn ∈ s.pool.conns.find? call.isConnected,
        limit.toNat ≤ reading ∧ ¬ conn.OlderThan limit call.now
  | .releasePtr lease =>
      call.isConnected lease.conn = true →
        limit.toNat < reading ∧ ¬ lease.conn.OlderThan limit call.now

instance (s : State) : ∀ call : Call, Decidable (TestsRight s call)
  | ⟨.getConnection _, now, isConnected⟩ =>
      inferInstanceAs (Decidable (∀ conn ∈ s.pool.conns.find? isConnected,
        s.pool.maxAliveTime.toNat ≤ now.sec * 1000 + now.usec ∧
          ¬ conn.OlderThan s.pool.maxAliveTime now))
  | ⟨.releasePtr lease, now, isConnected⟩ =>
      inferInstanceAs (Decidable (isConnected lease.conn = true →
        s.pool.maxAliveTime.toNat < now.sec * 1000 + now.usec ∧
          ¬ lease.conn.OlderThan s.pool.maxAliveTime now))

/-! ## The clock -/

theorem getCurrentMs_toNat (tv : Timeval) :
    (getCurrentMs tv).toNat = tv.sec * 1000 + tv.usec := by
  have hsec := tv.sec_le
  have husec := tv.usec_lt
  rw [getCurrentMs, UInt64.toNat_ofNat_of_lt']
  show _ < 2 ^ 64
  omega

/-- The reading of the clock is never behind the milliseconds since the epoch. -/
theorem micros_le_reading (tv : Timeval) :
    tv.micros ≤ (tv.sec * 1000 + tv.usec) * 1000 := by
  unfold Timeval.micros
  omega

/-! ## Invariant -/

/-- Nothing ever sets `create_time`. -/
structure State.Aged (s : State) : Prop where
  accounted : s.Accounted
  createTime_eq : ∀ conn ∈ s.objects, conn.createTime = 0

namespace State

variable {s s' : State} {call : Call} {conn : HttpConnection}

theorem Aged.deadline_toNat (h : s.Aged) (hconn : conn ∈ s.objects) :
    (s.pool.deadline conn).toNat = s.pool.maxAliveTime.toNat := by
  simp [HttpConnectionPool.deadline, h.createTime_eq conn hconn]

theorem Aged.usable_iff (h : s.Aged) (hconn : conn ∈ s.objects) (isConnected) (now : Timeval) :
    s.pool.usable isConnected (getCurrentMs now) conn = true ↔
      isConnected conn = true ∧ s.pool.maxAliveTime.toNat ≤ now.sec * 1000 + now.usec := by
  rw [HttpConnectionPool.usable, Bool.and_eq_true, decide_eq_true_eq, UInt64.le_iff_toNat_le,
    h.deadline_toNat hconn, getCurrentMs_toNat]

theorem mem_objects_of_pooled (hconn : conn ∈ s.pool.conns) : conn ∈ s.objects :=
  List.mem_append_left _ (List.mem_append_left _ hconn)

theorem mem_objects_of_lent (hconn : conn ∈ s.lent.map Lease.conn) : conn ∈ s.objects :=
  List.mem_append_left _ (List.mem_append_right _ hconn)

theorem Aged.pooled_not_lent (h : s.Aged) (hconn : conn ∈ s.pool.conns) :
    conn ∉ s.lent.map Lease.conn := by
  have hnodup := (List.nodup_append.mp h.accounted.objects_nodup).1
  exact fun hlent => (List.nodup_append.mp hnodup).2.2 conn hconn conn hlent rfl

theorem Aged.not_deleted (h : s.Aged)
    (hconn : conn ∈ s.pool.conns ++ s.lent.map Lease.conn) : conn ∉ s.deleted :=
  fun hdeleted =>
    (List.nodup_append.mp h.accounted.objects_nodup).2.2 conn hconn conn hdeleted rfl

/-- While the clock has not passed `maxAliveTime_` nothing can be that old. -/
theorem not_olderThan_of_reading {now : Timeval} {limit : UInt32}
    (hreading : now.sec * 1000 + now.usec ≤ limit.toNat) : ¬ conn.OlderThan limit now := by
  have := micros_le_reading now
  unfold HttpConnection.OlderThan
  omega

theorem reuse_expires_iff {taken : Taken} (h : s.Aged)
    (htaken : taken =
      takeConnection s.pool call.isConnected (getCurrentMs call.now) s.pool.conns)
    (hptr : taken.ptr = some conn) :
    ExpiresByAge s call ((s.prune taken).lend conn) ↔
      ∀ first ∈ s.pool.conns.find? call.isConnected,
        s.pool.maxAliveTime.toNat ≤ call.now.sec * 1000 + call.now.usec ∧
        ¬ first.OlderThan s.pool.maxAliveTime call.now := by
  obtain ⟨hsplit, hinvalid, husable, -⟩ := takeConnection_spec s.pool call.isConnected
    (getCurrentMs call.now) s.pool.conns
  rw [← htaken] at hsplit hinvalid husable
  rw [hptr] at hsplit
  have hconn : conn ∈ s.pool.conns := by simp [hsplit]
  obtain ⟨hconnected, hreading⟩ :=
    (h.usable_iff (mem_objects_of_pooled hconn) _ _).mp (husable conn hptr)
  -- The clock is past the limit, so only the disconnected were passed over.
  have hpassed : ∀ other ∈ taken.invalid, call.isConnected other = false := by
    intro other hother
    have hmem : other ∈ s.pool.conns := by simp [hsplit, hother]
    have hnot := hinvalid other hother
    rw [← Bool.not_eq_true, h.usable_iff (mem_objects_of_pooled hmem)] at hnot
    simpa [hreading] using hnot
  have hfind : s.pool.conns.find? call.isConnected = some conn := by
    rw [hsplit, List.append_assoc, List.find?_append, List.find?_eq_none.mpr]
    · simp [hconnected]
    · intro other hother
      simp [hpassed other hother]
  simp only [hfind, Option.mem_some_iff, forall_eq']
  constructor
  · intro hages
    refine ⟨hreading, hages.lent_young conn hconn ?_⟩
    simp [lend]
  · rintro ⟨-, hyoung⟩
    refine ⟨fun other hother hlent => ?_, fun other hother hnew => ?_,
      fun other hother hnew hother' => ?_⟩
    · rcases List.mem_cons.mp hlent with rfl | hlent
      · exact hyoung
      · exact absurd hlent (h.pooled_not_lent hother)
    · exact absurd (show other ∈ s.pool.conns by rw [hsplit]; exact List.mem_append_right _ hother)
        hnew
    · rcases List.mem_append.mp hother with hother | hother
      · simp [hpassed other hother] at hother'
      · exact absurd hother hnew

theorem connect_expires_iff {taken : Taken} {connecting : Connecting} (h : s.Aged)
    (htaken : taken =
      takeConnection s.pool call.isConnected (getCurrentMs call.now) s.pool.conns)
    (hptr : taken.ptr = none) :
    ExpiresByAge s call ((s.prune taken).connect connecting) ↔
      ∀ first ∈ s.pool.conns.find? call.isConnected,
        s.pool.maxAliveTime.toNat ≤ call.now.sec * 1000 + call.now.usec ∧
        ¬ first.OlderThan s.pool.maxAliveTime call.now := by
  obtain ⟨hsplit, hinvalid, -, hrest⟩ := takeConnection_spec s.pool call.isConnected
    (getCurrentMs call.now) s.pool.conns
  rw [← htaken] at hsplit hinvalid hrest
  have hrest := hrest hptr
  simp only [hptr, hrest, Option.toList_none, List.append_nil] at hsplit
  have hdeleted : ((s.prune taken).connect connecting).deleted =
      s.pool.conns ++ s.deleted := by
    rw [hsplit]
    cases connecting <;> rfl
  have hconns : ((s.prune taken).connect connecting).pool.conns = [] := by
    cases connecting <;> exact hrest
  -- A connected connection was passed over only if the clock is behind the limit.
  have hbehind : ∀ conn ∈ s.pool.conns, call.isConnected conn = true →
      call.now.sec * 1000 + call.now.usec < s.pool.maxAliveTime.toNat := by
    intro conn hconn hyes
    have hnot := hinvalid conn (hsplit ▸ hconn)
    rw [← Bool.not_eq_true, h.usable_iff (mem_objects_of_pooled hconn)] at hnot
    exact Nat.lt_of_not_le fun hle => hnot ⟨hyes, hle⟩
  constructor
  · intro hages conn hfind
    have hconn := List.mem_of_find?_eq_some hfind
    have hyes := List.find?_some hfind
    have hold := hages.deleted_old conn (by simp [hdeleted, hconn])
      (h.not_deleted (List.mem_append_left _ hconn)) hyes
    exact absurd hold (not_olderThan_of_reading (Nat.le_of_lt (hbehind conn hconn hyes)))
  · intro hright
    have hnone : ∀ conn ∈ s.pool.conns, call.isConnected conn = false := by
      intro conn hconn
      cases hfind : s.pool.conns.find? call.isConnected with
      | none => simpa using List.find?_eq_none.mp hfind conn hconn
      | some first =>
          have hpast := (hright first hfind).1
          have := hbehind first (List.mem_of_find?_eq_some hfind) (List.find?_some hfind)
          omega
    refine ⟨fun conn hconn hlent => ?_, fun conn hconn _ => ?_, fun conn hconn hnew hyes => ?_⟩
    · have hnot := h.pooled_not_lent hconn
      have hlt := h.accounted.id_lt (mem_objects_of_pooled hconn)
      cases connecting with
      | resolveFails => exact absurd hlent hnot
      | noAddress => exact absurd hlent hnot
      | noSocket => exact absurd hlent hnot
      | connectFails => exact absurd hlent hnot
      | connects time =>
          rcases List.mem_cons.mp hlent with rfl | hlent
          · exact absurd hlt (Nat.lt_irrefl s.made)
          · exact absurd hlent hnot
    · simp [hconns] at hconn
    · rw [hdeleted] at hconn
      rcases List.mem_append.mp hconn with hconn | hconn
      · simp [hnone conn hconn] at hyes
      · exact absurd hconn hnew

theorem release_expires_iff {lease : Lease} (h : s.Aged) (hlent : lease ∈ s.lent) :
    ExpiresByAge s call (s.releasePtr call.isConnected call.now lease) ↔
      (call.isConnected lease.conn = true →
        s.pool.maxAliveTime.toNat < call.now.sec * 1000 + call.now.usec ∧
        ¬ lease.conn.OlderThan s.pool.maxAliveTime call.now) := by
  have hconn : lease.conn ∈ s.lent.map Lease.conn := List.mem_map_of_mem hlent
  have hstay : ∀ conn ∈ s.pool.conns, conn ∉ (s.lent.erase lease).map Lease.conn :=
    fun conn hpooled hmem =>
      h.pooled_not_lent hpooled ((List.erase_sublist.map Lease.conn).subset hmem)
  have hdeadline : s.pool.deadline lease.conn ≥ getCurrentMs call.now ↔
      call.now.sec * 1000 + call.now.usec ≤ s.pool.maxAliveTime.toNat := by
    rw [ge_iff_le, UInt64.le_iff_toNat_le, h.deadline_toNat (mem_objects_of_lent hconn),
      getCurrentMs_toNat]
  unfold releasePtr
  split
  · rename_i hdelete
    simp only [Bool.or_eq_true, Bool.not_eq_true', decide_eq_true_eq, hdeadline] at hdelete
    constructor
    · intro hages hyes
      have hold := hages.deleted_old lease.conn List.mem_cons_self
        (h.not_deleted (List.mem_append_right _ hconn)) hyes
      have hbehind := hdelete.resolve_left (by simp [hyes])
      exact absurd hold (not_olderThan_of_reading hbehind)
    · intro hright
      refine ⟨fun conn hpooled hmem => absurd hmem (hstay conn hpooled),
        fun conn hpooled hnew => absurd hpooled hnew, fun conn hmem hnew hyes => ?_⟩
      rcases List.mem_cons.mp hmem with rfl | hmem
      · obtain ⟨hpast, -⟩ := hright hyes
        rcases hdelete with hno | hbehind
        · simp [hno] at hyes
        · omega
      · exact absurd hmem hnew
  · rename_i hkeep
    simp only [Bool.or_eq_true, Bool.not_eq_true', decide_eq_true_eq, hdeadline, not_or,
      Bool.not_eq_false, Nat.not_le] at hkeep
    constructor
    · intro hages _
      refine ⟨hkeep.2, hages.pooled_young lease.conn (List.mem_append_right _ (by simp)) ?_⟩
      exact fun hpooled => h.pooled_not_lent hpooled hconn
    · intro hright
      refine ⟨fun conn hpooled hmem => absurd hmem (hstay conn hpooled),
        fun conn hpooled hnew => ?_, fun conn hmem hnew => absurd hmem hnew⟩
      rcases List.mem_append.mp hpooled with hpooled | hpooled
      · exact absurd hpooled hnew
      · obtain rfl := List.mem_singleton.mp hpooled
        exact (hright hkeep.1).2

theorem Aged.expires_iff (h : s.Aged) (hstep : machine.step s call = some s') :
    ExpiresByAge s call s' ↔ TestsRight s call := by
  obtain ⟨-, hmoves⟩ := step_moves hstep
  cases hmoves with
  | reuse taken conn connecting haction htaken hptr =>
      rw [reuse_expires_iff h htaken hptr]
      simp only [TestsRight, haction]
  | connect taken connecting haction htaken hptr =>
      rw [connect_expires_iff h htaken hptr]
      simp only [TestsRight, haction]
  | release lease haction hlent =>
      rw [release_expires_iff h hlent]
      simp only [TestsRight, haction]

theorem createTime_of_moves (hmoves : Moves s call s') (hconn : conn ∈ s'.objects) :
    conn ∈ s.objects ∨ conn.createTime = 0 := by
  cases hmoves with
  | reuse taken lent connecting haction htaken hptr =>
      have hsplit := (takeConnection_spec s.pool call.isConnected (getCurrentMs call.now)
        s.pool.conns).1
      rw [← htaken, hptr] at hsplit
      simp only [objects, lend, prune, List.map_cons, List.mem_append, List.mem_cons] at hconn
      simp only [objects, hsplit, List.mem_append, Option.toList_some, List.mem_singleton]
      tauto
  | connect taken connecting haction htaken hptr =>
      have hsplit := (takeConnection_spec s.pool call.isConnected (getCurrentMs call.now)
        s.pool.conns).1
      rw [← htaken, hptr] at hsplit
      have hpruned : conn ∈ (s.prune taken).objects → conn ∈ s.objects := by
        simp only [objects, prune, hsplit, List.mem_append, Option.toList_none, List.not_mem_nil]
        tauto
      cases connecting with
      | resolveFails => exact .inl (hpruned hconn)
      | noAddress => exact .inl (hpruned hconn)
      | noSocket => exact .inl (hpruned hconn)
      | connectFails => exact .inl (hpruned hconn)
      | connects time =>
          by_cases hnew : conn = .new s.made time
          · exact .inr (congrArg HttpConnection.createTime hnew)
          · refine .inl (hpruned ?_)
            simpa [objects, connect, lend, prune, hnew] using hconn
  | release lease haction hlent =>
      left
      have hlease : lease.conn ∈ s.lent.map Lease.conn := List.mem_map_of_mem hlent
      have hsub : ∀ other ∈ (s.lent.erase lease).map Lease.conn,
          other ∈ s.lent.map Lease.conn := (List.erase_sublist.map Lease.conn).subset
      unfold releasePtr at hconn
      split at hconn
      · simp only [objects, List.mem_append, List.mem_cons] at hconn ⊢
        grind
      · simp only [objects, List.mem_append, List.mem_cons, List.not_mem_nil] at hconn ⊢
        grind

theorem Aged.of_step (h : s.Aged) (hstep : machine.step s call = some s') : s'.Aged := by
  obtain ⟨-, hmoves⟩ := step_moves hstep
  refine ⟨h.accounted.of_step hstep, fun conn hconn => ?_⟩
  rcases createTime_of_moves hmoves hconn with hold | hnew
  · exact h.createTime_eq conn hold
  · exact hnew

theorem initial_aged (maxAliveTime : UInt32) : (initial maxAliveTime).Aged where
  accounted := initial_accounted maxAliveTime
  createTime_eq := by simp [initial, objects, HttpConnectionPool.new]

end State

/--
The pool expires its connections by age along a run exactly when every call of
the run meets `TestsRight` in the state before it.
-/
theorem expires_by_age_iff (maxAliveTime : UInt32) (calls : List Call) (s : State)
    (hrun : machine.run (.initial maxAliveTime) calls = some s) :
    machine.Always ExpiresByAge (.initial maxAliveTime) calls ↔
      machine.Meets TestsRight (.initial maxAliveTime) calls :=
  Machine.always_iff_meets_of_run State.Aged.expires_iff (fun h _ => h.of_step)
    (State.initial_aged maxAliveTime) hrun

theorem made_lt : 100 < 2 ^ 32 := by decide

/-- Lent at 100 s with a limit of 60 s, given back at 110 s and lent again at 120 s. -/
def keptYoung : List Call :=
  let connected := fun _ : HttpConnection => true
  let made := atSecond 100 made_lt
  [⟨.getConnection (.connects made), made, connected⟩,
    ⟨.releasePtr ⟨0, .new 0 made⟩, atSecond 110 (by decide), connected⟩,
    ⟨.getConnection .connectFails, atSecond 120 (by decide), connected⟩]

theorem expires_by_age_sample :
    machine.Always ExpiresByAge (.initial 60000) keptYoung := by
  have hrun : (machine.run (.initial 60000) keptYoung).isSome = true := by decide
  obtain ⟨s, hs⟩ := Option.isSome_iff_exists.mp hrun
  refine (expires_by_age_iff 60000 keptYoung s hs).mpr ?_
  decide

/-- The same connection is lent again only at 200 s, when it is 100 s old. -/
def lentOld : Call := ⟨.getConnection .connectFails, atSecond 200 (by decide), fun _ => true⟩

theorem expires_by_age_fails :
    let conn := HttpConnection.new 0 (atSecond 100 (by decide))
    ∃ s s', machine.run (.initial 60000) (keptYoung.take 2) = some s ∧
      machine.step s lentOld = some s' ∧ conn ∈ s.pool.conns ∧ conn ∈ s'.lent.map Lease.conn ∧
      conn.OlderThan 60000 lentOld.now ∧ ¬ ExpiresByAge s lentOld s' := by
  intro conn
  have hrun : ((machine.run (.initial 60000) (keptYoung.take 2)).bind fun s =>
      (machine.step s lentOld).map fun s' => (s.pool.maxAliveTime, decide (conn ∈ s.pool.conns),
        decide (conn ∈ s'.lent.map Lease.conn))) = some (60000, true, true) := by decide
  obtain ⟨s, hs, hrest⟩ := Option.bind_eq_some_iff.mp hrun
  obtain ⟨s', hs', heq⟩ := Option.map_eq_some_iff.mp hrest
  simp only [Prod.mk.injEq, decide_eq_true_eq] at heq
  obtain ⟨hlimit, hpooled, hlent⟩ := heq
  have hold : conn.OlderThan 60000 lentOld.now := by decide
  refine ⟨s, s', hs, hs', hpooled, hlent, hold, fun hages => ?_⟩
  have hyoung := hages.lent_young conn hpooled hlent
  rw [hlimit] at hyoung
  exact hyoung hold

end Qslary.Pool

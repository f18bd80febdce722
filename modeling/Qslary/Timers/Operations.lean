import Qslary.Timers.Invariant

/-!
# What the operations of the timer manager compute

On a manager whose indexes agree no operation faults, and each one is the composite
of elementary moves named here.
-/

namespace Qslary.Timers

open Qslary.Foundation

variable {C D : Type} [Seconds D]

namespace TimerManger

variable {m : TimerManger C D} {out : List Entry} {p : Addr} {timer : Timer C D}

theorem insert_eq (h : WF m (⟨timer.expiration, p⟩ :: out)) (halloc : m.heap p = some timer) :
    m.insert p = .ok (m.attach p timer, m.earliestChanged timer.expiration) := by
  obtain ⟨same, hsame, -, hnot⟩ := h.mem_out _ List.mem_cons_self
  rw [halloc] at hsame
  cases hsame
  have hentry : (⟨timer.expiration, p⟩ : Entry) ∉ m.timers := by
    intro hmem
    obtain ⟨other, hother, -, hactive⟩ := (h.mem_timers _).mp hmem
    rw [halloc] at hother
    cases hother
    exact hnot hactive
  have hafter := (h.attach halloc).assertSizes_eq
  unfold TimerManger.attach at hafter
  simp [TimerManger.insert, h.assertSizes_eq, deref, halloc, check, hentry, hnot, hafter,
    TimerManger.attach, bind, Except.bind, pure, Except.pure]

theorem addTimer_eq (h : WF m out) (hfree : m.heap p = none) (hp : p < uintptrMax)
    (cb : C) (expiration : Timestamp) (interval : D) :
    let timer := Timer.new cb expiration interval (m.numCreated + 1)
    m.addTimer p cb expiration interval =
      .ok ((m.alloc p timer).attach p timer, ⟨p, m.numCreated + 1⟩,
        if m.earliestChanged expiration then some expiration else none) := by
  intro timer
  have halloc : WF (m.alloc p timer) (⟨timer.expiration, p⟩ :: out) :=
    h.alloc hfree hp rfl rfl
  have hinsert := insert_eq halloc (by simp [TimerManger.alloc, store])
  change ((m.alloc p timer).insert p).bind _ = _
  rw [hinsert]
  rfl

theorem cancel_eq_of_active (h : WF m out) (halloc : m.heap p = some timer)
    (hactive : (⟨p, timer.sequence⟩ : ActiveTimer) ∈ m.activeTimers) :
    m.cancel ⟨p, timer.sequence⟩ = .ok ((m.detach p timer).free p) := by
  have hafter := (h.detach halloc hactive).free.assertSizes_eq
  simp only [TimerManger.detach, TimerManger.free] at hafter
  simp [cancel, h.assertSizes_eq, hactive, deref, halloc, check,
    h.mem_timers_of_active halloc hactive, TimerManger.detach, TimerManger.free, hafter,
    bind, Except.bind, pure, Except.pure]

theorem cancel_eq_of_not_active (h : WF m out) {id : TimerId} (hid : id ∉ m.activeTimers) :
    m.cancel id = .ok (if m.callingExpiredTimers then
      { m with cancelingTimers := m.cancelingTimers.insert id } else m) := by
  cases hcalling : m.callingExpiredTimers with
  | false =>
      simp [cancel, h.assertSizes_eq, hid, hcalling, bind, Except.bind, pure, Except.pure]
  | true =>
      have hwf : WF { m with cancelingTimers := m.cancelingTimers.insert id } out :=
        h.of_eq rfl rfl rfl rfl
      have hafter := hwf.assertSizes_eq
      rw [hcalling] at hafter
      simp [cancel, h.assertSizes_eq, hid, hcalling, hafter, bind, Except.bind, pure,
        Except.pure]

def sentry (now : Timestamp) : Entry := ⟨now, uintptrMax⟩

def expired (m : TimerManger C D) (now : Timestamp) : List Entry :=
  (m.timers.below (sentry now)).toList

def expire (m : TimerManger C D) (now : Timestamp) : TimerManger C D :=
  { m with
    timers := m.timers.notBelow (sentry now)
    activeTimers := m.activeTimers.filter
      (fun id => decide (id.timer ∉ (m.expired now).map Entry.second)) }

omit [Seconds D] in
theorem eraseActive_eq {m : TimerManger C D} {l : List Entry}
    (hactive : ∀ id ∈ m.activeTimers,
      ∃ timer, m.heap id.timer = some timer ∧ timer.sequence = id.sequence)
    (hnodup : (l.map Entry.second).Nodup)
    (hl : ∀ e ∈ l, ∃ timer, m.heap e.second = some timer ∧
      (⟨e.second, timer.sequence⟩ : ActiveTimer) ∈ m.activeTimers) :
    m.eraseActive l = .ok { m with
      activeTimers := m.activeTimers.filter
        (fun id => decide (id.timer ∉ l.map Entry.second)) } := by
  induction l generalizing m with
  | nil =>
      have : m.activeTimers.filter (fun id => decide (id.timer ∉ [].map Entry.second)) =
          m.activeTimers := by
        ext id
        simp
      rw [this]
      rfl
  | cons e l ih =>
      obtain ⟨timer, halloc, hmem⟩ := hl e List.mem_cons_self
      obtain ⟨hne, hnodup⟩ := List.nodup_cons.mp (List.map_cons ▸ hnodup)
      have hrest : ∀ f ∈ l, ∃ other, m.heap f.second = some other ∧
          (⟨f.second, other.sequence⟩ : ActiveTimer) ∈
            m.activeTimers.erase ⟨e.second, timer.sequence⟩ := by
        intro f hf
        obtain ⟨other, hother, hfmem⟩ := hl f (List.mem_cons_of_mem _ hf)
        refine ⟨other, hother, OrderedSet.mem_erase.mpr ⟨fun hsame => hne ?_, hfmem⟩⟩
        exact List.mem_map.mpr ⟨f, hf, congrArg TimerId.timer hsame⟩
      have htail := ih
        (m := { m with activeTimers := m.activeTimers.erase ⟨e.second, timer.sequence⟩ })
        (fun id hid => hactive id (OrderedSet.mem_erase.mp hid).2) hnodup hrest
      simp only [eraseActive, deref, halloc, check, hmem, decide_true, if_true, bind,
        Except.bind, htail]
      congr 2
      ext id
      simp only [OrderedSet.mem_filter, OrderedSet.mem_erase, List.map_cons, List.mem_cons,
        decide_eq_true_eq, not_or]
      constructor
      · rintro ⟨⟨hid, hidmem⟩, hidl⟩
        refine ⟨hidmem, fun hsame => hid ?_, hidl⟩
        obtain ⟨other, hother, hseq⟩ := hactive id hidmem
        rw [hsame, halloc] at hother
        cases hother
        cases id
        simp_all
      · rintro ⟨hidmem, hide, hidl⟩
        exact ⟨⟨fun hsame => hide (congrArg TimerId.timer hsame), hidmem⟩, hidl⟩

theorem mem_expired_iff (h : WF m out) (now : Timestamp) (e : Entry) :
    e ∈ m.expired now ↔ e ∈ m.timers ∧ e.first ≤ now := by
  change e ∈ m.timers.below (sentry now) ↔ _
  rw [OrderedSet.mem_below]
  refine and_congr_right fun he => ?_
  obtain ⟨timer, halloc, -⟩ := (h.mem_timers e).mp he
  have hlt := h.addr_lt halloc
  rw [Entry.lt_iff]
  simp only [sentry]
  lia

theorem mem_expire_timers_iff (h : WF m out) (now : Timestamp) (e : Entry) :
    e ∈ (m.expire now).timers ↔ e ∈ m.timers ∧ now < e.first := by
  change e ∈ m.timers.notBelow (sentry now) ↔ _
  rw [OrderedSet.mem_notBelow]
  refine and_congr_right fun he => ?_
  obtain ⟨timer, halloc, -⟩ := (h.mem_timers e).mp he
  have hlt := h.addr_lt halloc
  rw [Entry.le_iff]
  simp only [sentry]
  lia

theorem expired_second_nodup (h : WF m out) (now : Timestamp) :
    ((m.expired now).map Entry.second).Nodup := by
  apply List.Nodup.map_on _ (m.timers.below (sentry now)).nodup
  intro a ha b hb hab
  obtain ⟨timer, halloc, hexp, -⟩ := (h.mem_timers a).mp ((mem_expired_iff h now a).mp ha).1
  obtain ⟨other, hother, hexp', -⟩ := (h.mem_timers b).mp ((mem_expired_iff h now b).mp hb).1
  rw [hab, hother] at halloc
  cases halloc
  cases a
  cases b
  simp_all

theorem mem_expired_second_iff (h : WF m out) (now : Timestamp) (halloc : m.heap p = some timer)
    (hactive : (⟨p, timer.sequence⟩ : ActiveTimer) ∈ m.activeTimers) :
    p ∈ (m.expired now).map Entry.second ↔ timer.expiration ≤ now := by
  constructor
  · intro hmem
    obtain ⟨e, he, rfl⟩ := List.mem_map.mp hmem
    obtain ⟨hmem, hle⟩ := (mem_expired_iff h now e).mp he
    obtain ⟨other, hother, hexp, -⟩ := (h.mem_timers e).mp hmem
    rw [halloc] at hother
    cases hother
    rwa [hexp]
  · intro hle
    refine List.mem_map.mpr ⟨⟨timer.expiration, p⟩, ?_, rfl⟩
    exact (mem_expired_iff h now _).mpr ⟨h.mem_timers_of_active halloc hactive, hle⟩

theorem mem_expire_active_iff (h : WF m out) (now : Timestamp) (halloc : m.heap p = some timer) :
    (⟨p, timer.sequence⟩ : ActiveTimer) ∈ (m.expire now).activeTimers ↔
      (⟨p, timer.sequence⟩ : ActiveTimer) ∈ m.activeTimers ∧ now < timer.expiration := by
  simp only [expire, OrderedSet.mem_filter, decide_eq_true_eq]
  refine and_congr_right fun hactive => ?_
  rw [mem_expired_second_iff h now halloc hactive]
  exact not_le

theorem expire_wf (h : WF m []) (now : Timestamp) : WF (m.expire now) (m.expired now) := by
  constructor
  · intro e
    rw [mem_expire_timers_iff h now e, h.mem_timers e]
    constructor
    · rintro ⟨⟨timer, halloc, hexp, hactive⟩, hlt⟩
      exact ⟨timer, halloc, hexp, (mem_expire_active_iff h now halloc).mpr ⟨hactive, hexp ▸ hlt⟩⟩
    · rintro ⟨timer, halloc, hexp, hactive⟩
      obtain ⟨hactive, hlt⟩ := (mem_expire_active_iff h now halloc).mp hactive
      exact ⟨⟨timer, halloc, hexp, hactive⟩, hexp ▸ hlt⟩
  · intro id hid
    exact h.active_alloc id (OrderedSet.mem_filter.mp hid).1
  · exact h.addr_lt
  · exact h.sequence_le
  · exact h.sequence_inj
  · exact h.recurring_eq
  · exact expired_second_nodup h now
  · intro e he
    obtain ⟨hmem, hle⟩ := (mem_expired_iff h now e).mp he
    obtain ⟨timer, halloc, hexp, hactive⟩ := (h.mem_timers e).mp hmem
    refine ⟨timer, halloc, hexp, fun hmem => ?_⟩
    have hlt := ((mem_expire_active_iff h now halloc).mp hmem).2
    exact absurd (hexp ▸ hle) (not_le.mpr hlt)
  · intro q other hq
    change m.heap q = some other at hq
    rcases h.covered hq with hactive | hnil
    · by_cases hlt : now < other.expiration
      · exact Or.inl ((mem_expire_active_iff h now hq).mpr ⟨hactive, hlt⟩)
      · right
        exact (mem_expired_iff h now _).mpr
          ⟨h.mem_timers_of_active hq hactive, not_lt.mp hlt⟩
    · cases hnil

theorem getExpired_eq (h : WF m []) (now : Timestamp) :
    m.getExpired now = .ok (m.expire now, m.expired now) := by
  have herase : eraseActive { m with timers := m.timers.notBelow (sentry now) }
      (m.expired now) = .ok (m.expire now) := by
    apply eraseActive_eq
    · exact h.active_alloc
    · exact expired_second_nodup h now
    · intro e he
      obtain ⟨timer, halloc, -, hactive⟩ :=
        (h.mem_timers e).mp ((mem_expired_iff h now e).mp he).1
      exact ⟨timer, halloc, hactive⟩
  have hafter := (expire_wf h now).assertSizes_eq
  have hend : (⟨now, uintptrMax⟩ : Entry) = sentry now := rfl
  unfold expired at herase ⊢
  simp only [getExpired, hend, h.assertSizes_eq, check, bind, Except.bind, herase, hafter]
  cases hfront : (m.timers.notBelow (sentry now)).front? with
  | none => rfl
  | some e =>
      have hmem := (OrderedSet.front?_eq_some_iff.mp hfront).1
      simp only [((mem_expire_timers_iff h now e).mp hmem).2, decide_true, if_true]
      rfl

/-! ## Putting a batch back -/

/-- What `reset` asks of an expired timer before it goes back into the queue. -/
def keeps (m : TimerManger C D) (p : Addr) (timer : Timer C D) : Bool :=
  timer.recurring && decide ((⟨p, timer.sequence⟩ : ActiveTimer) ∉ m.cancelingTimers)

/-- `m'` is `m` after the loop of `reset` over `out`. -/
structure Requeued (now : Timestamp) (m m' : TimerManger C D) (out : List Entry) : Prop where
  numCreated_eq : m'.numCreated = m.numCreated
  calling_eq : m'.callingExpiredTimers = m.callingExpiredTimers
  canceling_eq : m'.cancelingTimers = m.cancelingTimers
  heap_other : ∀ q, q ∉ out.map Entry.second → m'.heap q = m.heap q
  heap_out : ∀ e ∈ out, ∀ timer, m.heap e.second = some timer →
    m'.heap e.second = if m.keeps e.second timer then some (timer.restart now) else none
  active_other : ∀ id : TimerId, id.timer ∉ out.map Entry.second →
    (id ∈ m'.activeTimers ↔ id ∈ m.activeTimers)

private theorem Requeued.cons {now : Timestamp} {m mid m' : TimerManger C D} {e : Entry}
    (hne : e.second ∉ out.map Entry.second) (halloc : m.heap e.second = some timer)
    (hcreated : mid.numCreated = m.numCreated)
    (hcalling : mid.callingExpiredTimers = m.callingExpiredTimers)
    (hcanceling : mid.cancelingTimers = m.cancelingTimers)
    (hother : ∀ q, q ≠ e.second → mid.heap q = m.heap q)
    (hself : mid.heap e.second = if m.keeps e.second timer then some (timer.restart now) else none)
    (hactive : ∀ id : TimerId, id.timer ≠ e.second →
      (id ∈ mid.activeTimers ↔ id ∈ m.activeTimers))
    (h : Requeued now mid m' out) : Requeued now m m' (e :: out) := by
  have hkeeps : ∀ p other, mid.keeps p other = m.keeps p other := by
    intro p other
    simp [keeps, hcanceling]
  constructor
  · rw [h.numCreated_eq, hcreated]
  · rw [h.calling_eq, hcalling]
  · rw [h.canceling_eq, hcanceling]
  · intro q hq
    simp only [List.map_cons, List.mem_cons, not_or] at hq
    rw [h.heap_other q hq.2, hother q hq.1]
  · intro f hf other hf'
    rcases List.mem_cons.mp hf with rfl | hf
    · rw [halloc] at hf'
      cases hf'
      rw [h.heap_other _ hne, hself]
    · have hfe : f.second ≠ e.second := fun hfe => hne (List.mem_map.mpr ⟨f, hf, hfe⟩)
      rw [h.heap_out f hf other (by rw [hother _ hfe, hf']), hkeeps]
  · intro id hid
    simp only [List.map_cons, List.mem_cons, not_or] at hid
    rw [h.active_other id hid.2, hactive id hid.1]

theorem requeue_spec (now : Timestamp) (h : WF m out) :
    ∃ m', m.requeue now out = .ok m' ∧ WF m' [] ∧ Requeued now m m' out := by
  induction out generalizing m with
  | nil =>
      refine ⟨m, rfl, h, rfl, rfl, rfl, fun _ _ => rfl, ?_, fun _ _ => Iff.rfl⟩
      rintro e ⟨⟩
  | cons e out ih =>
      obtain ⟨timer, halloc, hexp, -⟩ := h.mem_out e List.mem_cons_self
      obtain ⟨hne, -⟩ := List.nodup_cons.mp (List.map_cons ▸ h.out_nodup)
      have he : e = ⟨timer.expiration, e.second⟩ := by rw [hexp]
      cases hkeeps : m.keeps e.second timer with
      | true =>
          have hcond : timer.recurring = true ∧
              (⟨e.second, timer.sequence⟩ : ActiveTimer) ∉ m.cancelingTimers := by
            simpa [keeps] using hkeeps
          have hstored : WF (m.store e.second (timer.restart now))
              (⟨(timer.restart now).expiration, e.second⟩ :: out) := by
            have hhead : WF m (⟨timer.expiration, e.second⟩ :: out) := he ▸ h
            refine hhead.store halloc (Timer.restart_sequence _ _) ?_
            rw [Timer.restart_recurring, Timer.restart_interval, h.recurring_eq halloc]
          have hnew : (m.store e.second (timer.restart now)).heap e.second =
              some (timer.restart now) := by simp [store]
          obtain ⟨m', hm', hwf, hreq⟩ := ih (hstored.attach hnew)
          refine ⟨m', ?_, hwf, ?_⟩
          · simp only [requeue, deref, halloc, hcond, not_false_eq_true, and_self, if_true,
              insert_eq hstored hnew, bind, Except.bind, hm']
          · apply Requeued.cons hne halloc _ _ _ _ _ _ hreq
            · rfl
            · rfl
            · rfl
            · intro q hq
              simp [attach, store, Function.update_of_ne hq]
            · simp [attach, store, hkeeps]
            · intro id hid
              simp only [attach, store, OrderedSet.mem_insert, or_iff_right_iff_imp]
              intro hsame
              exact absurd (congrArg TimerId.timer hsame) hid
      | false =>
          have hcond : ¬ (timer.recurring = true ∧
              (⟨e.second, timer.sequence⟩ : ActiveTimer) ∉ m.cancelingTimers) := by
            simpa [keeps] using hkeeps
          obtain ⟨m', hm', hwf, hreq⟩ := ih h.free
          refine ⟨m', ?_, hwf, ?_⟩
          · simp only [requeue, deref, halloc, if_neg hcond, bind, Except.bind, hm']
          · apply Requeued.cons hne halloc _ _ _ _ _ _ hreq
            · rfl
            · rfl
            · rfl
            · intro q hq
              simp [free, Function.update_of_ne hq]
            · simp [free, hkeeps]
            · intro id _
              rfl

/-- The timestamp `reset` hands to `resetTimerfd`. -/
def nextArm (m : TimerManger C D) : Option Timestamp :=
  (m.timers.front?.map Entry.first).filter Timestamp.valid

theorem reset_spec (now : Timestamp) (h : WF m out) :
    ∃ m', m.reset out now = .ok (m', m'.nextArm) ∧ WF m' [] ∧ Requeued now m m' out := by
  obtain ⟨m', hm', hwf, hreq⟩ := requeue_spec now h
  refine ⟨m', ?_, hwf, hreq⟩
  unfold reset nextArm
  rw [hm']
  cases hfront : m'.timers.front? with
  | none => simp [hfront, bind, Except.bind, pure, Except.pure, Timestamp.valid, Timestamp.invalid]
  | some e =>
      have hmem := (OrderedSet.front?_eq_some_iff.mp hfront).1
      obtain ⟨timer, halloc, hexp, -⟩ := (hwf.mem_timers e).mp hmem
      simp [hfront, deref, halloc, hexp, bind, Except.bind, pure, Except.pure, Except.map,
        Option.filter]

end TimerManger

end Qslary.Timers

import Qslary.Timers.Model

/-!
# The two indexes of the timer manager agree

`WF m out` is the invariant that survives the middle of `handleRead`: `timers_`
and `activeTimers_` list the same allocated timers, and every other allocated timer
is one of the detached entries `out` that a batch in progress holds.  Every
operation is a chain of five elementary moves (allocate, attach, detach, restart,
free), and each move has one preservation lemma.
-/

namespace Qslary.Timers

open Qslary.Foundation

variable {C D : Type} [Seconds D]

structure WF (m : TimerManger C D) (out : List Entry) : Prop where
  mem_timers : ∀ e : Entry, e ∈ m.timers ↔
    ∃ timer, m.heap e.second = some timer ∧ timer.expiration = e.first ∧
      (⟨e.second, timer.sequence⟩ : ActiveTimer) ∈ m.activeTimers
  active_alloc : ∀ id ∈ m.activeTimers,
    ∃ timer, m.heap id.timer = some timer ∧ timer.sequence = id.sequence
  addr_lt : ∀ {p timer}, m.heap p = some timer → p < uintptrMax
  sequence_le : ∀ {p timer}, m.heap p = some timer → timer.sequence ≤ m.numCreated
  sequence_inj : ∀ {p q timer timer'}, m.heap p = some timer → m.heap q = some timer' →
    timer.sequence = timer'.sequence → p = q
  recurring_eq : ∀ {p timer}, m.heap p = some timer →
    timer.recurring = Seconds.isPositive timer.interval
  out_nodup : (out.map Entry.second).Nodup
  mem_out : ∀ e ∈ out, ∃ timer, m.heap e.second = some timer ∧
    timer.expiration = e.first ∧ (⟨e.second, timer.sequence⟩ : ActiveTimer) ∉ m.activeTimers
  covered : ∀ {p timer}, m.heap p = some timer →
    (⟨p, timer.sequence⟩ : ActiveTimer) ∈ m.activeTimers ∨ (⟨timer.expiration, p⟩ : Entry) ∈ out

namespace TimerManger

/-! ## The elementary moves -/

def alloc (m : TimerManger C D) (p : Addr) (timer : Timer C D) : TimerManger C D :=
  { m.store p timer with numCreated := timer.sequence }

def attach (m : TimerManger C D) (p : Addr) (timer : Timer C D) : TimerManger C D :=
  { m with
    timers := m.timers.insert ⟨timer.expiration, p⟩
    activeTimers := m.activeTimers.insert ⟨p, timer.sequence⟩ }

def detach (m : TimerManger C D) (p : Addr) (timer : Timer C D) : TimerManger C D :=
  { m with
    timers := m.timers.erase ⟨timer.expiration, p⟩
    activeTimers := m.activeTimers.erase ⟨p, timer.sequence⟩ }

end TimerManger

namespace WF

variable {m : TimerManger C D} {out : List Entry} {p : Addr} {timer : Timer C D}

omit [Seconds D] in
private theorem map_timer_eq_map_second {m : TimerManger C D}
    (htimers : ∀ e : Entry, e ∈ m.timers ↔
      ∃ timer, m.heap e.second = some timer ∧ timer.expiration = e.first ∧
        (⟨e.second, timer.sequence⟩ : ActiveTimer) ∈ m.activeTimers)
    (hactive : ∀ id ∈ m.activeTimers,
      ∃ timer, m.heap id.timer = some timer ∧ timer.sequence = id.sequence) (p : Addr) :
    p ∈ m.timers.toList.map Entry.second ↔ p ∈ m.activeTimers.toList.map TimerId.timer := by
  simp only [List.mem_map, OrderedSet.mem_toList]
  constructor
  · rintro ⟨e, he, rfl⟩
    obtain ⟨timer, -, -, hmem⟩ := (htimers e).mp he
    exact ⟨_, hmem, rfl⟩
  · rintro ⟨id, hid, rfl⟩
    obtain ⟨timer, halloc, hseq⟩ := hactive id hid
    refine ⟨⟨timer.expiration, id.timer⟩, (htimers _).mpr ⟨timer, halloc, rfl, ?_⟩, rfl⟩
    rw [hseq]
    exact hid

/-- Both sets list one element for each waiting timer, so they have one size. -/
theorem sizes_eq (h : WF m out) : m.timers.size = m.activeTimers.size := by
  have hsecond : (m.timers.toList.map Entry.second).Nodup := by
    apply List.Nodup.map_on _ m.timers.nodup
    intro a ha b hb hab
    obtain ⟨timer, halloc, hexp, -⟩ := (h.mem_timers a).mp ha
    obtain ⟨timer', halloc', hexp', -⟩ := (h.mem_timers b).mp hb
    rw [hab, halloc'] at halloc
    cases halloc
    cases a
    cases b
    simp_all
  have htimer : (m.activeTimers.toList.map TimerId.timer).Nodup := by
    apply List.Nodup.map_on _ m.activeTimers.nodup
    intro a ha b hb hab
    obtain ⟨timer, halloc, hseq⟩ := h.active_alloc a ha
    obtain ⟨timer', halloc', hseq'⟩ := h.active_alloc b hb
    rw [hab, halloc'] at halloc
    cases halloc
    cases a
    cases b
    simp_all
  have hperm := (List.perm_ext_iff_of_nodup hsecond htimer).mpr
    (map_timer_eq_map_second h.mem_timers h.active_alloc)
  simpa [OrderedSet.size] using hperm.length_eq

theorem assertSizes_eq (h : WF m out) : m.assertSizes = .ok () := by
  simp [TimerManger.assertSizes, check, h.sizes_eq]

/-- Only the heap, the creation count and the two indexes matter. -/
theorem of_eq {m' : TimerManger C D} (h : WF m out) (hheap : m'.heap = m.heap)
    (hcreated : m'.numCreated = m.numCreated) (htimers : m'.timers = m.timers)
    (hactive : m'.activeTimers = m.activeTimers) : WF m' out := by
  obtain ⟨heap, created, timers, active, calling, canceling⟩ := m
  obtain ⟨heap', created', timers', active', calling', canceling'⟩ := m'
  simp only at hheap hcreated htimers hactive
  subst hheap hcreated htimers hactive
  exact ⟨h.mem_timers, h.active_alloc, h.addr_lt, h.sequence_le, h.sequence_inj,
    h.recurring_eq, h.out_nodup, h.mem_out, h.covered⟩

theorem mem_timers_of_active (h : WF m out) (halloc : m.heap p = some timer)
    (hactive : (⟨p, timer.sequence⟩ : ActiveTimer) ∈ m.activeTimers) :
    (⟨timer.expiration, p⟩ : Entry) ∈ m.timers :=
  (h.mem_timers _).mpr ⟨timer, halloc, rfl, hactive⟩

theorem second_ne_of_free (h : WF m out) (hfree : m.heap p = none) :
    ∀ e ∈ out, e.second ≠ p := by
  rintro e he rfl
  obtain ⟨timer, halloc, -⟩ := h.mem_out e he
  rw [hfree] at halloc
  cases halloc

theorem active_ne_of_free (h : WF m out) (hfree : m.heap p = none) :
    ∀ id ∈ m.activeTimers, id.timer ≠ p := by
  rintro id hid rfl
  obtain ⟨timer, halloc, -⟩ := h.active_alloc id hid
  rw [hfree] at halloc
  cases halloc

/-- The address of a detached timer is the address of no waiting one. -/
theorem active_ne_of_out {e : Entry} (h : WF m out) (he : e ∈ out) :
    ∀ id ∈ m.activeTimers, id.timer ≠ e.second := by
  intro id hid hide
  obtain ⟨timer, halloc, -, hnot⟩ := h.mem_out e he
  obtain ⟨other, hother, hseq⟩ := h.active_alloc id hid
  rw [hide, halloc] at hother
  cases hother
  rw [← hide, hseq] at hnot
  exact hnot hid

/-! ## A heap that changes at one address only

Both indexes survive it as long as no waiting timer lives there. -/

section Frame

variable {heap' : Addr → Option (Timer C D)}

theorem mem_timers_of_agree (h : WF m out) (hold : ∀ {q}, q ≠ p → heap' q = m.heap q)
    (hactive : ∀ id ∈ m.activeTimers, id.timer ≠ p) (e : Entry) :
    e ∈ m.timers ↔ ∃ timer, heap' e.second = some timer ∧ timer.expiration = e.first ∧
      (⟨e.second, timer.sequence⟩ : ActiveTimer) ∈ m.activeTimers := by
  rw [h.mem_timers e]
  by_cases he : e.second = p
  · constructor
    · rintro ⟨other, -, -, hmem⟩
      exact absurd he (hactive _ hmem)
    · rintro ⟨other, -, -, hmem⟩
      exact absurd he (hactive _ hmem)
  · rw [hold he]

theorem active_alloc_of_agree (h : WF m out) (hold : ∀ {q}, q ≠ p → heap' q = m.heap q)
    (hactive : ∀ id ∈ m.activeTimers, id.timer ≠ p) :
    ∀ id ∈ m.activeTimers, ∃ timer, heap' id.timer = some timer ∧
      timer.sequence = id.sequence := by
  intro id hid
  rw [hold (hactive id hid)]
  exact h.active_alloc id hid

end Frame

theorem alloc (h : WF m out) (hfree : m.heap p = none) (hp : p < uintptrMax)
    (hseq : timer.sequence = m.numCreated + 1)
    (hrec : timer.recurring = Seconds.isPositive timer.interval) :
    WF (m.alloc p timer) (⟨timer.expiration, p⟩ :: out) := by
  have hout := h.second_ne_of_free hfree
  have hactive := h.active_ne_of_free hfree
  have hnew : (m.alloc p timer).heap p = some timer := by
    simp [TimerManger.alloc, TimerManger.store]
  have hold : ∀ {q}, q ≠ p → (m.alloc p timer).heap q = m.heap q := fun hq => by
    simp [TimerManger.alloc, TimerManger.store, Function.update_of_ne hq]
  constructor
  · exact h.mem_timers_of_agree hold hactive
  · exact h.active_alloc_of_agree hold hactive
  · intro q other hq
    by_cases hqp : q = p
    · exact hqp ▸ hp
    · exact h.addr_lt (hold hqp ▸ hq)
  · intro q other hq
    change other.sequence ≤ timer.sequence
    by_cases hqp : q = p
    · subst hqp
      rw [hnew] at hq
      cases hq
      exact le_refl _
    · have := h.sequence_le (hold hqp ▸ hq)
      omega
  · intro q r first second hq hr hsame
    by_cases hqp : q = p <;> by_cases hrp : r = p
    · rw [hqp, hrp]
    · subst hqp
      rw [hnew] at hq
      cases hq
      have := h.sequence_le (hold hrp ▸ hr)
      omega
    · subst hrp
      rw [hnew] at hr
      cases hr
      have := h.sequence_le (hold hqp ▸ hq)
      omega
    · exact h.sequence_inj (hold hqp ▸ hq) (hold hrp ▸ hr) hsame
  · intro q other hq
    by_cases hqp : q = p
    · subst hqp
      rw [hnew] at hq
      cases hq
      exact hrec
    · exact h.recurring_eq (hold hqp ▸ hq)
  · rw [List.map_cons, List.nodup_cons]
    refine ⟨fun hmem => ?_, h.out_nodup⟩
    obtain ⟨e, he, hep⟩ := List.mem_map.mp hmem
    exact hout e he hep
  · intro e he
    rcases List.mem_cons.mp he with rfl | he
    · exact ⟨timer, hnew, rfl, fun hmem => hactive _ hmem rfl⟩
    · obtain ⟨other, halloc, hexp, hnot⟩ := h.mem_out e he
      exact ⟨other, by rw [hold (hout e he), halloc], hexp, hnot⟩
  · intro q other hq
    by_cases hqp : q = p
    · subst hqp
      rw [hnew] at hq
      cases hq
      exact Or.inr List.mem_cons_self
    · rcases h.covered (hold hqp ▸ hq) with hmem | hmem
      · exact Or.inl hmem
      · exact Or.inr (List.mem_cons_of_mem _ hmem)

theorem attach (h : WF m (⟨timer.expiration, p⟩ :: out)) (halloc : m.heap p = some timer) :
    WF (m.attach p timer) out := by
  have hnodup := List.nodup_cons.mp (List.map_cons ▸ h.out_nodup)
  constructor
  · intro e
    simp only [TimerManger.attach, OrderedSet.mem_insert, h.mem_timers e]
    constructor
    · rintro (rfl | ⟨other, hother, hexp, hmem⟩)
      · exact ⟨timer, halloc, rfl, Or.inl rfl⟩
      · exact ⟨other, hother, hexp, Or.inr hmem⟩
    · rintro ⟨other, hother, hexp, hsame | hmem⟩
      · have hep : e.second = p := congrArg TimerId.timer hsame
        rw [hep, halloc] at hother
        cases hother
        left
        cases e
        simp_all
      · exact Or.inr ⟨other, hother, hexp, hmem⟩
  · intro id hid
    simp only [TimerManger.attach, OrderedSet.mem_insert] at hid
    rcases hid with rfl | hid
    · exact ⟨timer, halloc, rfl⟩
    · exact h.active_alloc id hid
  · exact h.addr_lt
  · exact h.sequence_le
  · exact h.sequence_inj
  · exact h.recurring_eq
  · exact hnodup.2
  · intro e he
    obtain ⟨other, hother, hexp, hnot⟩ := h.mem_out e (List.mem_cons_of_mem _ he)
    refine ⟨other, hother, hexp, ?_⟩
    simp only [TimerManger.attach, OrderedSet.mem_insert, not_or]
    refine ⟨fun hsame => hnodup.1 ?_, hnot⟩
    exact List.mem_map.mpr ⟨e, he, congrArg TimerId.timer hsame⟩
  · intro q other hother
    simp only [TimerManger.attach, OrderedSet.mem_insert]
    rcases h.covered hother with hmem | hmem
    · exact Or.inl (Or.inr hmem)
    · rcases List.mem_cons.mp hmem with hsame | hmem
      · have hqp : q = p := congrArg Entry.second hsame
        subst hqp
        change m.heap q = some other at hother
        rw [halloc] at hother
        cases hother
        exact Or.inl (Or.inl rfl)
      · exact Or.inr hmem

theorem detach (h : WF m out) (halloc : m.heap p = some timer)
    (hactive : (⟨p, timer.sequence⟩ : ActiveTimer) ∈ m.activeTimers) :
    WF (m.detach p timer) (⟨timer.expiration, p⟩ :: out) := by
  constructor
  · intro e
    simp only [TimerManger.detach, OrderedSet.mem_erase, h.mem_timers e]
    constructor
    · rintro ⟨hne, other, hother, hexp, hmem⟩
      refine ⟨other, hother, hexp, fun hsame => hne ?_, hmem⟩
      have hep : e.second = p := congrArg TimerId.timer hsame
      rw [hep, halloc] at hother
      cases hother
      cases e
      simp_all
    · rintro ⟨other, hother, hexp, hne, hmem⟩
      refine ⟨?_, other, hother, hexp, hmem⟩
      rintro rfl
      rw [halloc] at hother
      cases hother
      exact hne rfl
  · intro id hid
    exact h.active_alloc id (OrderedSet.mem_erase.mp hid).2
  · exact h.addr_lt
  · exact h.sequence_le
  · exact h.sequence_inj
  · exact h.recurring_eq
  · rw [List.map_cons, List.nodup_cons]
    refine ⟨fun hmem => ?_, h.out_nodup⟩
    obtain ⟨e, he, hep⟩ := List.mem_map.mp hmem
    obtain ⟨other, hother, -, hnot⟩ := h.mem_out e he
    change e.second = p at hep
    rw [hep, halloc] at hother
    cases hother
    rw [hep] at hnot
    exact hnot hactive
  · intro e he
    simp only [TimerManger.detach, OrderedSet.mem_erase, not_and]
    rcases List.mem_cons.mp he with rfl | he
    · exact ⟨timer, halloc, rfl, fun hne => absurd rfl hne⟩
    · obtain ⟨other, hother, hexp, hnot⟩ := h.mem_out e he
      exact ⟨other, hother, hexp, fun _ => hnot⟩
  · intro q other hother
    simp only [TimerManger.detach, OrderedSet.mem_erase]
    rcases h.covered hother with hmem | hmem
    · by_cases hqp : q = p
      · subst hqp
        change m.heap q = some other at hother
        rw [halloc] at hother
        cases hother
        exact Or.inr List.mem_cons_self
      · exact Or.inl ⟨fun hsame => hqp (congrArg TimerId.timer hsame), hmem⟩
    · exact Or.inr (List.mem_cons_of_mem _ hmem)

/-- Rewriting the expiration of a detached timer moves no key of either set. -/
theorem store {timer' : Timer C D} (h : WF m (⟨timer.expiration, p⟩ :: out))
    (halloc : m.heap p = some timer) (hseq : timer'.sequence = timer.sequence)
    (hrec : timer'.recurring = Seconds.isPositive timer'.interval) :
    WF (m.store p timer') (⟨timer'.expiration, p⟩ :: out) := by
  have hnodup := List.nodup_cons.mp (List.map_cons ▸ h.out_nodup)
  have hnew : (m.store p timer').heap p = some timer' := by simp [TimerManger.store]
  have hold : ∀ {q}, q ≠ p → (m.store p timer').heap q = m.heap q := fun hq => by
    simp [TimerManger.store, Function.update_of_ne hq]
  have hseqOf : ∀ {q other}, (m.store p timer').heap q = some other →
      ∃ before, m.heap q = some before ∧ before.sequence = other.sequence := by
    intro q other hq
    by_cases hqp : q = p
    · subst hqp
      rw [hnew] at hq
      cases hq
      exact ⟨timer, halloc, hseq.symm⟩
    · exact ⟨other, hold hqp ▸ hq, rfl⟩
  have hactive := h.active_ne_of_out List.mem_cons_self
  constructor
  · exact h.mem_timers_of_agree hold hactive
  · exact h.active_alloc_of_agree hold hactive
  · intro q other hq
    obtain ⟨before, hbefore, -⟩ := hseqOf hq
    exact h.addr_lt hbefore
  · intro q other hq
    obtain ⟨before, hbefore, hbseq⟩ := hseqOf hq
    exact hbseq ▸ h.sequence_le hbefore
  · intro q r first second hq hr heq
    obtain ⟨before, hbefore, hbseq⟩ := hseqOf hq
    obtain ⟨before', hbefore', hbseq'⟩ := hseqOf hr
    exact h.sequence_inj hbefore hbefore' (by rw [hbseq, hbseq', heq])
  · intro q other hq
    by_cases hqp : q = p
    · subst hqp
      rw [hnew] at hq
      cases hq
      exact hrec
    · exact h.recurring_eq (hold hqp ▸ hq)
  · rw [List.map_cons, List.nodup_cons]
    exact hnodup
  · intro e he
    rcases List.mem_cons.mp he with rfl | he
    · exact ⟨timer', hnew, rfl, fun hmem => hactive _ hmem rfl⟩
    · obtain ⟨other, hother, hexp, hnot⟩ := h.mem_out e (List.mem_cons_of_mem _ he)
      have hep : e.second ≠ p := fun hep => hnodup.1 (List.mem_map.mpr ⟨e, he, hep⟩)
      exact ⟨other, by rw [hold hep, hother], hexp, hnot⟩
  · intro q other hq
    by_cases hqp : q = p
    · subst hqp
      rw [hnew] at hq
      cases hq
      exact Or.inr List.mem_cons_self
    · rcases h.covered (hold hqp ▸ hq) with hmem | hmem
      · exact Or.inl hmem
      · rcases List.mem_cons.mp hmem with hsame | hmem
        · exact absurd (congrArg Entry.second hsame) hqp
        · exact Or.inr (List.mem_cons_of_mem _ hmem)

theorem free {e : Entry} (h : WF m (e :: out)) : WF (m.free e.second) out := by
  have hnodup := List.nodup_cons.mp (List.map_cons ▸ h.out_nodup)
  have hkept : ∀ {q other}, (m.free e.second).heap q = some other →
      q ≠ e.second ∧ m.heap q = some other := by
    intro q other hq
    by_cases hqp : q = e.second
    · subst hqp
      simp [TimerManger.free] at hq
    · exact ⟨hqp, by simpa [TimerManger.free, Function.update_of_ne hqp] using hq⟩
  have hold : ∀ {q}, q ≠ e.second → (m.free e.second).heap q = m.heap q := fun hq => by
    simp [TimerManger.free, Function.update_of_ne hq]
  have hactive := h.active_ne_of_out List.mem_cons_self
  constructor
  · exact h.mem_timers_of_agree hold hactive
  · exact h.active_alloc_of_agree hold hactive
  · intro q other hq
    exact h.addr_lt (hkept hq).2
  · intro q other hq
    exact h.sequence_le (hkept hq).2
  · intro q r first second hq hr heq
    exact h.sequence_inj (hkept hq).2 (hkept hr).2 heq
  · intro q other hq
    exact h.recurring_eq (hkept hq).2
  · exact hnodup.2
  · intro f hf
    obtain ⟨other, hother, hexp, hnot⟩ := h.mem_out f (List.mem_cons_of_mem _ hf)
    have hfe : f.second ≠ e.second := fun hfe => hnodup.1 (List.mem_map.mpr ⟨f, hf, hfe⟩)
    exact ⟨other, by rw [hold hfe, hother], hexp, hnot⟩
  · intro q other hq
    obtain ⟨hqe, hq⟩ := hkept hq
    rcases h.covered hq with hmem | hmem
    · exact Or.inl hmem
    · rcases List.mem_cons.mp hmem with hsame | hmem
      · exact absurd (congrArg Entry.second hsame) hqe
      · exact Or.inr hmem

end WF

end Qslary.Timers

import Qslary.Sync.MutexLock

/-!
# `CountDownLatch`

Any number of threads call `wait`, `countDown` and `getCount` in any order.  Nobody gets
through `wait` before the count is down, and then nobody is left behind.
-/

namespace Qslary.Sync

open Qslary.Foundation Qslary.Foundation.Monitor

/-- The places of `wait`, `countDown` and `getCount`. -/
inductive LatchPc where
  | waitLock
  | waitTest
  | waitSleep
  | waitUnlock
  | downLock
  | downDecrement
  | downTest
  | downNotify
  | downUnlock
  | countLock
  | countRead
  | countUnlock
  deriving DecidableEq

/-- An `int` that is part of a value. -/
structure Field (V : Type*) where
  get : V → Int
  set : Int → V → V

namespace CountDownLatch

variable {W V L : Type*}

/-- The code of the three functions at the places `at_`, which return to `back`. -/
def instr (m_count : Field V) (at_ : LatchPc → L) (back : L) : LatchPc → Instr V L
  | .waitLock => .lock (at_ .waitTest)
  | .waitTest => .act fun v =>
      some (v, if m_count.get v > 0 then at_ .waitSleep else at_ .waitUnlock)
  | .waitSleep => .wait (at_ .waitTest)
  | .waitUnlock => .unlock back
  | .downLock => .lock (at_ .downDecrement)
  | .downDecrement => .act fun v =>
      -- `--m_count` overflows below the least `int`
      if m_count.get v = -2 ^ 31 then none
      else some (m_count.set (m_count.get v - 1) v, at_ .downTest)
  | .downTest => .act fun v =>
      some (v, if m_count.get v = 0 then at_ .downNotify else at_ .downUnlock)
  | .downNotify => .notifyAll (at_ .downUnlock)
  | .downUnlock => .unlock back
  | .countLock => .lock (at_ .countRead)
  | .countRead => .act fun v => some (v, at_ .countUnlock)
  | .countUnlock => .unlock back

/-- Threads that call the functions again and again; between calls a thread is nowhere. -/
def callers (_ : W) : Option LatchPc → Instr Int (Option LatchPc)
  | none => .choose fun pc => pc = some .waitLock || pc = some .downLock || pc = some .countLock
  | some pc => instr ⟨id, fun n _ => n⟩ some none pc

def holds : LatchPc → Bool
  | .waitLock | .downLock | .countLock => false
  | _ => true

def callersHold (_ : W) (pc : Option LatchPc) : Bool := pc.any holds

/-- What is known of the count. -/
def Counted (_ : W) : Option LatchPc → Int → Prop
  | some .waitSleep, n => 0 < n
  | some .waitUnlock, n => n ≤ 0
  | some .downNotify, n => n = 0
  | _, _ => True

/-- Sleepers are woken by who has counted down to zero. -/
def Owes (_ : W) : Option LatchPc → Int → Prop
  | some .downTest, n | some .downNotify, n => n = 0
  | _, _ => False

/-- Wherever the code of the functions is put. -/
theorem instr_respects {m_count : Field V} {at_ : LatchPc → L} {back : L} {held : L → Bool}
    (hat : ∀ pc, held (at_ pc) = holds pc) (hback : held back = false) (pc : LatchPc) :
    (instr m_count at_ back pc).Respects held (at_ pc) := by
  cases pc with
  | waitTest | downTest =>
      simp only [instr, Instr.Respects]
      intro v v' next hact
      cases hact
      split <;> simp [hat, holds]
  | downDecrement =>
      simp only [instr, Instr.Respects]
      intro v v' next hact
      split at hact
      · cases hact
      · cases hact
        simp [hat, holds]
  | countRead =>
      simp only [instr, Instr.Respects]
      intro v v' next hact
      cases hact
      simp [hat, holds]
  | _ => simp [instr, Instr.Respects, hat, hback, holds]

theorem disciplined : Disciplined (W := W) callers callersHold := by
  rintro w (_ | pc)
  · simp only [callers, Instr.Respects]
    rintro next hnext
    simp only [Bool.or_eq_true, decide_eq_true_eq] at hnext
    rcases hnext with (rfl | rfl) | rfl <;> rfl
  · have hat : ∀ pc, callersHold w (some pc) = holds pc := fun _ => rfl
    exact instr_respects hat rfl pc

/-- The count is read and written with the mutex held. -/
theorem holds_of_act {w : W} {pc : Option LatchPc} {f : Int → Option (Int × Option LatchPc)}
    (h : callers w pc = .act f) : callersHold w pc = true := by
  cases pc with
  | none => cases h
  | some pc => cases pc <;> simp [callers, instr, callersHold, holds] at h ⊢

theorem counted_of_out {w : W} {pc : Option LatchPc} (h : callersHold w pc = false) (n : Int) :
    Counted w pc n := by
  cases pc with
  | none => trivial
  | some pc => cases pc <;> simp [callersHold, holds, Counted] at h ⊢

theorem outline : Outline (W := W) callers callersHold (fun _ => True) Counted where
  disciplined := disciplined
  proved := by
    rintro w (_ | pc)
    · simp only [callers, Instr.Proved]
      rintro next n hnext -
      simp only [Bool.or_eq_true, decide_eq_true_eq] at hnext
      rcases hnext with (rfl | rfl) | rfl <;> trivial
    · cases pc with
      | waitTest | downTest =>
          simp only [callers, instr, Instr.Proved]
          intro v v' next hact _
          cases hact
          split <;> simp_all [Counted]
      | downDecrement =>
          simp only [callers, instr, Instr.Proved]
          intro v v' next hact _
          split at hact
          · cases hact
          · cases hact
            simp [Counted]
      | _ => simp [callers, instr, Instr.Proved, Counted]
  stable := by
    intro w pc f v v' next hact hf hv u other hne hapart hu
    rcases hapart with hout | hout
    · exact absurd (hout.symm.trans (holds_of_act hact)) Bool.false_ne_true
    · exact counted_of_out hout v'

theorem serves : Serves (W := W) callers callersHold Counted (fun n => 0 < n) Owes where
  unlock := by
    rintro w (_ | pc) v next hinstr hv
    · cases hinstr
    · cases pc <;> simp [callers, instr, Owes] at hinstr ⊢
  wait := by
    rintro w (_ | pc) v next hinstr hv
    · cases hinstr
    · cases pc <;> simp_all [callers, instr, Counted]
  notify := by
    rintro w (_ | pc) next hinstr
    · cases hinstr
    · cases pc <;> simp [callers, instr] at hinstr
  act := by
    rintro w (_ | pc) f v v' next hinstr hf hv hheld h
    · cases hinstr
    · cases pc with
      | waitTest | countRead =>
          simp only [callers, instr, Instr.act.injEq] at hinstr
          subst hinstr
          cases hf
          simp_all [Owes]
      | downTest =>
          simp only [callers, instr, Instr.act.injEq] at hinstr
          subst hinstr
          cases hf
          refine h.imp_right fun hzero => ?_
          rw [Owes] at hzero
          simp [hzero, Owes]
      | downDecrement =>
          simp only [callers, instr, Instr.act.injEq, id_eq] at hinstr
          subst hinstr
          dsimp only at hf
          split at hf
          · cases hf
          · cases hf
            simp only [Owes, or_false] at h ⊢
            omega
      | _ => simp [callers, instr] at hinstr
  apart := by
    intro w pc f v v' next hinstr hf hv hout
    exact absurd (hout.symm.trans (holds_of_act hinstr)) nofun
  choose := by
    rintro w (_ | pc) v targets next hinstr hnext howes
    · exact howes.elim
    · cases pc <;> simp [callers, instr] at hinstr

section

variable [DecidableEq W] {tid : W → Int} {count : Int} {acts : List (Act W (Option LatchPc × Done))}
  {s s' : State W (Locked Int) (Option LatchPc × Done)}

/-- The latch as its users see it. -/
theorem client_of_run
    (hrun : (machine (MutexLock.code tid callers)).run (MutexLock.start (fun _ => none) count)
      acts = some s) :
    Valid callers callersHold (fun _ => True) Counted (MutexLock.seen callers s) ∧
      Attended (fun n => 0 < n) Owes (MutexLock.seen callers s) := by
  obtain ⟨acts', hclient⟩ := MutexLock.reachable_seen hrun
  have hstart : Valid (W := W) callers callersHold (fun _ => True) Counted
      ⟨fun _ => none, none, [], [], count⟩ :=
    valid_start (fun _ => rfl) (fun _ => trivial) trivial
  have hattended : Attended (W := W) (fun n => 0 < n) Owes
      ⟨fun _ => (none : Option LatchPc), none, [], [], count⟩ := nofun
  exact ⟨outline.valid hstart hclient, outline.attended serves hstart hattended hclient⟩

omit [DecidableEq W] in
theorem count_le_of_act {w : W} {pc next : Option LatchPc} {f : Int → Option (Int × Option LatchPc)}
    {n n' : Int} (hact : callers w pc = .act f) (hf : f n = some (n', next)) : n' ≤ n := by
  cases pc with
  | none => cases hact
  | some pc =>
      cases pc with
      | waitTest | downTest | countRead =>
          simp only [callers, instr, Instr.act.injEq] at hact
          subst hact
          cases hf
          exact le_refl _
      | downDecrement =>
          simp only [callers, instr, Instr.act.injEq, id_eq] at hact
          subst hact
          dsimp only at hf
          split at hf
          · cases hf
          · cases hf
            omega
      | _ => simp [callers, instr] at hact

omit [DecidableEq W] in
theorem choose_out {w : W} {pc : Option LatchPc} {targets : Option LatchPc → Bool}
    (h : callers w pc = .choose targets) : callersHold w pc = false := by
  cases pc with
  | none => rfl
  | some pc => cases pc <;> cases h

omit [DecidableEq W] in
theorem act_ne_none {w : W} {pc : Option LatchPc} {f : Int → Option (Int × Option LatchPc)}
    {n : Int} (hact : callers w pc = .act f) (hn : n ≠ -2 ^ 31) : f n ≠ none := by
  cases pc with
  | none => cases hact
  | some pc =>
      cases pc <;> simp only [callers, instr, Instr.act.injEq, id_eq, reduceCtorEq] at hact
      all_goals subst hact
      case downDecrement => simpa using hn
      all_goals simp

theorem count_le {acts' : List (Act W (Option LatchPc × Done))}
    (hrun : (machine (MutexLock.code tid callers)).run s acts' = some s') :
    s'.value.data ≤ s.value.data := by
  obtain ⟨acts, hclient⟩ := MutexLock.reachable_seen hrun
  have hstep : ∀ {t a t'}, t.value ≤ s.value.data →
      (machine (W := W) callers).step t a = some t' → t'.value ≤ s.value.data := by
    intro t a t' hle hstep
    cases steps_of_step hstep with
    | act hw hinstr hf => exact (count_le_of_act hinstr hf).trans hle
    | _ => exact hle
  exact Machine.run_invariant hstep (le_refl s.value.data) hclient

/-- A `wait` returns when the count is down, and from then on; while the mutex is free nobody
sleeps then, and as long as the count is an `int` no call hangs. -/
theorem latch_exact
    (hrun : (machine (MutexLock.code tid callers)).run (MutexLock.start (fun _ => none) count)
      acts = some s) :
    (∀ w, (s.pc w).1 = some .waitUnlock → s.value.data ≤ 0) ∧
      (∀ acts' s', (machine (MutexLock.code tid callers)).run s acts' = some s' →
        s'.value.data ≤ s.value.data) ∧
      (s.holder = none → ∀ w ∈ s.sleeping, 0 < s.value.data) ∧
      (s.value.data ≠ -2 ^ 31 → ∀ w, s.pc w ≠ (none, .none) →
        w ∉ s.sleeping ∨ s.value.data ≤ 0 →
        ∃ a s', a.Works ∧ (machine (MutexLock.code tid callers)).step s a = some s') := by
  obtain ⟨hvalid, hattended⟩ := client_of_run hrun
  have hsource := MutexLock.valid_of_run disciplined (fun _ => rfl) hrun
  have hasleep : s.holder = none → ∀ w ∈ s.sleeping, 0 < s.value.data :=
    fun hfree w hw => hattended.of_free hfree hw
  refine ⟨fun w hw => ?_, fun acts' s' hrun' => count_le hrun', hasleep, fun hint w hbusy hawake => ?_⟩
  · have hplace : (MutexLock.seen callers s).pc w = some .waitUnlock := by
      change MutexLock.view callers w (s.pc w) = _
      rw [show s.pc w = (some .waitUnlock, (s.pc w).2) from Prod.ext hw rfl]
      cases (s.pc w).2 <;> rfl
    have hrunning : (MutexLock.seen callers s).Running w := by
      intro haway
      obtain ⟨next, hinstr⟩ := hvalid.waits w haway
      rw [hplace] at hinstr
      cases hinstr
    have hhere := hvalid.here w hrunning
    rw [hplace] at hhere
    exact hhere
  · have hacts : ∀ {w g}, s.Running w → callers w (s.pc w).1 = .act g → (s.pc w).2 = .none →
        g s.value.data ≠ none :=
      fun _ hact _ => act_ne_none hact hint
    by_cases hw : w ∈ s.sleeping
    · have hdown := hawake.resolve_left (not_not_intro hw)
      cases hholder : s.holder with
      | none => exact absurd (hasleep hholder w hw) (by omega)
      | some u =>
          exact MutexLock.progress_of_held disciplined hsource.toSound choose_out hacts hholder
    · refine MutexLock.progress disciplined hsource.toSound choose_out hacts hw ?_
      intro targets hchoose hnone
      cases hplace : (s.pc w).1 with
      | none => exact hbusy (Prod.ext hplace hnone)
      | some pc =>
          rw [hplace] at hchoose
          cases pc <;> cases hchoose

/-- One thread waits until the other has counted down. -/
def waitForOne : List (Act Bool (Option LatchPc × Done)) :=
  .jump true (some .waitLock, .none) :: List.replicate 5 (.step true) ++
    .jump false (some .downLock, .none) :: List.replicate 7 (.step false) ++
    [.resume true, .step true, .step true]

theorem latch_exact_waitForOne :
    ∃ s, (machine (MutexLock.code (fun w : Bool => if w then 2 else 1) callers)).run
        (MutexLock.start (fun _ => none) 1) waitForOne = some s ∧
      (s.pc true).1 = some .waitUnlock ∧ s.value.data ≤ 0 := by
  cases hrun : (machine (MutexLock.code (fun w : Bool => if w then 2 else 1) callers)).run
      (MutexLock.start (fun _ => none) 1) waitForOne with
  | none =>
      have hsome : ((machine (MutexLock.code (fun w : Bool => if w then 2 else 1) callers)).run
          (MutexLock.start (fun _ => none) 1) waitForOne).isSome = true := by
        decide +kernel
      rw [hrun] at hsome
      cases hsome
  | some s =>
      have hplace : ((machine (MutexLock.code (fun w : Bool => if w then 2 else 1) callers)).run
          (MutexLock.start (fun _ => none) 1) waitForOne).map (fun s => (s.pc true).1) =
            some (some .waitUnlock) := by
        decide +kernel
      rw [hrun] at hplace
      have hwait := Option.some.inj hplace
      exact ⟨s, rfl, hwait, (latch_exact hrun).1 true hwait⟩

end

end CountDownLatch

end Qslary.Sync

import Mathlib.Data.List.Nodup
import Qslary.Foundation.Transition

/-!
# Programs over a mutex and a condition

Threads go through flowcharts whose instructions take and give back one mutex, wait on a
condition of it, and act on a value.  The rules below annotate the places of the flowcharts
and conclude from each instruction what holds in every state of every interleaving.
-/

namespace Qslary.Foundation.Monitor

variable {W V L : Type*}

/-- The instruction at a place, with the place behind it; an act that is `none` fails, and at a
choice the thread goes on at any of the targets. -/
inductive Instr (V L : Type*) where
  | lock (next : L)
  | unlock (next : L)
  | wait (next : L)
  | notify (next : L)
  | notifyAll (next : L)
  | act (f : V → Option (V × L))
  | choose (targets : L → Bool)

/-- Threads that wait are asleep, or woken and on their way back to the mutex. -/
structure State (W V L : Type*) where
  pc : W → L
  holder : Option W
  sleeping : List W
  woken : List W
  value : V

inductive Act (W L : Type*) where
  | step (w : W)
  | jump (w : W) (target : L)
  | signal (w u : W)
  | wake (u : W)
  | resume (w : W)

/-- A thread goes on in its code, which neither a choice nor a spurious wakeup does. -/
def Act.Works : Act W L → Prop
  | .jump _ _ | .wake _ => False
  | _ => True

inductive Fault where
  | notHolder
  | failed
  deriving DecidableEq

def State.away (s : State W V L) : List W := s.sleeping ++ s.woken

def State.Running (s : State W V L) (w : W) : Prop := w ∉ s.away

variable [DecidableEq W]

instance (s : State W V L) (w : W) : Decidable (s.Running w) :=
  inferInstanceAs (Decidable (¬ _))

def State.goto (s : State W V L) (w : W) (next : L) : State W V L :=
  { s with pc := Function.update s.pc w next }

section

variable (code : W → L → Instr V L)

def enabled (s : State W V L) : Act W L → Bool
  | .step w => decide (s.Running w) && match code w (s.pc w) with
      | .lock _ => s.holder.isNone
      | .notify _ => s.sleeping.isEmpty
      | .choose _ => false
      | _ => true
  | .jump w target => decide (s.Running w) && match code w (s.pc w) with
      | .choose targets => targets target
      | _ => false
  | .signal w u => decide (s.Running w) && decide (u ∈ s.sleeping) &&
      match code w (s.pc w) with
      | .notify _ => true
      | _ => false
  | .wake u => decide (u ∈ s.sleeping)
  | .resume w => decide (w ∈ s.woken) && s.holder.isNone && match code w (s.pc w) with
      | .wait _ => true
      | _ => false

def exec (s : State W V L) : Act W L → Except Fault (State W V L)
  | .step w =>
      match code w (s.pc w) with
      | .lock next => .ok { s.goto w next with holder := some w }
      | .unlock next =>
          if s.holder = some w then .ok { s.goto w next with holder := none }
          else .error .notHolder
      | .wait _ =>
          if s.holder = some w then .ok { s with holder := none, sleeping := w :: s.sleeping }
          else .error .notHolder
      | .notify next => .ok (s.goto w next)
      | .notifyAll next =>
          .ok { s.goto w next with sleeping := [], woken := s.sleeping ++ s.woken }
      | .act f =>
          match f s.value with
          | none => .error .failed
          | some (v, next) => .ok { s.goto w next with value := v }
      | .choose _ => .ok s
  | .jump w target => .ok (s.goto w target)
  | .signal w u =>
      match code w (s.pc w) with
      | .notify next =>
          .ok { s.goto w next with sleeping := s.sleeping.erase u, woken := u :: s.woken }
      | _ => .ok s
  | .wake u => .ok { s with sleeping := s.sleeping.erase u, woken := u :: s.woken }
  | .resume w =>
      match code w (s.pc w) with
      | .wait next => .ok { s.goto w next with woken := s.woken.erase w, holder := some w }
      | _ => .ok s

def machine : Machine (State W V L) (Act W L) Fault := ⟨enabled code, exec code⟩

/-! ## Steps -/

/-- What a step can do. -/
inductive Steps (s : State W V L) : State W V L → Prop where
  | lock {w : W} {next : L} : s.Running w → code w (s.pc w) = .lock next → s.holder = none →
      Steps s { s.goto w next with holder := some w }
  | unlock {w : W} {next : L} : s.Running w → code w (s.pc w) = .unlock next →
      s.holder = some w → Steps s { s.goto w next with holder := none }
  | wait {w : W} {next : L} : s.Running w → code w (s.pc w) = .wait next → s.holder = some w →
      Steps s { s with holder := none, sleeping := w :: s.sleeping }
  | notify {w : W} {next : L} : s.Running w → code w (s.pc w) = .notify next →
      s.sleeping = [] → Steps s (s.goto w next)
  | signal {w u : W} {next : L} : s.Running w → code w (s.pc w) = .notify next →
      u ∈ s.sleeping →
        Steps s { s.goto w next with sleeping := s.sleeping.erase u, woken := u :: s.woken }
  | notifyAll {w : W} {next : L} : s.Running w → code w (s.pc w) = .notifyAll next →
      Steps s { s.goto w next with sleeping := [], woken := s.sleeping ++ s.woken }
  | act {w : W} {f : V → Option (V × L)} {v : V} {next : L} : s.Running w →
      code w (s.pc w) = .act f → f s.value = some (v, next) →
        Steps s { s.goto w next with value := v }
  | jump {w : W} {targets : L → Bool} {target : L} : s.Running w →
      code w (s.pc w) = .choose targets → targets target = true → Steps s (s.goto w target)
  | wake {u : W} : u ∈ s.sleeping →
      Steps s { s with sleeping := s.sleeping.erase u, woken := u :: s.woken }
  | resume {w : W} {next : L} : w ∈ s.woken → code w (s.pc w) = .wait next →
      s.holder = none →
        Steps s { s.goto w next with woken := s.woken.erase w, holder := some w }

variable {code} {s s' : State W V L}

theorem steps_of_step {a : Act W L} (h : (machine code).step s a = some s') :
    Steps code s s' := by
  obtain ⟨henabled, hexec⟩ := (machine code).step_eq_some_iff.mp h
  cases a with
  | step w =>
      obtain ⟨hrun, henabled⟩ := Bool.and_eq_true_iff.mp henabled
      replace hrun := of_decide_eq_true hrun
      simp only [machine, exec] at hexec
      cases hcode : code w (s.pc w) with
      | lock next =>
          simp only [hcode, Option.isNone_iff_eq_none] at henabled hexec
          cases hexec
          exact .lock hrun hcode henabled
      | unlock next =>
          simp only [hcode] at hexec
          split at hexec
          · rename_i hholder
            cases hexec
            exact .unlock hrun hcode hholder
          · cases hexec
      | wait next =>
          simp only [hcode] at hexec
          split at hexec
          · rename_i hholder
            cases hexec
            exact .wait hrun hcode hholder
          · cases hexec
      | notify next =>
          simp only [hcode, List.isEmpty_iff] at henabled hexec
          cases hexec
          exact .notify hrun hcode henabled
      | notifyAll next =>
          simp only [hcode] at hexec
          cases hexec
          exact .notifyAll hrun hcode
      | act f =>
          simp only [hcode] at hexec
          split at hexec
          · cases hexec
          · rename_i hf
            cases hexec
            exact .act hrun hcode hf
      | choose targets => simp [hcode] at henabled
  | jump w target =>
      obtain ⟨hrun, henabled⟩ := Bool.and_eq_true_iff.mp henabled
      cases hexec
      cases hcode : code w (s.pc w) with
      | choose targets =>
          rw [hcode] at henabled
          exact .jump (of_decide_eq_true hrun) hcode henabled
      | _ => simp [hcode] at henabled
  | signal w u =>
      simp only [machine, enabled, Bool.and_eq_true, decide_eq_true_eq] at henabled
      obtain ⟨⟨hrun, hu⟩, henabled⟩ := henabled
      simp only [machine, exec] at hexec
      cases hcode : code w (s.pc w) with
      | notify next =>
          simp only [hcode] at hexec
          cases hexec
          exact .signal hrun hcode hu
      | _ => simp [hcode] at henabled
  | wake u =>
      cases hexec
      exact .wake (of_decide_eq_true henabled)
  | resume w =>
      simp only [machine, enabled, Bool.and_eq_true, decide_eq_true_eq,
        Option.isNone_iff_eq_none] at henabled
      obtain ⟨⟨hw, hfree⟩, henabled⟩ := henabled
      simp only [machine, exec] at hexec
      cases hcode : code w (s.pc w) with
      | wait next =>
          simp only [hcode] at hexec
          cases hexec
          exact .resume hw hcode hfree
      | _ => simp [hcode] at henabled

/-- Where a thread gets to by an instruction. -/
def Instr.LeadsTo (v : V) (next : L) : Instr V L → Prop
  | .lock target | .unlock target | .wait target | .notify target | .notifyAll target =>
      next = target
  | .act f => ∃ v', f v = some (v', next)
  | .choose targets => targets next = true

/-- A step moves one thread at most. -/
theorem Steps.moves (h : Steps code s s') :
    s'.pc = s.pc ∨ ∃ w next, (code w (s.pc w)).LeadsTo s.value next ∧
      s'.pc = (s.goto w next).pc := by
  cases h with
  | wait | wake => exact .inl rfl
  | @act w f v next hw hinstr hf =>
      refine .inr ⟨w, next, ?_, rfl⟩
      rw [hinstr]
      exact ⟨v, hf⟩
  | @jump w targets target hw hinstr htarget =>
      refine .inr ⟨w, target, ?_, rfl⟩
      rwa [hinstr]
  | lock hw hinstr | unlock hw hinstr | notify hw hinstr | signal hw hinstr | notifyAll hw hinstr
  | resume hw hinstr =>
      refine .inr ⟨_, _, ?_, rfl⟩
      rw [hinstr]
      rfl

theorem exists_step (h : Steps code s s') : ∃ a, (machine code).step s a = some s' := by
  have hstep : ∀ {a}, enabled code s a = true → exec code s a = .ok s' →
      ∃ a, (machine code).step s a = some s' :=
    fun henabled hexec => ⟨_, (machine code).step_eq_some_iff.mpr ⟨henabled, hexec⟩⟩
  cases h with
  | @lock w next hw hinstr hfree =>
      exact hstep (a := .step w) (by simp [enabled, hw, hinstr, hfree]) (by simp [exec, hinstr])
  | @unlock w next hw hinstr hholder =>
      exact hstep (a := .step w) (by simp [enabled, hw, hinstr]) (by simp [exec, hinstr, hholder])
  | @wait w next hw hinstr hholder =>
      exact hstep (a := .step w) (by simp [enabled, hw, hinstr]) (by simp [exec, hinstr, hholder])
  | @notify w next hw hinstr hnone =>
      exact hstep (a := .step w) (by simp [enabled, hw, hinstr, hnone]) (by simp [exec, hinstr])
  | @signal w u next hw hinstr hu =>
      exact hstep (a := .signal w u) (by simp [enabled, hw, hinstr, hu]) (by simp [exec, hinstr])
  | @notifyAll w next hw hinstr =>
      exact hstep (a := .step w) (by simp [enabled, hw, hinstr]) (by simp [exec, hinstr])
  | @act w f v next hw hinstr hf =>
      exact hstep (a := .step w) (by simp [enabled, hw, hinstr]) (by simp [exec, hinstr, hf])
  | @jump w targets target hw hinstr htarget =>
      exact hstep (a := .jump w target) (by simp [enabled, hw, hinstr, htarget]) rfl
  | @wake u hu => exact hstep (a := .wake u) (by simp [enabled, hu]) rfl
  | @resume w next hw hinstr hfree =>
      exact hstep (a := .resume w) (by simp [enabled, hw, hinstr, hfree]) (by simp [exec, hinstr])

end

/-! ## Who has the mutex -/

/-- Whether a thread has the mutex is known from where it is. -/
def Instr.Respects (holds : L → Bool) (l : L) : Instr V L → Prop
  | .lock next => holds l = false ∧ holds next = true
  | .unlock next => holds l = true ∧ holds next = false
  | .wait next => holds l = true ∧ holds next = true
  | .notify next | .notifyAll next => holds next = holds l
  | .act f => ∀ v v' next, f v = some (v', next) → holds next = holds l
  | .choose targets => ∀ next, targets next = true → holds next = holds l

def Disciplined (code : W → L → Instr V L) (holds : W → L → Bool) : Prop :=
  ∀ w l, (code w l).Respects (holds w) l

structure Sound (code : W → L → Instr V L) (holds : W → L → Bool) (s : State W V L) : Prop where
  nodup : s.away.Nodup
  waits : ∀ w ∈ s.away, ∃ next, code w (s.pc w) = .wait next
  holder_iff : ∀ w, s.holder = some w ↔ s.Running w ∧ holds w (s.pc w) = true

section

variable {code : W → L → Instr V L} {holds : W → L → Bool} {s s' : State W V L} {w u : W}
  {next : L}

@[simp] theorem goto_pc_self : (s.goto w next).pc w = next := Function.update_self ..

theorem goto_pc_of_ne (h : u ≠ w) : (s.goto w next).pc u = s.pc u := Function.update_of_ne h ..

omit [DecidableEq W] in
theorem Sound.unique (h : Sound code holds s) (hw : s.Running w) (hholds : holds w (s.pc w) = true)
    (hu : s.Running u) (hholds' : holds u (s.pc u) = true) : w = u := by
  have hholder := (h.holder_iff w).mpr ⟨hw, hholds⟩
  rw [(h.holder_iff u).mpr ⟨hu, hholds'⟩] at hholder
  exact (Option.some.inj hholder).symm

/-- A running thread goes on, and `threads` is what becomes of the mutex. -/
theorem Sound.goto (h : Sound code holds s) (hw : s.Running w) {holder : Option W}
    (hself : holder = some w ↔ holds w next = true)
    (hother : ∀ u, u ≠ w → (holder = some u ↔ s.holder = some u)) (v : V) :
    Sound code holds { s.goto w next with holder := holder, value := v } := by
  refine ⟨h.nodup, fun u hu => ?_, fun u => ?_⟩
  · have hne : u ≠ w := fun heq => hw (heq ▸ hu)
    simpa only [goto_pc_of_ne hne] using h.waits u hu
  · by_cases hne : u = w
    · subst hne
      simp only [hself, goto_pc_self]
      exact ⟨fun hholds => ⟨hw, hholds⟩, And.right⟩
    · rw [hother u hne, h.holder_iff u]
      simp only [goto_pc_of_ne hne]
      rfl

theorem Sound.goto_same (h : Sound code holds s) (hw : s.Running w)
    (hsame : holds w next = holds w (s.pc w)) (v : V) :
    Sound code holds { s.goto w next with value := v } := by
  refine h.goto hw ?_ (fun u _ => Iff.rfl) v
  rw [h.holder_iff w, hsame]
  exact and_iff_right hw

omit [DecidableEq W] in
/-- Threads that are away move on to the mutex. -/
theorem Sound.regroup (h : Sound code holds s) {sleeping woken : List W}
    (hperm : (sleeping ++ woken).Perm s.away) :
    Sound code holds { s with sleeping := sleeping, woken := woken } := by
  refine ⟨hperm.nodup_iff.mpr h.nodup, fun u hu => h.waits u (hperm.mem_iff.mp hu), fun u => ?_⟩
  rw [h.holder_iff u]
  exact and_congr_left fun _ => not_congr hperm.mem_iff.symm

theorem perm_wake {sleeping woken : List W} (hu : u ∈ sleeping) :
    (sleeping.erase u ++ u :: woken).Perm (sleeping ++ woken) :=
  List.perm_middle.trans ((List.perm_cons_erase hu).symm.append_right woken)

omit [DecidableEq W] in
theorem Sound.sleep (h : Sound code holds s) (hw : s.Running w)
    (hinstr : code w (s.pc w) = .wait next) (hholder : s.holder = some w) :
    Sound code holds { s with holder := none, sleeping := w :: s.sleeping } := by
  refine ⟨List.nodup_cons.mpr ⟨hw, h.nodup⟩, fun u hu => ?_, fun u => ?_⟩
  · rcases List.mem_cons.mp hu with rfl | hu
    · exact ⟨next, hinstr⟩
    · exact h.waits u hu
  · refine iff_of_false nofun ?_
    rintro ⟨hu, hholds⟩
    have hcons : u ∉ w :: s.away := hu
    rw [List.mem_cons, not_or] at hcons
    have hother := (h.holder_iff u).mpr ⟨hcons.2, hholds⟩
    rw [hholder] at hother
    exact hcons.1 (Option.some.inj hother).symm

theorem Sound.resume (h : Sound code holds s) (hw : w ∈ s.woken) (hfree : s.holder = none)
    (hnext : holds w next = true) :
    Sound code holds { s.goto w next with woken := s.woken.erase w, holder := some w } := by
  have hnodup : (s.sleeping ++ s.woken.erase w).Nodup :=
    h.nodup.sublist (List.erase_sublist.append_left s.sleeping)
  have hback : w ∉ s.sleeping ++ s.woken.erase w := by
    obtain ⟨-, hwoken, hdisjoint⟩ := List.nodup_append'.mp h.nodup
    rw [List.mem_append, not_or]
    exact ⟨fun hmem => hdisjoint hmem hw, fun hmem => (hwoken.mem_erase_iff.mp hmem).1 rfl⟩
  have hmem : ∀ {u}, u ≠ w → (u ∈ s.sleeping ++ s.woken.erase w ↔ u ∈ s.away) := by
    intro u hu
    simp [State.away, List.mem_erase_of_ne hu]
  refine ⟨hnodup, fun u hu => ?_, fun u => ?_⟩
  · have hne : u ≠ w := fun heq => hback (heq ▸ hu)
    simpa only [goto_pc_of_ne hne] using h.waits u ((hmem hne).mp hu)
  · by_cases hne : u = w
    · subst hne
      simp only [goto_pc_self, hnext, and_true, true_iff]
      exact hback
    · refine iff_of_false (fun heq => hne (Option.some.inj heq).symm) ?_
      rintro ⟨hu, hholds⟩
      rw [goto_pc_of_ne hne] at hholds
      have hother := (h.holder_iff u).mpr ⟨fun haway => hu ((hmem hne).mpr haway), hholds⟩
      rw [hfree] at hother
      cases hother

omit [DecidableEq W] in
theorem sound_start {pc : W → L} (hout : ∀ w, holds w (pc w) = false) (v : V) :
    Sound code holds ⟨pc, none, [], [], v⟩ where
  nodup := List.nodup_nil
  waits := nofun
  holder_iff w := iff_of_false nofun fun h => absurd (h.2.symm.trans (hout w)) nofun

/-- The mutex is given back by its holder. -/
theorem Sound.exec_ne_notHolder (hcode : Disciplined code holds) (h : Sound code holds s)
    {a : Act W L} (henabled : enabled code s a = true) : exec code s a ≠ .error .notHolder := by
  cases a with
  | step w =>
      obtain ⟨hw, -⟩ := Bool.and_eq_true_iff.mp henabled
      have hrespects := hcode w (s.pc w)
      have hholder := h.holder_iff w
      cases hinstr : code w (s.pc w) with
      | unlock next | wait next =>
          rw [hinstr] at hrespects
          simp [exec, hinstr, hholder.mpr ⟨of_decide_eq_true hw, hrespects.1⟩]
      | act f => cases hf : f s.value <;> simp [exec, hinstr, hf]
      | _ => simp [exec, hinstr]
  | signal w u => cases hinstr : code w (s.pc w) <;> simp [exec, hinstr]
  | resume w => cases hinstr : code w (s.pc w) <;> simp [exec, hinstr]
  | _ => exact nofun

theorem Steps.sound (hcode : Disciplined code holds) (h : Sound code holds s)
    (hstep : Steps code s s') : Sound code holds s' := by
  cases hstep with
  | @lock w next hw hinstr hfree =>
      have hrespects := hcode w (s.pc w)
      rw [hinstr] at hrespects
      refine h.goto hw (by simpa using hrespects.2) (fun u hu => ?_) s.value
      simpa [hfree] using hu.symm
  | @unlock w next hw hinstr hholder =>
      have hrespects := hcode w (s.pc w)
      rw [hinstr] at hrespects
      refine h.goto hw (by simpa using hrespects.2) (fun u hu => ?_) s.value
      simpa [hholder] using hu.symm
  | wait hw hinstr hholder => exact h.sleep hw hinstr hholder
  | @notify w next hw hinstr hnone =>
      have hrespects := hcode w (s.pc w)
      rw [hinstr] at hrespects
      exact h.goto_same hw hrespects s.value
  | @signal w u next hw hinstr hu =>
      have hrespects := hcode w (s.pc w)
      rw [hinstr] at hrespects
      exact (h.goto_same hw hrespects s.value).regroup (perm_wake hu)
  | @notifyAll w next hw hinstr =>
      have hrespects := hcode w (s.pc w)
      rw [hinstr] at hrespects
      exact (h.goto_same hw hrespects s.value).regroup (List.Perm.refl _)
  | @act w f v next hw hinstr hf =>
      have hrespects := hcode w (s.pc w)
      rw [hinstr] at hrespects
      exact h.goto_same hw (hrespects s.value v next hf) v
  | @jump w targets target hw hinstr htarget =>
      have hrespects := hcode w (s.pc w)
      rw [hinstr] at hrespects
      exact h.goto_same hw (hrespects target htarget) s.value
  | @wake u hu => exact h.regroup (perm_wake hu)
  | @resume w next hw hinstr hfree =>
      have hrespects := hcode w (s.pc w)
      rw [hinstr] at hrespects
      exact h.resume hw hfree hrespects.2

end

/-! ## What holds where -/

/-- `I` holds of the value while the mutex is free, and `A` at the places of a running thread. -/
def Instr.Proved (I : V → Prop) (A : L → V → Prop) (held : Bool) (l : L) : Instr V L → Prop
  | .lock next => ∀ v, A l v → I v → A next v
  | .unlock next => ∀ v, A l v → I v ∧ A next v
  | .wait next => ∀ v, A l v → I v ∧ ∀ v', I v' → A next v'
  | .notify next | .notifyAll next => ∀ v, A l v → A next v
  | .act f => ∀ v v' next, f v = some (v', next) → A l v →
      A next v' ∧ (held = false → I v → I v')
  | .choose targets => ∀ next v, targets next = true → A l v → A next v

/-- Each instruction is proved, and no act disturbs what another thread relies on. -/
structure Outline (code : W → L → Instr V L) (holds : W → L → Bool) (I : V → Prop)
    (A : W → L → V → Prop) : Prop where
  disciplined : Disciplined code holds
  proved : ∀ w l, (code w l).Proved I (A w) (holds w l) l
  stable : ∀ {w l f v v' next}, code w l = .act f → f v = some (v', next) → A w l v →
    ∀ u l', u ≠ w → (holds w l = false ∨ holds u l' = false) → A u l' v → A u l' v'

structure Valid (code : W → L → Instr V L) (holds : W → L → Bool) (I : V → Prop)
    (A : W → L → V → Prop) (s : State W V L) : Prop extends Sound code holds s where
  here : ∀ w, s.Running w → A w (s.pc w) s.value
  slept : ∀ w ∈ s.away, ∃ v, A w (s.pc w) v
  free : s.holder = none → I s.value

section

variable {code : W → L → Instr V L} {holds : W → L → Bool} {I : V → Prop} {A : W → L → V → Prop}
  {s s' : State W V L} {w u : W} {next : L}

omit [DecidableEq W] in
theorem valid_start {pc : W → L} {v : V} (hout : ∀ w, holds w (pc w) = false)
    (hhere : ∀ w, A w (pc w) v) (hfree : I v) : Valid code holds I A ⟨pc, none, [], [], v⟩ :=
  ⟨sound_start hout v, fun w _ => hhere w, nofun, fun _ => hfree⟩

theorem Valid.exists_at (h : Valid code holds I A s) (w : W) : ∃ v, A w (s.pc w) v := by
  by_cases hw : s.Running w
  · exact ⟨s.value, h.here w hw⟩
  · exact h.slept w (not_not.mp hw)

theorem Valid.slept_goto (h : Valid code holds I A s) (hw : u ∈ s.away → u ≠ w) (hu : u ∈ s.away) :
    ∃ v, A u ((s.goto w next).pc u) v := by
  rw [goto_pc_of_ne (hw hu)]
  exact h.slept u hu

theorem Valid.here_goto (h : Valid code holds I A s) (hnext : A w next s.value)
    (hu : u ≠ w → s.Running u) : A u ((s.goto w next).pc u) s.value := by
  by_cases hne : u = w
  · subst hne
    rwa [goto_pc_self]
  · rw [goto_pc_of_ne hne]
    exact h.here u (hu hne)

theorem Steps.valid (houtline : Outline code holds I A) (h : Valid code holds I A s)
    (hstep : Steps code s s') : Valid code holds I A s' := by
  have hsound := hstep.sound houtline.disciplined h.toSound
  have hne : ∀ {w u}, s.Running w → u ∈ s.away → u ≠ w := by
    rintro w u hw hu rfl
    exact hw hu
  cases hstep with
  | @lock w next hw hinstr hfree =>
      have hproved := houtline.proved w (s.pc w)
      rw [hinstr] at hproved
      have hnext := hproved s.value (h.here w hw) (h.free hfree)
      exact ⟨hsound, fun u hu => h.here_goto hnext fun _ => hu, fun u => h.slept_goto (hne hw),
        nofun⟩
  | @unlock w next hw hinstr hholder =>
      have hproved := houtline.proved w (s.pc w)
      rw [hinstr] at hproved
      obtain ⟨hfree, hnext⟩ := hproved s.value (h.here w hw)
      exact ⟨hsound, fun u hu => h.here_goto hnext fun _ => hu, fun u => h.slept_goto (hne hw),
        fun _ => hfree⟩
  | @wait w next hw hinstr hholder =>
      have hproved := houtline.proved w (s.pc w)
      rw [hinstr] at hproved
      have hhere := h.here w hw
      refine ⟨hsound, fun u hu => h.here u ?_, fun u hu => ?_, fun _ => (hproved s.value hhere).1⟩
      · exact fun haway => hu (List.mem_cons_of_mem w haway)
      · rcases List.mem_cons.mp hu with rfl | hu
        · exact ⟨s.value, hhere⟩
        · exact h.slept u hu
  | @notify w next hw hinstr hnone =>
      have hproved := houtline.proved w (s.pc w)
      rw [hinstr] at hproved
      have hnext := hproved s.value (h.here w hw)
      exact ⟨hsound, fun u hu => h.here_goto hnext fun _ => hu, fun u => h.slept_goto (hne hw),
        h.free⟩
  | @signal w u next hw hinstr hu =>
      have hproved := houtline.proved w (s.pc w)
      rw [hinstr] at hproved
      have hnext := hproved s.value (h.here w hw)
      refine ⟨hsound, fun t ht => h.here_goto hnext fun _ haway => ht ?_, fun t ht => ?_, h.free⟩
      · exact (perm_wake hu).mem_iff.mpr haway
      · exact h.slept_goto (hne hw) ((perm_wake hu).mem_iff.mp ht)
  | @notifyAll w next hw hinstr =>
      have hproved := houtline.proved w (s.pc w)
      rw [hinstr] at hproved
      have hnext := hproved s.value (h.here w hw)
      exact ⟨hsound, fun u hu => h.here_goto hnext fun _ => hu, fun u => h.slept_goto (hne hw),
        h.free⟩
  | @act w f v next hw hinstr hf =>
      have hproved := houtline.proved w (s.pc w)
      rw [hinstr] at hproved
      obtain ⟨hnext, hfree⟩ := hproved s.value v next hf (h.here w hw)
      refine ⟨hsound, fun u hu => ?_, fun u => h.slept_goto (hne hw), fun hholder => ?_⟩
      · by_cases hself : u = w
        · subst hself
          simpa only [goto_pc_self] using hnext
        · have hother : holds w (s.pc w) = false ∨ holds u (s.pc u) = false := by
            by_contra hboth
            simp only [not_or, Bool.not_eq_false] at hboth
            exact hself (h.unique hu hboth.2 hw hboth.1)
          simp only [goto_pc_of_ne hself]
          exact houtline.stable hinstr hf (h.here w hw) u _ hself hother (h.here u hu)
      · refine hfree ?_ (h.free hholder)
        by_contra hholds
        have hself := (h.holder_iff w).mpr ⟨hw, by simpa using hholds⟩
        exact absurd (hself.symm.trans hholder) nofun
  | @jump w targets target hw hinstr htarget =>
      have hproved := houtline.proved w (s.pc w)
      rw [hinstr] at hproved
      have hnext := hproved target s.value htarget (h.here w hw)
      exact ⟨hsound, fun u hu => h.here_goto hnext fun _ => hu, fun u => h.slept_goto (hne hw),
        h.free⟩
  | @wake u hu =>
      exact ⟨hsound, fun t ht => h.here t fun haway => ht ((perm_wake hu).mem_iff.mpr haway),
        fun t ht => h.slept t ((perm_wake hu).mem_iff.mp ht), h.free⟩
  | @resume w next hw hinstr hfree =>
      have hproved := houtline.proved w (s.pc w)
      rw [hinstr] at hproved
      obtain ⟨v, hslept⟩ := h.slept w (List.mem_append_right _ hw)
      have hnext := (hproved v hslept).2 s.value (h.free hfree)
      have hrunning := ((hsound.holder_iff w).mp rfl).1
      refine ⟨hsound, fun u hu => h.here_goto hnext fun hne haway => hu ?_, fun u hu => ?_, nofun⟩
      · have hmem := List.mem_append.mp haway
        exact List.mem_append.mpr (hmem.imp_right (List.mem_erase_of_ne hne).mpr)
      · refine h.slept_goto ?_ ?_
        · rintro - rfl
          exact hrunning hu
        · have hmem := List.mem_append.mp hu
          exact List.mem_append.mpr (hmem.imp_right List.mem_of_mem_erase)

/-- The outline holds in every state of every run. -/
theorem Outline.valid (houtline : Outline code holds I A) (h : Valid code holds I A s)
    {acts : List (Act W L)} (hrun : (machine code).run s acts = some s') :
    Valid code holds I A s' :=
  Machine.run_invariant (fun hs hstep => (steps_of_step hstep).valid houtline hs) h hrun

/-! ## Waking -/

/-- At most one thread ever waits. -/
def Solo (code : W → L → Instr V L) : Prop :=
  ∀ w u l l' next next', code w l = .wait next → code u l' = .wait next' → w = u

/-- `B` is what sleepers wait for the end of; who ends it owes a notification, until which it
keeps the mutex. -/
structure Serves (code : W → L → Instr V L) (holds : W → L → Bool) (A : W → L → V → Prop)
    (B : V → Prop) (owes : W → L → V → Prop) : Prop where
  unlock : ∀ {w l v next}, code w l = .unlock next → A w l v → ¬ owes w l v
  wait : ∀ {w l v next}, code w l = .wait next → A w l v → B v
  notify : ∀ {w l next}, code w l = .notify next → Solo code
  act : ∀ {w l f v v' next}, code w l = .act f → f v = some (v', next) → A w l v →
    holds w l = true → B v ∨ owes w l v → B v' ∨ owes w next v'
  apart : ∀ {w l f v v' next}, code w l = .act f → f v = some (v', next) → A w l v →
    holds w l = false → (B v → B v') ∧ ∀ u l', owes u l' v → B v' ∨ owes u l' v'
  choose : ∀ {w l v targets next}, code w l = .choose targets → targets next = true →
    owes w l v → owes w next v

/-- Who is asleep has something to wait for, or will be woken before the mutex is free. -/
def Attended (B : V → Prop) (owes : W → L → V → Prop) (s : State W V L) : Prop :=
  ∀ u ∈ s.sleeping, B s.value ∨ ∃ w, s.holder = some w ∧ owes w (s.pc w) s.value

variable {B : V → Prop} {owes : W → L → V → Prop}

omit [DecidableEq W] in
theorem Attended.of_free (h : Attended B owes s) (hfree : s.holder = none) (hu : u ∈ s.sleeping) :
    B s.value := by
  rcases h u hu with hB | ⟨w, hholder, -⟩
  · exact hB
  · rw [hfree] at hholder
    cases hholder

theorem Steps.attended (hserves : Serves code holds A B owes) (hvalid : Valid code holds I A s)
    (h : Attended B owes s) (hstep : Steps code s s') : Attended B owes s' := by
  cases hstep with
  | lock hw hinstr hfree => exact fun u hu => .inl (h.of_free hfree hu)
  | @unlock w next hw hinstr hholder =>
      intro u hu
      rcases h u hu with hB | ⟨x, hx, howes⟩
      · exact .inl hB
      · obtain rfl := Option.some.inj (hholder.symm.trans hx)
        exact absurd howes (hserves.unlock hinstr (hvalid.here w hw))
  | @wait w next hw hinstr hholder =>
      exact fun u _ => .inl (hserves.wait hinstr (hvalid.here w hw))
  | notify hw hinstr hnone =>
      intro u hu
      rw [show (s.goto _ _).sleeping = s.sleeping from rfl, hnone] at hu
      cases hu
  | @signal w u next hw hinstr hu =>
      intro t ht
      have hnodup := (List.nodup_append'.mp hvalid.nodup).1
      obtain ⟨htu, htmem⟩ := hnodup.mem_erase_iff.mp ht
      obtain ⟨_, htwait⟩ := hvalid.waits t (List.mem_append_left _ htmem)
      obtain ⟨_, huwait⟩ := hvalid.waits u (List.mem_append_left _ hu)
      exact absurd (hserves.notify hinstr _ _ _ _ _ _ htwait huwait) htu
  | notifyAll hw hinstr =>
      intro u hu
      cases hu
  | @act w f v next hw hinstr hf =>
      have hhere := hvalid.here w hw
      intro u hu
      by_cases hholds : holds w (s.pc w) = true
      · have hholder := (hvalid.holder_iff w).mpr ⟨hw, hholds⟩
        have hbefore : B s.value ∨ owes w (s.pc w) s.value := by
          rcases h u hu with hB | ⟨x, hx, howes⟩
          · exact .inl hB
          · obtain rfl := Option.some.inj (hholder.symm.trans hx)
            exact .inr howes
        refine (hserves.act hinstr hf hhere hholds hbefore).imp_right fun howes => ?_
        exact ⟨w, hholder, by rwa [goto_pc_self]⟩
      · obtain ⟨hstay, howed⟩ := hserves.apart hinstr hf hhere (by simpa using hholds)
        rcases h u hu with hB | ⟨x, hx, howes⟩
        · exact .inl (hstay hB)
        · have hne : x ≠ w := by
            rintro rfl
            exact hholds ((hvalid.holder_iff x).mp hx).2
          refine (howed x _ howes).imp_right fun howes => ?_
          exact ⟨x, hx, by rwa [goto_pc_of_ne hne]⟩
  | @jump w targets target hw hinstr htarget =>
      intro u hu
      refine (h u hu).imp_right ?_
      rintro ⟨x, hx, howes⟩
      refine ⟨x, hx, ?_⟩
      by_cases hne : x = w
      · subst hne
        rw [goto_pc_self]
        exact hserves.choose hinstr htarget howes
      · rwa [goto_pc_of_ne hne]
  | wake hu => exact fun t ht => h t (List.mem_of_mem_erase ht)
  | resume hw hinstr hfree => exact fun u hu => .inl (h.of_free hfree hu)

/-- No wakeup is lost: while the mutex is free, sleepers have something to wait for. -/
theorem Outline.attended (houtline : Outline code holds I A) (hserves : Serves code holds A B owes)
    (hvalid : Valid code holds I A s) (h : Attended B owes s) {acts : List (Act W L)}
    (hrun : (machine code).run s acts = some s') : Attended B owes s' := by
  have hstep : ∀ {s a s'}, Valid code holds I A s ∧ Attended B owes s →
      (machine code).step s a = some s' → Valid code holds I A s' ∧ Attended B owes s' :=
    fun hs hstep => ⟨(steps_of_step hstep).valid houtline hs.1,
      (steps_of_step hstep).attended hserves hs.1 hs.2⟩
  exact (Machine.run_invariant hstep ⟨hvalid, h⟩ hrun).2

/-! ## Going on -/

theorem of_exec_failed {a : Act W L} (h : exec code s a = .error .failed) :
    ∃ w f, a = .step w ∧ code w (s.pc w) = .act f ∧ f s.value = none := by
  cases a with
  | step w =>
      cases hinstr : code w (s.pc w) with
      | act f =>
          cases hf : f s.value with
          | none => exact ⟨w, f, rfl, hinstr, hf⟩
          | some result => simp [exec, hinstr, hf] at h
      | unlock next | wait next =>
          simp only [exec, hinstr] at h
          split at h <;> cases h
      | _ => simp [exec, hinstr] at h
  | signal w u => cases hinstr : code w (s.pc w) <;> simp [exec, hinstr] at h
  | resume w => cases hinstr : code w (s.pc w) <;> simp [exec, hinstr] at h
  | _ => cases h

theorem Sound.exists_enabled (hcode : Disciplined code holds) (h : Sound code holds s)
    (hfirm : ∀ {w l targets}, code w l = .choose targets → holds w l = false)
    (hw : w ∉ s.sleeping) (hbusy : ∀ targets, code w (s.pc w) ≠ .choose targets) :
    ∃ a : Act W L, a.Works ∧ enabled code s a = true := by
  have hrun : ∀ {u}, s.Running u → (∀ next, code u (s.pc u) ≠ .lock next) →
      (∀ targets, code u (s.pc u) ≠ .choose targets) → ∃ a : Act W L, a.Works ∧ enabled code s a = true := by
    intro u hu hlock hchoose
    cases hinstr : code u (s.pc u) with
    | lock next => exact absurd hinstr (hlock next)
    | choose targets => exact absurd hinstr (hchoose targets)
    | notify next =>
        cases hsleeping : s.sleeping with
        | nil => exact ⟨.step u, trivial, by simp [enabled, hu, hinstr, hsleeping]⟩
        | cons t rest => exact ⟨.signal u t, trivial, by simp [enabled, hu, hinstr, hsleeping]⟩
    | _ => exact ⟨.step u, trivial, by simp [enabled, hu, hinstr]⟩
  cases hholder : s.holder with
  | some u =>
      obtain ⟨hu, hholds⟩ := (h.holder_iff u).mp hholder
      refine hrun hu (fun next hinstr => ?_) fun targets hinstr => ?_
      · have hrespects := hcode u (s.pc u)
        rw [hinstr] at hrespects
        exact absurd (hholds.symm.trans hrespects.1) nofun
      · exact absurd (hholds.symm.trans (hfirm hinstr)) nofun
  | none =>
      by_cases hwoken : w ∈ s.woken
      · obtain ⟨next, hinstr⟩ := h.waits w (List.mem_append_right _ hwoken)
        exact ⟨.resume w, trivial, by simp [enabled, hwoken, hholder, hinstr]⟩
      · have hwrun : s.Running w := by simp [State.Running, State.away, hw, hwoken]
        cases hinstr : code w (s.pc w) with
        | lock next => exact ⟨.step w, trivial, by simp [enabled, hwrun, hinstr, hholder]⟩
        | _ => exact hrun hwrun (by simp [hinstr]) hbusy

/-- A thread that is neither asleep nor at a choice can go on, or another one can, unless an
act fails. -/
theorem Sound.progress (hcode : Disciplined code holds) (h : Sound code holds s)
    (hfirm : ∀ {w l targets}, code w l = .choose targets → holds w l = false)
    (hacts : ∀ {w f}, s.Running w → code w (s.pc w) = .act f → f s.value ≠ none)
    (hw : w ∉ s.sleeping) (hbusy : ∀ targets, code w (s.pc w) ≠ .choose targets) :
    ∃ a s', a.Works ∧ (machine code).step s a = some s' := by
  obtain ⟨a, hworks, henabled⟩ := h.exists_enabled hcode hfirm hw hbusy
  cases hexec : exec code s a with
  | ok s' => exact ⟨a, s', hworks, (machine code).step_eq_some_iff.mpr ⟨henabled, hexec⟩⟩
  | error fault =>
      cases fault with
      | notHolder => exact absurd hexec (h.exec_ne_notHolder hcode henabled)
      | failed =>
          obtain ⟨u, f, rfl, hinstr, hf⟩ := of_exec_failed hexec
          have hu := of_decide_eq_true (Bool.and_eq_true_iff.mp henabled).1
          exact absurd hf (hacts hu hinstr)

end

end Qslary.Foundation.Monitor

import Mathlib.Algebra.Order.Ring.Int
import Mathlib.Data.List.Basic

/-!
# Guarded machines and their runs

A machine has a guard, which says when its environment lets an action happen,
and an executable body, which either reaches the next state or stops with a
fault.  A step is an enabled action whose body did not fault; a run is a list of
actions stepped through one after another.  The rules below reduce statements
about runs to statements about single steps.
-/

namespace Qslary.Foundation

/-- A computation that did not fault can be taken apart at each of its binds. -/
theorem bind_eq_ok {ε α β : Type} {x : Except ε α} {f : α → Except ε β} {b : β} :
    x >>= f = .ok b ↔ ∃ a, x = .ok a ∧ f a = .ok b := by
  cases x with
  | error e => exact ⟨nofun, nofun⟩
  | ok a => simp [bind, Except.bind]

structure Machine (σ α ε : Type*) where
  guard : σ → α → Bool
  exec : σ → α → Except ε σ

namespace Machine

variable {σ α ε : Type*} (M : Machine σ α ε)

def step (s : σ) (a : α) : Option σ :=
  if M.guard s a then (M.exec s a).toOption else none

def run : σ → List α → Option σ
  | s, [] => some s
  | s, a :: acts => (M.step s a).bind fun s' => run s' acts

def Reachable (start s : σ) : Prop := ∃ acts, M.run start acts = some s

/-- No enabled action of the state faults. -/
def Safe (s : σ) : Prop :=
  ∀ a, M.guard s a = true → ∃ s', M.exec s a = .ok s'

/-- The machine in an environment that allows only some of the actions. -/
def restrict (cond : σ → α → Bool) : Machine σ α ε where
  guard s a := M.guard s a && cond s a
  exec := M.exec

theorem step_eq_some_iff {s s' : σ} {a : α} :
    M.step s a = some s' ↔ M.guard s a = true ∧ M.exec s a = .ok s' := by
  unfold step
  cases hguard : M.guard s a with
  | false => simp
  | true => cases hexec : M.exec s a <;> simp [Except.toOption]

theorem restrict_step_iff {cond : σ → α → Bool} {s s' : σ} {a : α} :
    (M.restrict cond).step s a = some s' ↔ cond s a = true ∧ M.step s a = some s' := by
  simp only [step_eq_some_iff, restrict, Bool.and_eq_true]
  constructor
  · rintro ⟨⟨hguard, hcond⟩, hexec⟩
    exact ⟨hcond, hguard, hexec⟩
  · rintro ⟨hcond, hguard, hexec⟩
    exact ⟨⟨hguard, hcond⟩, hexec⟩

@[simp] theorem run_nil (s : σ) : M.run s [] = some s := rfl

theorem run_cons_iff {s s' : σ} {a : α} {acts : List α} :
    M.run s (a :: acts) = some s' ↔
      ∃ mid, M.step s a = some mid ∧ M.run mid acts = some s' := by
  simp only [run, Option.bind_eq_some_iff]

theorem run_append_iff {s s' : σ} {first second : List α} :
    M.run s (first ++ second) = some s' ↔
      ∃ mid, M.run s first = some mid ∧ M.run mid second = some s' := by
  induction first generalizing s with
  | nil => simp
  | cons a first ih =>
      simp only [List.cons_append, run_cons_iff, ih]
      constructor
      · rintro ⟨next, hstep, mid, hfirst, hsecond⟩
        exact ⟨mid, ⟨next, hstep, hfirst⟩, hsecond⟩
      · rintro ⟨mid, ⟨next, hstep, hfirst⟩, hsecond⟩
        exact ⟨next, hstep, mid, hfirst, hsecond⟩

theorem run_single_iff {s s' : σ} {a : α} :
    M.run s [a] = some s' ↔ M.step s a = some s' := by
  simp [run_cons_iff]

variable {M} in
theorem Reachable.refl (s : σ) : M.Reachable s s := ⟨[], rfl⟩

variable {M} in
theorem Reachable.head {s mid s' : σ} {a : α} (hstep : M.step s a = some mid)
    (hrest : M.Reachable mid s') : M.Reachable s s' := by
  obtain ⟨acts, hacts⟩ := hrest
  exact ⟨a :: acts, M.run_cons_iff.mpr ⟨mid, hstep, hacts⟩⟩

variable {M} in
theorem Reachable.trans {s mid s' : σ} (hfirst : M.Reachable s mid)
    (hsecond : M.Reachable mid s') : M.Reachable s s' := by
  obtain ⟨first, hfirst⟩ := hfirst
  obtain ⟨second, hsecond⟩ := hsecond
  exact ⟨first ++ second, M.run_append_iff.mpr ⟨mid, hfirst, hsecond⟩⟩

/-! ## Invariants -/

/-- `cond` holds of every action of the run, in the state it is taken from. -/
def Meets (cond : σ → α → Prop) : σ → List α → Prop
  | _, [] => True
  | s, a :: acts => cond s a ∧ ∀ s', M.step s a = some s' → Meets cond s' acts

instance decidableMeets {cond : σ → α → Prop} [∀ s a, Decidable (cond s a)] :
    ∀ s acts, Decidable (M.Meets cond s acts)
  | _, [] => isTrue trivial
  | s, a :: acts =>
      match hstep : M.step s a with
      | none => decidable_of_iff (cond s a) (by simp [Meets, hstep])
      | some s' =>
          have : Decidable (M.Meets cond s' acts) := decidableMeets s' acts
          decidable_of_iff (cond s a ∧ M.Meets cond s' acts) (by simp [Meets, hstep])

/-- No action of the run faults or is refused, and each step satisfies `Q`. -/
def Always (Q : σ → α → σ → Prop) : σ → List α → Prop
  | _, [] => True
  | s, a :: acts => ∃ s', M.step s a = some s' ∧ Q s a s' ∧ Always Q s' acts

variable {M}

theorem invariant_of_meets {Inv : σ → Prop} {cond : σ → α → Prop}
    (hstep : ∀ {s a s'}, Inv s → cond s a → M.step s a = some s' → Inv s')
    {s s' : σ} {acts : List α} (hs : Inv s) (hmeets : M.Meets cond s acts)
    (hrun : M.run s acts = some s') : Inv s' := by
  induction acts generalizing s with
  | nil =>
      cases hrun
      exact hs
  | cons a acts ih =>
      obtain ⟨mid, hmid, hrest⟩ := M.run_cons_iff.mp hrun
      exact ih (hstep hs hmeets.1 hmid) (hmeets.2 mid hmid) hrest

theorem meets_of_forall {cond : σ → α → Prop} {s : σ} {acts : List α}
    (h : ∀ s, ∀ a ∈ acts, cond s a) : M.Meets cond s acts := by
  induction acts generalizing s with
  | nil => trivial
  | cons a acts ih =>
      refine ⟨h s a List.mem_cons_self, fun s' _ => ?_⟩
      exact ih fun s b hb => h s b (List.mem_cons_of_mem a hb)

theorem run_invariant {Inv : σ → Prop}
    (hstep : ∀ {s a s'}, Inv s → M.step s a = some s' → Inv s')
    {s s' : σ} {acts : List α} (hs : Inv s) (hrun : M.run s acts = some s') :
    Inv s' :=
  invariant_of_meets (fun hs _ h => hstep hs h) hs
    (meets_of_forall (M := M) fun _ _ _ => (trivial : True)) hrun

/-- A condition that is exact for single steps is exact for runs. -/
theorem always_iff_meets {Inv : σ → Prop} {Q : σ → α → σ → Prop} {cond : σ → α → Prop}
    (hexact : ∀ {s a}, Inv s → ((∃ s', M.step s a = some s' ∧ Q s a s') ↔ cond s a))
    (hInv : ∀ {s a s'}, Inv s → M.step s a = some s' → Q s a s' → Inv s')
    {s : σ} {acts : List α} (hs : Inv s) : M.Always Q s acts ↔ M.Meets cond s acts := by
  induction acts generalizing s with
  | nil => exact Iff.rfl
  | cons a acts ih =>
      constructor
      · rintro ⟨s', hstep, hQ, hrest⟩
        refine ⟨(hexact hs).mp ⟨s', hstep, hQ⟩, fun mid hmid => ?_⟩
        obtain rfl : s' = mid := Option.some.inj (hstep.symm.trans hmid)
        exact (ih (hInv hs hstep hQ)).mp hrest
      · rintro ⟨hcond, hrest⟩
        obtain ⟨s', hstep, hQ⟩ := (hexact hs).mpr hcond
        exact ⟨s', hstep, hQ, (ih (hInv hs hstep hQ)).mpr (hrest s' hstep)⟩

/--
The same for a run that no fault and no guard ends: only `Q` has to be decided, and the
invariant need not survive a step that breaks it.
-/
theorem always_iff_meets_of_run {Inv : σ → Prop} {Q : σ → α → σ → Prop} {cond : σ → α → Prop}
    (hexact : ∀ {s a s'}, Inv s → M.step s a = some s' → (Q s a s' ↔ cond s a))
    (hInv : ∀ {s a s'}, Inv s → cond s a → M.step s a = some s' → Inv s')
    {s s' : σ} {acts : List α} (hs : Inv s) (hrun : M.run s acts = some s') :
    M.Always Q s acts ↔ M.Meets cond s acts := by
  induction acts generalizing s with
  | nil => exact Iff.rfl
  | cons a acts ih =>
      obtain ⟨mid, hmid, hrest⟩ := M.run_cons_iff.mp hrun
      constructor
      · rintro ⟨next, hnext, hQ, halways⟩
        obtain rfl : mid = next := Option.some.inj (hmid.symm.trans hnext)
        have hcond := (hexact hs hmid).mp hQ
        refine ⟨hcond, fun next hnext => ?_⟩
        obtain rfl : mid = next := Option.some.inj (hmid.symm.trans hnext)
        exact (ih (hInv hs hcond hmid) hrest).mp halways
      · rintro ⟨hcond, hmeets⟩
        have hafter := (ih (hInv hs hcond hmid) hrest).mpr (hmeets mid hmid)
        exact ⟨mid, hmid, (hexact hs hmid).mpr hcond, hafter⟩

/--
A relation to an abstract automaton that every step respects is respected by
every run: the automaton reads the actions of the run from left to right.
-/
theorem run_tracks {β : Type*} {Inv : σ → Prop} {R : σ → β → Prop} {f : β → α → β}
    (hInv : ∀ {s a s'}, Inv s → M.step s a = some s' → Inv s')
    (hstep : ∀ {s a s' b}, Inv s → R s b → M.step s a = some s' → R s' (f b a))
    {s s' : σ} {b : β} {acts : List α} (hs : Inv s) (hR : R s b)
    (hrun : M.run s acts = some s') : R s' (acts.foldl f b) := by
  induction acts generalizing s b with
  | nil =>
      cases hrun
      exact hR
  | cons a acts ih =>
      obtain ⟨mid, hmid, hrest⟩ := M.run_cons_iff.mp hrun
      exact ih (hInv hs hmid) (hstep hs hR hmid) hrest

/-- What simulates every step, if not at rest, simulates every run. -/
theorem reachable_of_simulates {τ β δ : Type*} {N : Machine τ β δ} {f : σ → τ}
    (hstep : ∀ {s a s'}, M.step s a = some s' → f s' = f s ∨ ∃ b, N.step (f s) b = some (f s'))
    {s s' : σ} {acts : List α} (hrun : M.run s acts = some s') : N.Reachable (f s) (f s') := by
  induction acts generalizing s with
  | nil =>
      cases hrun
      exact .refl _
  | cons a acts ih =>
      obtain ⟨mid, hmid, hrest⟩ := M.run_cons_iff.mp hrun
      rcases hstep hmid with hsame | ⟨b, hb⟩
      · rw [← hsame]
        exact ih hrest
      · exact .head hb (ih hrest)

end Machine

end Qslary.Foundation

import Mathlib.Algebra.Order.Ring.Int
import Mathlib.Logic.Function.Basic

/-!
# Exclusive holders

Parties go through phases, and in some phases a party has one resource in hand.  In an
exclusive configuration no resource is in two hands, the value of a held resource fits
the phase of its holder, and the value of any other resource is fit to be taken.  The
rules say what one party may do next: nothing with resources, take one, go on with the
one it has, or put it back.
-/

namespace Qslary.Foundation

variable {W P F V : Type*}

/-- `dom` are the resources that exist. -/
structure Exclusive (holds : P → Option F) (ok : P → V → Prop) (free : V → Prop)
    (dom : F → Prop) (pc : W → P) (val : F → V) : Prop where
  unique : ∀ {w w' f}, holds (pc w) = some f → holds (pc w') = some f → w = w'
  exists_of_held : ∀ {w f}, holds (pc w) = some f → dom f
  held : ∀ {w f}, holds (pc w) = some f → ok (pc w) (val f)
  unheld : ∀ {f}, (∀ w, holds (pc w) ≠ some f) → free (val f)

namespace Exclusive

variable {holds : P → Option F} {ok : P → V → Prop} {free : V → Prop} {dom dom' : F → Prop}
  {pc : W → P} {val : F → V} {w : W} {p : P} {f : F} {v : V}

theorem of_ne (h : Exclusive holds ok free dom pc val) {w' : W}
    (hw : holds (pc w) = some f) (hne : w' ≠ w) : holds (pc w') ≠ some f := by
  intro hw'
  exact hne (h.unique hw' hw)

variable [DecidableEq W]

theorem holds_update (heq : holds p = holds (pc w)) (w' : W) :
    holds (Function.update pc w p w') = holds (pc w') := by
  by_cases hw : w' = w
  · rw [hw, Function.update_self, heq]
  · rw [Function.update_of_ne hw]

/-- A step without resources. -/
theorem idle (h : Exclusive holds ok free dom pc val) (hbefore : holds (pc w) = none)
    (hafter : holds p = none) :
    Exclusive holds ok free dom (Function.update pc w p) val := by
  have hholds := holds_update (hafter.trans hbefore.symm)
  refine ⟨?_, ?_, ?_, ?_⟩
  · intro w₁ w₂ g h₁ h₂
    rw [hholds] at h₁ h₂
    exact h.unique h₁ h₂
  · intro w₁ g h₁
    rw [hholds] at h₁
    exact h.exists_of_held h₁
  · intro w₁ g h₁
    rw [hholds] at h₁
    have hw : w₁ ≠ w := by
      rintro rfl
      rw [hbefore] at h₁
      cases h₁
    rw [Function.update_of_ne hw]
    exact h.held h₁
  · intro g hg
    refine h.unheld fun w' => ?_
    rw [← hholds]
    exact hg w'

/-- A party with free hands takes what nobody holds. -/
theorem acquire (h : Exclusive holds ok free dom pc val) (hbefore : holds (pc w) = none)
    (hfree : ∀ w', holds (pc w') ≠ some f) (hafter : holds p = some f) (hdom : dom f)
    (hok : ok p (val f)) : Exclusive holds ok free dom (Function.update pc w p) val := by
  have hother : ∀ {w' g}, holds (Function.update pc w p w') = some g →
      (w' = w ∧ g = f) ∨ (w' ≠ w ∧ holds (pc w') = some g) := by
    intro w' g hg
    by_cases hw : w' = w
    · subst hw
      rw [Function.update_self, hafter] at hg
      exact Or.inl ⟨rfl, (Option.some.inj hg).symm⟩
    · rw [Function.update_of_ne hw] at hg
      exact Or.inr ⟨hw, hg⟩
  refine ⟨?_, ?_, ?_, ?_⟩
  · intro w₁ w₂ g h₁ h₂
    rcases hother h₁ with ⟨hw₁, hg₁⟩ | ⟨-, h₁⟩ <;> rcases hother h₂ with ⟨hw₂, hg₂⟩ | ⟨-, h₂⟩
    · rw [hw₁, hw₂]
    · exact absurd (hg₁ ▸ h₂) (hfree w₂)
    · exact absurd (hg₂ ▸ h₁) (hfree w₁)
    · exact h.unique h₁ h₂
  · intro w₁ g h₁
    rcases hother h₁ with ⟨-, hg⟩ | ⟨-, h₁⟩
    · rw [hg]
      exact hdom
    · exact h.exists_of_held h₁
  · intro w₁ g h₁
    rcases hother h₁ with ⟨hw, hg⟩ | ⟨hw, h₁⟩
    · rw [hw, hg, Function.update_self]
      exact hok
    · rw [Function.update_of_ne hw]
      exact h.held h₁
  · intro g hg
    refine h.unheld fun w' hw' => ?_
    by_cases hw : w' = w
    · subst hw
      rw [hbefore] at hw'
      cases hw'
    · exact hg w' (by rw [Function.update_of_ne hw, hw'])

variable [DecidableEq F]

/-- The holder goes on, and may write what it holds. -/
theorem keep (h : Exclusive holds ok free dom pc val) (hbefore : holds (pc w) = some f)
    (hafter : holds p = some f) (hok : ok p v) :
    Exclusive holds ok free dom (Function.update pc w p) (Function.update val f v) := by
  have hholds := holds_update (hafter.trans hbefore.symm)
  refine ⟨?_, ?_, ?_, ?_⟩
  · intro w₁ w₂ g h₁ h₂
    rw [hholds] at h₁ h₂
    exact h.unique h₁ h₂
  · intro w₁ g h₁
    rw [hholds] at h₁
    exact h.exists_of_held h₁
  · intro w₁ g h₁
    rw [hholds] at h₁
    by_cases hw : w₁ = w
    · subst hw
      obtain rfl : f = g := Option.some.inj (hbefore.symm.trans h₁)
      rw [Function.update_self, Function.update_self]
      exact hok
    · have hg : g ≠ f := by
        rintro rfl
        exact h.of_ne hbefore hw h₁
      rw [Function.update_of_ne hw, Function.update_of_ne hg]
      exact h.held h₁
  · intro g hg
    have hne : g ≠ f := by
      rintro rfl
      exact hg w (by rw [hholds, hbefore])
    rw [Function.update_of_ne hne]
    refine h.unheld fun w' => ?_
    rw [← hholds]
    exact hg w'

theorem stay (h : Exclusive holds ok free dom pc val) (hbefore : holds (pc w) = some f)
    (hafter : holds p = some f) (hok : ok p (val f)) :
    Exclusive holds ok free dom (Function.update pc w p) val := by
  have hkeep := h.keep hbefore hafter hok
  rwa [Function.update_eq_self] at hkeep

/-- The holder puts its resource back, with a last write. -/
theorem release (h : Exclusive holds ok free dom pc val) (hbefore : holds (pc w) = some f)
    (hafter : holds p = none) (hfree : free v) :
    Exclusive holds ok free dom (Function.update pc w p) (Function.update val f v) := by
  have hother : ∀ {w' g}, holds (Function.update pc w p w') = some g →
      w' ≠ w ∧ g ≠ f ∧ holds (pc w') = some g := by
    intro w' g hg
    have hw : w' ≠ w := by
      rintro rfl
      rw [Function.update_self, hafter] at hg
      cases hg
    rw [Function.update_of_ne hw] at hg
    refine ⟨hw, ?_, hg⟩
    rintro rfl
    exact h.of_ne hbefore hw hg
  refine ⟨?_, ?_, ?_, ?_⟩
  · intro w₁ w₂ g h₁ h₂
    exact h.unique (hother h₁).2.2 (hother h₂).2.2
  · intro w₁ g h₁
    exact h.exists_of_held (hother h₁).2.2
  · intro w₁ g h₁
    obtain ⟨hw, hg, hheld⟩ := hother h₁
    rw [Function.update_of_ne hw, Function.update_of_ne hg]
    exact h.held hheld
  · intro g hg
    by_cases hgf : g = f
    · rw [hgf, Function.update_self]
      exact hfree
    · rw [Function.update_of_ne hgf]
      refine h.unheld fun w' hw' => ?_
      have hw : w' ≠ w := by
        rintro rfl
        exact hgf (Option.some.inj (hw'.symm.trans hbefore))
      exact hg w' (by rw [Function.update_of_ne hw, hw'])

theorem drop (h : Exclusive holds ok free dom pc val) (hbefore : holds (pc w) = some f)
    (hafter : holds p = none) (hfree : free (val f)) :
    Exclusive holds ok free dom (Function.update pc w p) val := by
  have hrelease := h.release hbefore hafter hfree
  rwa [Function.update_eq_self] at hrelease

omit [DecidableEq W] in
/-- A resource comes into being, in nobody's hands. -/
theorem alloc (h : Exclusive holds ok free dom pc val) (hnew : ¬ dom f) (hfree : free v)
    (hdom : ∀ g, dom g → dom' g) :
    Exclusive holds ok free dom' pc (Function.update val f v) := by
  have hne : ∀ {w' g}, holds (pc w') = some g → g ≠ f := by
    rintro w' g hg rfl
    exact hnew (h.exists_of_held hg)
  refine ⟨h.unique, ?_, ?_, ?_⟩
  · intro w₁ g h₁
    exact hdom g (h.exists_of_held h₁)
  · intro w₁ g h₁
    rw [Function.update_of_ne (hne h₁)]
    exact h.held h₁
  · intro g hg
    by_cases hgf : g = f
    · rw [hgf, Function.update_self]
      exact hfree
    · rw [Function.update_of_ne hgf]
      exact h.unheld hg

end Exclusive

end Qslary.Foundation

import Mathlib.Algebra.Order.Ring.Int
import Mathlib.Order.RelClasses

/-!
# Comparison functions for keys

An ordered container wants of its comparison that equal keys are the ones it cannot tell
apart.  A comparison has this property as soon as it is the order of some image of the
keys, and strings of bytes are such an image: `memcmp` on the common length, and then the
lengths, decide the lexicographic order.
-/

namespace Qslary.Foundation

/-- Two tests that are a strict order and its equality, of which exactly one holds. -/
structure OrdersKeys {α : Type*} (lt eq : α → α → Bool) : Prop where
  irrefl : ∀ a, lt a a = false
  trans : ∀ {a b c}, lt a b = true → lt b c = true → lt a c = true
  exactlyOne : ∀ a b,
    (lt a b = true ∧ eq a b = false ∧ lt b a = false) ∨
      (lt a b = false ∧ eq a b = true ∧ lt b a = false) ∨
        (lt a b = false ∧ eq a b = false ∧ lt b a = true)
  eq_equivalence : Equivalence fun a b => eq a b = true
  congr : ∀ {a a' b b'}, eq a a' = true → eq b b' = true → lt a b = lt a' b'

section Image

variable {α β : Type*} [LT β] [Std.Irrefl (α := β) (· < ·)] [IsTrans β (· < ·)]
  [Std.Trichotomous (α := β) (· < ·)]

theorem ordersKeys_of_image {lt eq : α → α → Bool} (f : α → β)
    (hlt : ∀ a b, lt a b = true ↔ f a < f b) (heq : ∀ a b, eq a b = true ↔ f a = f b) :
    OrdersKeys lt eq where
  irrefl a := by
    rw [Bool.eq_false_iff, ne_eq, hlt]
    exact irrefl_of (· < ·) (f a)
  trans h₁ h₂ := by
    rw [hlt] at h₁ h₂ ⊢
    exact trans_of (· < ·) h₁ h₂
  exactlyOne a b := by
    have hirrefl : ¬ f b < f b := irrefl_of (· < ·) (f b)
    have hasymm : f a < f b → ¬ f b < f a := fun h h' => hirrefl (trans_of (· < ·) h' h)
    simp only [Bool.eq_false_iff, ne_eq, hlt, heq]
    rcases trichotomous_of (· < ·) (f a) (f b) with hless | hequal | hmore
    · exact Or.inl ⟨hless, fun h => hirrefl (h ▸ hless), hasymm hless⟩
    · rw [hequal]
      exact Or.inr (Or.inl ⟨hirrefl, rfl, hirrefl⟩)
    · exact Or.inr (Or.inr ⟨fun h => hasymm h hmore, fun h => hirrefl (h ▸ hmore), hmore⟩)
  eq_equivalence := by
    simp only [heq]
    exact ⟨fun _ => rfl, Eq.symm, Eq.trans⟩
  congr h₁ h₂ := by
    rw [heq] at h₁ h₂
    rw [Bool.eq_iff_iff, hlt, hlt, h₁, h₂]

end Image

/-! ## Strings of bytes -/

/-- The sign is that of the first two bytes that differ. -/
def memcmp : List UInt8 → List UInt8 → Nat → Int
  | x :: xs, y :: ys, n + 1 =>
      if x = y then memcmp xs ys n else (x.toNat : Int) - (y.toNat : Int)
  | _, _, _ => 0

/-- The common length first, and then the lengths. -/
theorem memcmp_lt_iff (xs ys : List UInt8) :
    (if memcmp xs ys (min xs.length ys.length) ≠ 0 then
        decide (memcmp xs ys (min xs.length ys.length) < 0)
      else decide (xs.length < ys.length)) = true ↔ xs < ys := by
  induction xs generalizing ys with
  | nil =>
      cases ys with
      | nil => simp [memcmp]
      | cons y ys => simp [memcmp]
  | cons x xs ih =>
      cases ys with
      | nil => simp [memcmp]
      | cons y ys =>
          rw [List.length_cons, List.length_cons, Nat.add_min_add_right, memcmp, List.cons_lt_cons_iff]
          by_cases hxy : x = y
          · subst hxy
            rw [if_pos rfl]
            simpa using ih ys
          · have hne : x.toNat ≠ y.toNat := fun h => hxy (UInt8.toNat_inj.mp h)
            have hdiff : (x.toNat : Int) - (y.toNat : Int) ≠ 0 := by omega
            rw [if_neg hxy, if_pos hdiff, decide_eq_true_eq, UInt8.lt_iff_toNat_lt]
            simp only [hxy, false_and, or_false]
            omega

theorem memcmp_eq_iff (xs ys : List UInt8) :
    (decide (xs.length = ys.length) && decide (memcmp xs ys xs.length = 0)) = true ↔ xs = ys := by
  rw [Bool.and_eq_true, decide_eq_true_eq, decide_eq_true_eq]
  induction xs generalizing ys with
  | nil =>
      cases ys with
      | nil => simp [memcmp]
      | cons y ys => simp
  | cons x xs ih =>
      cases ys with
      | nil => simp
      | cons y ys =>
          rw [List.length_cons, List.length_cons, memcmp, List.cons.injEq, ← ih ys]
          by_cases hxy : x = y
          · simp [hxy]
          · have hne : x.toNat ≠ y.toNat := fun h => hxy (UInt8.toNat_inj.mp h)
            rw [if_neg hxy]
            simp only [hxy, false_and, iff_false, not_and]
            omega

end Qslary.Foundation

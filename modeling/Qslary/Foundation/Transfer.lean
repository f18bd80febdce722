import Mathlib.Algebra.Order.Ring.Int

/-!
# Transfers in parts

A transfer of `n` units asks for all that is left until nothing is, or until a call
returns something that is not positive.  Each positive result is the number of units
that the call has moved.
-/

namespace Qslary.Foundation

variable {σ ε : Type*}

/-- The result that ended the transfer early, if there is one. -/
def transfer (call : σ → Nat → Nat → Except ε (Int × σ)) (s : σ) (offset left : Nat) :
    Except ε (Option Int × σ) :=
  if left = 0 then .ok (none, s)
  else
    match call s offset left with
    | .error e => .error e
    | .ok (len, s) =>
        if 0 < len then transfer call s (offset + len.toNat) (left - len.toNat)
        else .ok (some len, s)
termination_by left

/-- What the first `k` results come to. -/
def moved (results : Nat → Int) : Nat → Nat
  | 0 => 0
  | k + 1 => moved results k + (results k).toNat

def Going (results : Nat → Int) (k : Nat) : Prop := ∀ i < k, 0 < results i

/-- No result is more than what is asked for. -/
def Bounded (results : Nat → Int) (n : Nat) : Prop :=
  ∀ k, Going results k → moved results k < n → results k ≤ (n - moved results k : Nat)

/-- The transfer ends behind `k` results that have moved something. -/
structure Ends (results : Nat → Int) (n k : Nat) : Prop where
  going : Going results k
  ended : moved results k = n ∨ moved results k < n ∧ results k ≤ 0

variable {results : Nat → Int} {n k : Nat}

theorem Going.succ (h : Going results k) (hpos : 0 < results k) : Going results (k + 1) := by
  intro i hi
  rcases Nat.lt_succ_iff_lt_or_eq.mp hi with hlt | rfl
  · exact h i hlt
  · exact hpos

theorem Going.mono {j : Nat} (h : Going results k) (hj : j ≤ k) : Going results j :=
  fun i hi => h i (Nat.lt_of_lt_of_le hi hj)

theorem moved_lt_succ (hpos : 0 < results k) : moved results k < moved results (k + 1) := by
  rw [moved]
  omega

theorem moved_lt {i j : Nat} (h : Going results j) (hij : i < j) :
    moved results i < moved results j := by
  induction j with
  | zero => cases hij
  | succ j ih =>
      have hlast := moved_lt_succ (h j (Nat.lt_succ_self j))
      rcases Nat.lt_succ_iff_lt_or_eq.mp hij with hlt | rfl
      · exact (ih (h.mono (Nat.le_succ j)) hlt).trans hlast
      · exact hlast

theorem Ends.unique {j : Nat} (hk : Ends results n k) (hj : Ends results n j) : k = j := by
  have hnot : ∀ {a b : Nat}, Ends results n a → Ends results n b → ¬ a < b := by
    intro a b ha hb hab
    have hlt := moved_lt hb.going hab
    rcases ha.ended with hall | ⟨-, hstop⟩
    · rcases hb.ended with h | h <;> omega
    · have hpos := hb.going a hab
      omega
  have hle := hnot hj hk
  have hge := hnot hk hj
  omega

/-! ## What a transfer does -/

variable {call : σ → Nat → Nat → Except ε (Int × σ)}

theorem transfer_zero (s : σ) (offset : Nat) : transfer call s offset 0 = .ok (none, s) := by
  rw [transfer, if_pos rfl]

theorem transfer_of_pos {s s' : σ} {offset left : Nat} {len : Int} (hleft : 0 < left)
    (hcall : call s offset left = .ok (len, s')) :
    transfer call s offset left =
      if 0 < len then transfer call s' (offset + len.toNat) (left - len.toNat)
      else .ok (some len, s') := by
  rw [transfer, if_neg hleft.ne', hcall]

/-- What every call preserves, a transfer preserves. -/
theorem transfer_invariant {Inv : σ → Prop}
    (hcall : ∀ {s offset left len s'}, Inv s → call s offset left = .ok (len, s') → Inv s')
    {s s' : σ} {offset left : Nat} {early : Option Int} (hs : Inv s)
    (h : transfer call s offset left = .ok (early, s')) : Inv s' := by
  induction left using Nat.strong_induction_on generalizing s offset with
  | _ left ih =>
      rw [transfer] at h
      split at h
      · cases h
        exact hs
      · rename_i hleft
        cases hresult : call s offset left with
        | error e =>
            rw [hresult] at h
            cases h
        | ok reply =>
            obtain ⟨len, next⟩ := reply
            rw [hresult] at h
            dsimp only at h
            have hnext := hcall hs hresult
            split at h
            · exact ih (left - len.toNat) (by omega) hnext h
            · cases h
              exact hnext

/--
A transfer whose calls return the given results: `P k` holds behind `k` of them that have
moved something, and `Q k` behind the one that ends it early.
-/
theorem transfer_spec {P Q : Nat → σ → Prop} (hbounded : Bounded results n)
    (hcall : ∀ {k s}, Going results k → moved results k < n → P k s →
      ∃ s', call s (moved results k) (n - moved results k) = .ok (results k, s') ∧
        if 0 < results k then P (k + 1) s' else Q k s')
    {s : σ} (hs : P 0 s) :
    ∃ k early s', Ends results n k ∧ transfer call s 0 n = .ok (early, s') ∧
      (moved results k = n ∧ early = none ∧ P k s' ∨
        moved results k < n ∧ early = some (results k) ∧ Q k s') := by
  have hfrom : ∀ left k s, Going results k → moved results k + left = n → P k s →
      ∃ j early s', Ends results n j ∧
        transfer call s (moved results k) left = .ok (early, s') ∧
        (moved results j = n ∧ early = none ∧ P j s' ∨
          moved results j < n ∧ early = some (results j) ∧ Q j s') := by
    intro left
    induction left using Nat.strong_induction_on with
    | _ left ih =>
        intro k s hgoing hleft hs
        rcases Nat.eq_zero_or_pos left with rfl | hpos
        · exact ⟨k, none, s, ⟨hgoing, Or.inl hleft⟩, transfer_zero s _, Or.inl ⟨hleft, rfl, hs⟩⟩
        · have hlt : moved results k < n := by omega
          have hrest : n - moved results k = left := by omega
          obtain ⟨s', hresult, hafter⟩ := hcall hgoing hlt hs
          rw [hrest] at hresult
          rw [transfer_of_pos hpos hresult]
          split at hafter
          · rename_i hmore
            have hle := hbounded k hgoing hlt
            have hnext : moved results (k + 1) + (left - (results k).toNat) = n := by
              rw [moved]
              omega
            rw [if_pos hmore]
            exact ih _ (by omega) (k + 1) s' (hgoing.succ hmore) hnext hafter
          · rename_i hstop
            rw [if_neg hstop]
            exact ⟨k, _, s', ⟨hgoing, Or.inr ⟨hlt, Int.not_lt.mp hstop⟩⟩, rfl,
              Or.inr ⟨hlt, rfl, hafter⟩⟩
  exact hfrom n 0 s (fun i hi => absurd hi (Nat.not_lt_zero i)) (Nat.zero_add n) hs

end Qslary.Foundation

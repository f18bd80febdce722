import Qslary.Foundation.Scanner

/-!
# Facts along a scan

What is known of the state of a scan in front of an element, from the automaton alone:
every state of the automaton comes with facts that its edges lead to, whatever the
elements are.  A relation that the actions keep then holds of every scan.
-/

namespace Qslary.Foundation

variable {α A Q S F : Type*}

/-- Facts about the states of an automaton, and what an edge makes of them. -/
structure Facts (next : Q → α → Option (Edge Q A)) (F : Type*) where
  known : Q → F
  /-- Undefined where the action asks for a fact that is not known. -/
  perform : F → A → Option F
  pass : F → α → F
  le : F → F → Prop
  disciplined : ∀ {q x edge}, next q x = some edge →
    ∃ f, edge.actions.foldlM perform (known q) = some f ∧
      (edge.stops = false → le (known edge.target) (pass f x))

namespace Facts

variable {next : Q → α → Option (Edge Q A)} (facts : Facts next F)

/-- `R f p s` says that the facts `f` hold of the state `s` in front of the element at `p`. -/
structure Sound (act : Nat → S → A → S) (buffer : List α) (R : F → Nat → S → Prop) : Prop where
  perform : ∀ {f g p s a}, p < buffer.length → facts.perform f a = some g → R f p s →
    R g p (act p s a)
  pass : ∀ {f p s x}, buffer[p]? = some x → R f p s → R (facts.pass f x) (p + 1) s
  weaken : ∀ {f g p s}, facts.le f g → R g p s → R f p s

variable {facts} {act : Nat → S → A → S} {buffer : List α} {R : F → Nat → S → Prop}

theorem Sound.foldl (h : facts.Sound act buffer R) {f g : F} {p : Nat} (hp : p < buffer.length)
    {actions : List A} {s : S} (hfold : actions.foldlM facts.perform f = some g) (hR : R f p s) :
    R g p (actions.foldl (act p) s) := by
  induction actions generalizing f s with
  | nil =>
      cases hfold
      exact hR
  | cons a actions ih =>
      rw [List.foldlM_cons] at hfold
      obtain ⟨e, hfirst, hrest⟩ := Option.bind_eq_some_iff.mp hfold
      exact ih hrest (h.perform hp hfirst hR)

/-- From the facts of its first state, a scan keeps some facts. -/
theorem Sound.scan (h : facts.Sound act buffer R) {q : Q} {s : S} (hR : R (facts.known q) 0 s) :
    ∃ f p, R f p (scan next act q 0 buffer s).state := by
  have hedge : ∀ {q p x xs edge s}, next q x = some edge →
      (buffer.drop p = x :: xs ∧ R (facts.known q) p s) →
      ∃ f, R f (p + 1) (edge.actions.foldl (act p) s) ∧
        (edge.stops = false → facts.le (facts.known edge.target) f) := by
    rintro q p x xs edge s hnext ⟨hdrop, hR⟩
    have hx : buffer[p]? = some x := by
      rw [← List.head?_drop, hdrop]
      rfl
    have hp : p < buffer.length := (List.getElem?_eq_some_iff.mp hx).1
    obtain ⟨f, hfold, hle⟩ := facts.disciplined hnext
    exact ⟨facts.pass f x, h.pass hx (h.foldl hp hfold hR), hle⟩
  refine scan_invariant next act
    (fun q p xs s => buffer.drop p = xs ∧ R (facts.known q) p s)
    (fun _ _ s => ∃ f i, R f i s) ?_ ?_ ?_ ?_ ⟨rfl, hR⟩
  · intro q p s hI
    exact ⟨_, p, hI.2⟩
  · intro q p x xs s _ hI
    exact ⟨_, p, hI.2⟩
  · intro q p x xs edge s hnext _ hI
    obtain ⟨f, hf, -⟩ := hedge hnext hI
    exact ⟨f, p + 1, hf⟩
  · intro q p x xs edge s hnext hstops hI
    obtain ⟨f, hf, hle⟩ := hedge hnext hI
    refine ⟨?_, h.weaken (hle hstops) hf⟩
    rw [← List.tail_drop, hI.1]
    rfl

end Facts

/-! ## Slices -/

/-- All elements from `m` on and before `p` have a property. -/
def Over (P : α → Prop) (buffer : List α) (m p : Nat) : Prop :=
  ∀ i x, m ≤ i → i < p → buffer[i]? = some x → P x

section Over

variable {P : α → Prop} {buffer : List α} {m p : Nat}

theorem over_of_le (h : p ≤ m) : Over P buffer m p := by
  intro i x hm hp
  omega

theorem Over.succ (h : Over P buffer m p) {x : α} (hx : buffer[p]? = some x) (hP : P x) :
    Over P buffer m (p + 1) := by
  intro i y hm hi hy
  rcases Nat.lt_succ_iff_lt_or_eq.mp hi with hlt | rfl
  · exact h i y hm hlt hy
  · rw [hx] at hy
    cases hy
    exact hP

theorem Over.take (h : Over P buffer m p) : ∀ x ∈ (buffer.drop m).take (p - m), P x := by
  intro x hx
  obtain ⟨i, hi, rfl⟩ := List.mem_iff_getElem.mp hx
  simp only [List.length_take, List.length_drop] at hi
  refine h (m + i) _ (by omega) (by omega) ?_
  rw [List.getElem?_eq_getElem (by omega)]
  simp

end Over

end Qslary.Foundation

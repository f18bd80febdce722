import Mathlib.Algebra.Order.Ring.Int
import Mathlib.Data.List.Basic

/-!
# Scanners

An automaton whose edges carry actions, run over one buffer.  A scan keeps a position
and a state that only the actions change; it ends where the buffer does, stops at an
edge that says so, and fails in front of an element that no edge takes.
-/

namespace Qslary.Foundation

variable {α A Q S T : Type*}

structure Edge (Q A : Type*) where
  actions : List A
  target : Q
  stops : Bool

inductive Halt (Q : Type*) where
  | failed
  | stopped (state : Q)
  | ended (state : Q)
  deriving DecidableEq

structure Scanned (Q S : Type*) where
  halt : Halt Q
  position : Nat
  state : S

section

variable (next : Q → α → Option (Edge Q A)) (act : Nat → S → A → S)

def scan (q : Q) (p : Nat) : List α → S → Scanned Q S
  | [], s => ⟨.ended q, p, s⟩
  | x :: xs, s =>
      match next q x with
      | none => ⟨.failed, p, s⟩
      | some edge =>
          if edge.stops then ⟨.stopped edge.target, p + 1, edge.actions.foldl (act p) s⟩
          else scan edge.target (p + 1) xs (edge.actions.foldl (act p) s)

/-- Where the automaton gets to, whatever the actions do. -/
def course (q : Q) (xs : List α) : Halt Q :=
  (scan next (fun _ (_ : Unit) _ => ()) q 0 xs ()).halt

end

variable {next : Q → α → Option (Edge Q A)}

theorem scan_cons {act : Nat → S → A → S} {q r : Q} {x : α} {actions : List A}
    (h : next q x = some ⟨actions, r, false⟩) (p : Nat) (xs : List α) (s : S) :
    scan next act q p (x :: xs) s = scan next act r (p + 1) xs (actions.foldl (act p) s) := by
  rw [scan, h]
  rfl

theorem scan_append (act : Nat → S → A → S) (q : Q) (p : Nat) (xs ys : List α) (s : S) :
    scan next act q p (xs ++ ys) s =
      match scan next act q p xs s with
      | ⟨.ended r, i, t⟩ => scan next act r i ys t
      | other => other := by
  induction xs generalizing q p s with
  | nil => rfl
  | cons x xs ih =>
      simp only [List.cons_append, scan]
      cases next q x with
      | none => rfl
      | some edge =>
          cases hstops : edge.stops with
          | true => simp [hstops]
          | false => simpa [hstops] using ih _ _ _

/--
Two scans of the same elements, one `d` ahead of the other, take the same course.  What
relates them along the edges may look at the elements still to come; `F` is what is left
of it where they halt.
-/
theorem scan_related (next : Q → α → Option (Edge Q A)) (act : Nat → S → A → S)
    (act' : Nat → T → A → T) (d : Nat) (R : Q → Nat → List α → S → T → Prop) (F : Halt Q → Nat → S → T → Prop)
    (hended : ∀ q p s t, R q p [] s t → F (.ended q) p s t)
    (hfailed : ∀ q p x xs s t, next q x = none → R q p (x :: xs) s t → F .failed p s t)
    (hstopped : ∀ q p x xs edge s t, next q x = some edge → edge.stops = true →
      R q p (x :: xs) s t → F (.stopped edge.target) (p + 1)
        (edge.actions.foldl (act (d + p)) s) (edge.actions.foldl (act' p) t))
    (hstep : ∀ q p x xs edge s t, next q x = some edge → edge.stops = false →
      R q p (x :: xs) s t → R edge.target (p + 1) xs
        (edge.actions.foldl (act (d + p)) s) (edge.actions.foldl (act' p) t))
    {q : Q} {p : Nat} {xs : List α} {s : S} {t : T} (h : R q p xs s t) :
    (scan next act q (d + p) xs s).halt = (scan next act' q p xs t).halt ∧
      (scan next act q (d + p) xs s).position = d + (scan next act' q p xs t).position ∧
      F (scan next act' q p xs t).halt (scan next act' q p xs t).position
        (scan next act q (d + p) xs s).state (scan next act' q p xs t).state := by
  induction xs generalizing q p s t with
  | nil => exact ⟨rfl, rfl, hended q p s t h⟩
  | cons x xs ih =>
      simp only [scan]
      cases hnext : next q x with
      | none => exact ⟨rfl, rfl, hfailed q p x xs s t hnext h⟩
      | some edge =>
          cases hstops : edge.stops with
          | true => simpa [hstops, Nat.add_assoc] using hstopped q p x xs edge s t hnext hstops h
          | false =>
              simpa [hstops, Nat.add_assoc] using ih (hstep q p x xs edge s t hnext hstops h)

/-- The same of one scan. -/
theorem scan_invariant (next : Q → α → Option (Edge Q A)) (act : Nat → S → A → S)
    (I : Q → Nat → List α → S → Prop) (F : Halt Q → Nat → S → Prop)
    (hended : ∀ q p s, I q p [] s → F (.ended q) p s)
    (hfailed : ∀ q p x xs s, next q x = none → I q p (x :: xs) s → F .failed p s)
    (hstopped : ∀ q p x xs edge s, next q x = some edge → edge.stops = true →
      I q p (x :: xs) s → F (.stopped edge.target) (p + 1) (edge.actions.foldl (act p) s))
    (hstep : ∀ q p x xs edge s, next q x = some edge → edge.stops = false →
      I q p (x :: xs) s → I edge.target (p + 1) xs (edge.actions.foldl (act p) s))
    {q : Q} {p : Nat} {xs : List α} {s : S} (h : I q p xs s) :
    F (scan next act q p xs s).halt (scan next act q p xs s).position
      (scan next act q p xs s).state :=
  (scan_related next act act 0 (fun q p xs _ t => I q p xs t) (fun halt p _ t => F halt p t)
    (s := s) (fun q p _ => hended q p) (fun q p x xs _ => hfailed q p x xs)
    (fun q p x xs edge _ => hstopped q p x xs edge)
    (fun q p x xs edge _ => hstep q p x xs edge) h).2.2

theorem halt_eq_course (act : Nat → S → A → S) (q : Q) (p : Nat) (xs : List α) (s : S) :
    (scan next act q p xs s).halt = course next q xs :=
  (scan_related next act _ p (fun _ _ _ _ _ => True) (fun _ _ _ _ => True) (p := 0)
    (fun _ _ _ _ _ => trivial) (fun _ _ _ _ _ _ _ _ => trivial)
    (fun _ _ _ _ _ _ _ _ _ _ => trivial) (fun _ _ _ _ _ _ _ _ _ _ => trivial) trivial).1

/-- Nor does it matter to the position what the actions do. -/
theorem position_eq (act : Nat → S → A → S) (act' : Nat → T → A → T) (q : Q) (p : Nat)
    (xs : List α) (s : S) (t : T) :
    (scan next act q p xs s).position = (scan next act' q p xs t).position := by
  induction xs generalizing q p s t with
  | nil => rfl
  | cons x xs ih =>
      simp only [scan]
      cases next q x with
      | none => rfl
      | some edge =>
          cases hstops : edge.stops with
          | true => simp [hstops]
          | false => simpa [hstops] using ih _ _ _ _

/-- A scan that ends has seen all elements, and another one not more than there are. -/
theorem position_of_halt (next : Q → α → Option (Edge Q A)) (act : Nat → S → A → S)
    (q : Q) (p : Nat) (xs : List α) (s : S) :
    (scan next act q p xs s).position ≤ p + xs.length ∧
      ∀ r, (scan next act q p xs s).halt = .ended r →
        (scan next act q p xs s).position = p + xs.length := by
  refine scan_invariant next act (fun _ i rest _ => i + rest.length = p + xs.length)
    (fun halt i _ => i ≤ p + xs.length ∧ ∀ r, halt = .ended r → i = p + xs.length)
    ?_ ?_ ?_ ?_ rfl
  · intro q i s h
    exact ⟨Nat.le_of_eq h, fun _ _ => h⟩
  · intro q i x rest s _ h
    exact ⟨by omega, nofun⟩
  · intro q i x rest edge s _ _ h
    rw [List.length_cons] at h
    exact ⟨by omega, nofun⟩
  · intro q i x rest edge s _ _ h
    rw [List.length_cons] at h
    omega

theorem scan_append_of_ended {act : Nat → S → A → S} {q r : Q} {p : Nat} {xs : List α} {s : S}
    (h : (scan next act q p xs s).halt = .ended r) (ys : List α) :
    scan next act q p (xs ++ ys) s =
      scan next act r (p + xs.length) ys (scan next act q p xs s).state := by
  have hposition := (position_of_halt next act q p xs s).2 r h
  rw [scan_append, ← hposition]
  rcases hscan : scan next act q p xs s with ⟨halt, i, t⟩
  rw [hscan] at h
  cases h
  rfl

theorem scan_append_of_not_ended {act : Nat → S → A → S} {q : Q} {p : Nat} {xs : List α} {s : S}
    (h : ∀ r, (scan next act q p xs s).halt ≠ .ended r) (ys : List α) :
    scan next act q p (xs ++ ys) s = scan next act q p xs s := by
  rw [scan_append]
  rcases hscan : scan next act q p xs s with ⟨halt, i, t⟩
  rw [hscan] at h
  cases halt with
  | ended r => exact absurd rfl (h r)
  | failed => rfl
  | stopped r => rfl

end Qslary.Foundation

import Mathlib.Logic.Relation
import Qslary.Foundation.Scanner

/-!
# Segments of a scan

What an automaton makes of a piece of its input, whatever stands around it.  A piece is
taken from one state to another, and a relation says what becomes of the state of the scan;
pieces in a row compose their relations.
-/

namespace Qslary.Foundation

variable {α A Q S ι : Type*}

/-! ## Pieces without actions -/

section

variable (next : Q → α → Option (Edge Q A))

/-- Where the elements lead, if no edge on the way has an action. -/
def walk : Q → List α → Option Q
  | q, [] => some q
  | q, x :: xs =>
      match next q x with
      | some ⟨[], r, false⟩ => walk r xs
      | _ => none

variable {next}

theorem walk_cons {q r : Q} {x : α} (h : next q x = some ⟨[], r, false⟩) (xs : List α) :
    walk next q (x :: xs) = walk next r xs := by
  simp [walk, h]

theorem of_walk_cons {q t : Q} {x : α} {xs : List α} (h : walk next q (x :: xs) = some t) :
    ∃ r, next q x = some ⟨[], r, false⟩ ∧ walk next r xs = some t := by
  unfold walk at h
  split at h
  · exact ⟨_, by assumption, h⟩
  · cases h

theorem walk_stay {q : Q} {xs : List α} (h : ∀ x ∈ xs, next q x = some ⟨[], q, false⟩) :
    walk next q xs = some q := by
  induction xs with
  | nil => rfl
  | cons x xs ih =>
      obtain ⟨hx, hxs⟩ := List.forall_mem_cons.mp h
      rw [walk_cons hx, ih hxs]

theorem scan_walk {q r : Q} {xs : List α} (h : walk next q xs = some r) (act : Nat → S → A → S)
    (p : Nat) (rest : List α) (s : S) :
    scan next act q p (xs ++ rest) s = scan next act r (p + xs.length) rest s := by
  induction xs generalizing q p with
  | nil =>
      cases h
      rfl
  | cons x xs ih =>
      obtain ⟨mid, hfirst, hrest⟩ := of_walk_cons h
      rw [List.cons_append, scan_cons hfirst, List.foldl_nil, ih hrest, List.length_cons,
        Nat.add_right_comm, Nat.add_assoc]

end

/-! ## Pieces with a meaning -/

section

variable (next : Q → α → Option (Edge Q A)) (act : List α → Nat → S → A → S)

/-- The elements lead from `q` to `r`, and change position and state as `R` says. -/
def Takes (q : Q) (xs : List α) (R : Nat × S → Nat × S → Prop) (r : Q) : Prop :=
  ∀ before after s, ∃ t, R (before.length, s) (before.length + xs.length, t) ∧
    scan next (act (before ++ (xs ++ after))) q before.length (xs ++ after) s =
      scan next (act (before ++ (xs ++ after))) r (before.length + xs.length) after t

/-- One change for each of the items. -/
def through (R : ι → Nat × S → Nat × S → Prop) : List ι → Nat × S → Nat × S → Prop
  | [] => Eq
  | i :: is => Relation.Comp (R i) (through R is)

variable {next act} {q r t : Q} {xs ys : List α} {R R' : Nat × S → Nat × S → Prop}

theorem Takes.nil (q : Q) : Takes next act q [] Eq q :=
  fun _ _ s => ⟨s, rfl, rfl⟩

theorem Takes.mono (h : Takes next act q xs R r) (hle : ∀ s t, R s t → R' s t) :
    Takes next act q xs R' r := by
  intro before after s
  obtain ⟨t, hR, hscan⟩ := h before after s
  exact ⟨t, hle _ _ hR, hscan⟩

theorem Takes.append (hfirst : Takes next act q xs R r) (hsecond : Takes next act r ys R' t) :
    Takes next act q (xs ++ ys) (Relation.Comp R R') t := by
  intro before after s
  obtain ⟨s₁, hR, hscan⟩ := hfirst before (ys ++ after) s
  obtain ⟨s₂, hR', hscan'⟩ := hsecond (before ++ xs) after s₁
  simp only [List.append_assoc, List.length_append, Nat.add_assoc] at hR' hscan hscan' ⊢
  exact ⟨s₂, ⟨_, hR, hR'⟩, hscan.trans hscan'⟩

theorem Takes.flatMap {f : ι → List α} {R : ι → Nat × S → Nat × S → Prop} {is : List ι}
    (h : ∀ i ∈ is, Takes next act q (f i) (R i) q) :
    Takes next act q (is.flatMap f) (through R is) q := by
  induction is with
  | nil => exact .nil q
  | cons i is ih =>
      obtain ⟨hi, his⟩ := List.forall_mem_cons.mp h
      exact hi.append (ih his)

theorem Takes.walk (h : walk next q xs = some r) :
    Takes next act q xs (fun s t => s.1 ≤ t.1 ∧ t.2 = s.2) r :=
  fun _ _ s => ⟨s, ⟨Nat.le_add_right _ _, rfl⟩, scan_walk h _ _ _ s⟩

/-- A token: actions at its first element, and others at the element behind it. -/
theorem Takes.token {x y : α} {actions actions' : List A} {mid last : Q}
    (hfirst : next q x = some ⟨actions, mid, false⟩) (hbody : Foundation.walk next mid xs = some last)
    (hlast : next last y = some ⟨actions', r, false⟩)
    (hR : ∀ before after s, R (before.length, s) (before.length + (x :: xs).length + 1, actions'.foldl
      (act (before ++ (x :: xs ++ y :: after)) (before.length + (x :: xs).length))
      (actions.foldl (act (before ++ (x :: xs ++ y :: after)) before.length) s))) :
    Takes next act q (x :: (xs ++ [y])) R r := by
  intro before after s
  have hbehind : before.length + 1 + xs.length = before.length + (x :: xs).length := by
    rw [List.length_cons]
    omega
  have hlength : (x :: (xs ++ [y])).length = (x :: xs).length + 1 := by simp
  rw [hlength, ← Nat.add_assoc]
  refine ⟨_, hR before after s, ?_⟩
  simp only [List.cons_append, List.append_assoc, List.nil_append]
  rw [scan_cons hfirst, scan_walk hbody, scan_cons hlast, hbehind]

/-- The scan of a whole input stops behind it. -/
theorem Takes.stop {y : α} {actions : List A} (h : Takes next act q xs R r)
    (hlast : next r y = some ⟨actions, t, true⟩) (rest : List α) (s : S) :
    ∃ s', R (0, s) (xs.length, s') ∧ scan next (act (xs ++ y :: rest)) q 0 (xs ++ y :: rest) s =
      ⟨.stopped t, xs.length + 1, actions.foldl (act (xs ++ y :: rest) xs.length) s'⟩ := by
  obtain ⟨s', hR, hscan⟩ := h [] (y :: rest) s
  simp only [List.nil_append, List.length_nil, Nat.zero_add] at hR hscan
  refine ⟨s', hR, ?_⟩
  rw [hscan, scan, hlast]
  rfl

end

end Qslary.Foundation

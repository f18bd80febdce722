import Qslary.Foundation.Scanner
import Qslary.Foundation.Text

/-!
# Automata given by tables

A row lists the edges of one state, of which the first that takes a byte is followed.
The checks run over all bytes of a set, so that facts about a table can be decided.
-/

namespace Qslary.Foundation

variable {A : Type*}

/-- Whether a byte is in a set of bytes. -/
def within (bytes : List (Nat × Nat)) (byte : Nat) : Bool :=
  bytes.any fun range => range.1 ≤ byte && byte ≤ range.2

/-- No byte is in both sets. -/
def apart (bytes bad : List (Nat × Nat)) : Bool :=
  bytes.all fun range => bad.all fun other => range.2 < other.1 || other.2 < range.1

theorem within_of_apart {bytes bad : List (Nat × Nat)} {byte : Nat} (h : apart bytes bad = true)
    (hbyte : within bytes byte = true) : within bad byte = false := by
  rw [within, List.any_eq_true] at hbyte
  rw [within, List.any_eq_false]
  obtain ⟨range, hrange, hin⟩ := hbyte
  intro other hother
  have hapart := List.all_eq_true.mp (List.all_eq_true.mp h range hrange) other hother
  simp only [Bool.and_eq_true, Bool.or_eq_true, decide_eq_true_eq] at hin hapart ⊢
  omega

structure Arc (A : Type*) where
  bytes : List (Nat × Nat)
  actions : List A
  target : Nat

def on (byte : Nat) (actions : List A) (target : Nat) : Arc A :=
  ⟨[(byte, byte)], actions, target⟩

def onAny (bytes : List (Nat × Nat)) (actions : List A) (target : Nat) : Arc A :=
  ⟨bytes, actions, target⟩

/-- The edge that a row has for a byte. -/
def follow (edge : Arc A → Edge Nat A) (arcs : List (Arc A)) (byte : UInt8) :
    Option (Edge Nat A) :=
  (arcs.find? fun arc => within arc.bytes byte.toNat).map edge

theorem mem_of_follow {edge : Arc A → Edge Nat A} {arcs : List (Arc A)} {byte : UInt8}
    {found : Edge Nat A} (h : follow edge arcs byte = some found) :
    ∃ arc ∈ arcs, within arc.bytes byte.toNat = true ∧ found = edge arc := by
  obtain ⟨arc, hfind, rfl⟩ := Option.map_eq_some_iff.mp h
  have hwithin := List.find?_some hfind
  exact ⟨arc, List.mem_of_find?_eq_some hfind, hwithin, rfl⟩

/-! ## Checks -/

def everyByte (bytes : List (Nat × Nat)) (check : UInt8 → Bool) : Bool :=
  bytes.all fun range => (List.range' range.1 (range.2 + 1 - range.1)).all fun n =>
    check (UInt8.ofNat n)

theorem of_everyByte {bytes : List (Nat × Nat)} {check : UInt8 → Bool}
    (h : everyByte bytes check = true) {x : UInt8} (hx : within bytes x.toNat = true) :
    check x = true := by
  rw [within, List.any_eq_true] at hx
  obtain ⟨range, hrange, hbyte⟩ := hx
  simp only [Bool.and_eq_true, decide_eq_true_eq] at hbyte
  have hmem : x.toNat ∈ List.range' range.1 (range.2 + 1 - range.1) := by
    rw [List.mem_range'_1]
    omega
  have hcheck := List.all_eq_true.mp (List.all_eq_true.mp h range hrange) x.toNat hmem
  rwa [UInt8.ofNat_toNat] at hcheck

section

variable [DecidableEq A]

def edgeIs (actions : List A) (targets : List Nat) : Option (Edge Nat A) → Bool
  | some edge => edge.actions = actions && targets.contains edge.target && !edge.stops
  | none => false

theorem exists_of_edgeIs {actions : List A} {targets : List Nat} {edge : Option (Edge Nat A)}
    (h : edgeIs actions targets edge = true) : ∃ r ∈ targets, edge = some ⟨actions, r, false⟩ := by
  cases edge with
  | none => cases h
  | some edge =>
      obtain ⟨found, target, stops⟩ := edge
      simp only [edgeIs, Bool.and_eq_true, decide_eq_true_eq, Bool.not_eq_true',
        List.contains_iff_mem] at h
      obtain ⟨⟨rfl, htarget⟩, rfl⟩ := h
      exact ⟨target, htarget, rfl⟩

variable (next : Nat → UInt8 → Option (Edge Nat A))

/-- A byte leads from one state to another. -/
def goes (q : Nat) (x : UInt8) (actions : List A) (r : Nat) : Bool :=
  edgeIs actions [r] (next q x)

/-- Every byte of a set leads from a state to one of some states, with the same actions. -/
def leads (q : Nat) (bytes : List (Nat × Nat)) (actions : List A) (targets : List Nat) : Bool :=
  everyByte bytes fun x => edgeIs actions targets (next q x)

variable {next}

theorem next_of_goes {q : Nat} {x : UInt8} {actions : List A} {r : Nat}
    (h : goes next q x actions r = true) : next q x = some ⟨actions, r, false⟩ := by
  obtain ⟨target, htarget, hedge⟩ := exists_of_edgeIs h
  rw [List.mem_singleton] at htarget
  rw [hedge, htarget]

theorem next_of_leads {q : Nat} {bytes : List (Nat × Nat)} {actions : List A}
    {targets : List Nat} (h : leads next q bytes actions targets = true) {x : UInt8}
    (hx : within bytes x.toNat = true) :
    ∃ r ∈ targets, next q x = some ⟨actions, r, false⟩ :=
  exists_of_edgeIs (of_everyByte h hx)

end

end Qslary.Foundation

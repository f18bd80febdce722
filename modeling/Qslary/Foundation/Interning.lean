import Mathlib.Data.List.Basic
import Mathlib.Logic.Function.Basic

/-!
# Interning

Keys name cells that are appended and never dropped, and a key once given a cell keeps it.
What was read of a key therefore still holds in every table that extends the one it was
read from.
-/

namespace Qslary.Foundation

structure Interned (κ α : Type*) where
  index : κ → Option Nat
  cells : List α
  valid : ∀ {key place}, index key = some place → place < cells.length

namespace Interned

variable {κ α β : Type*}

def empty : Interned κ α := ⟨fun _ => none, [], nofun⟩

/-- The next cell, under a key that had none. -/
def add [DecidableEq κ] (t : Interned κ α) (key : κ) (a : α) : Interned κ α where
  index := Function.update t.index key (some t.cells.length)
  cells := t.cells ++ [a]
  valid := by
    intro other place h
    by_cases heq : other = key
    · simp only [heq, Function.update_self, Option.some.injEq] at h
      simp [← h]
    · simp only [Function.update_of_ne heq] at h
      have := t.valid h
      simp only [List.length_append, List.length_singleton]
      omega

/-- Writes a cell. -/
def modify (t : Interned κ α) (place : Nat) (f : α → α) : Interned κ α where
  index := t.index
  cells := t.cells.modify place f
  valid := by
    intro key other h
    rw [List.length_modify]
    exact t.valid h

theorem cell_of_index {t : Interned κ α} {key : κ} {place : Nat}
    (h : t.index key = some place) : ∃ a, t.cells[place]? = some a :=
  ⟨_, List.getElem?_eq_getElem (t.valid h)⟩

section Add

variable [DecidableEq κ] (t : Interned κ α) (key : κ) (a : α)

@[simp] theorem index_add_self : (t.add key a).index key = some t.cells.length := by
  simp [add]

theorem index_add_of_ne {other : κ} (h : other ≠ key) :
    (t.add key a).index other = t.index other := by
  simp [add, h]

@[simp] theorem cells_add : (t.add key a).cells = t.cells ++ [a] := rfl

end Add

/-- Every key and every cell is still there. -/
structure Extends (t t' : Interned κ α) : Prop where
  index : ∀ {key place}, t.index key = some place → t'.index key = some place
  cells : t.cells <+: t'.cells

namespace Extends

variable {t t' t'' : Interned κ α}

theorem refl (t : Interned κ α) : t.Extends t := ⟨id, List.prefix_refl _⟩

theorem trans (h : t.Extends t') (h' : t'.Extends t'') : t.Extends t'' :=
  ⟨fun hkey => h'.index (h.index hkey), h.cells.trans h'.cells⟩

theorem cell (h : t.Extends t') {place : Nat} {a : α} (ha : t.cells[place]? = some a) :
    t'.cells[place]? = some a := by
  obtain ⟨rest, hrest⟩ := h.cells
  rw [← hrest, List.getElem?_append_left (List.getElem?_eq_some_iff.mp ha).1]
  exact ha

theorem add [DecidableEq κ] {key : κ} (hkey : t.index key = none) (a : α) :
    t.Extends (t.add key a) where
  index := by
    intro other place h
    have hne : other ≠ key := by
      intro heq
      simp [heq, hkey] at h
    rw [index_add_of_ne t key a hne]
    exact h
  cells := List.prefix_append _ _

/-- A run of operations of which none drops anything drops nothing. -/
theorem foldl {f : Interned κ α → β → Interned κ α}
    (hf : ∀ (t : Interned κ α) b, t.Extends (f t b))
    (t : Interned κ α) (bs : List β) : t.Extends (bs.foldl f t) := by
  induction bs generalizing t with
  | nil => exact refl t
  | cons b bs ih => exact (hf t b).trans (ih (f t b))

end Extends

/-- What holds of each key and its cell. -/
def Holds (P : κ → α → Prop) (t : Interned κ α) : Prop :=
  ∀ key place a, t.index key = some place → t.cells[place]? = some a → P key a

theorem holds_empty (P : κ → α → Prop) : (empty : Interned κ α).Holds P := nofun

theorem Holds.add [DecidableEq κ] {P : κ → α → Prop} {t : Interned κ α} (h : t.Holds P)
    {key : κ} {a : α} (ha : P key a) : (t.add key a).Holds P := by
  intro other place b hindex hcell
  by_cases heq : other = key
  · subst heq
    simp only [index_add_self, Option.some.injEq] at hindex
    simp only [cells_add, ← hindex, List.getElem?_concat_length, Option.some.injEq] at hcell
    exact hcell ▸ ha
  · rw [index_add_of_ne t key a heq] at hindex
    rw [cells_add, List.getElem?_append_left (t.valid hindex)] at hcell
    exact h other place b hindex hcell

end Interned

end Qslary.Foundation

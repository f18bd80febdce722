import Mathlib.Algebra.Order.Ring.Int
import Mathlib.Data.List.Sort
import Mathlib.Data.Prod.Lex

/-!
# Ordered sets

The finite ordered set behind `std::set`: a strictly increasing list.  Iteration
order is the list order, `begin` is its head, and the range from `begin` to
`lower_bound x` is the part below `x`.
-/

namespace Qslary.Foundation

structure OrderedSet (α : Type*) [LinearOrder α] where
  toList : List α
  sorted : toList.Pairwise (· < ·)

namespace OrderedSet

variable {α : Type*} [LinearOrder α]

instance : Membership α (OrderedSet α) := ⟨fun s x => x ∈ s.toList⟩

instance (x : α) (s : OrderedSet α) : Decidable (x ∈ s) :=
  inferInstanceAs (Decidable (x ∈ s.toList))

@[simp] theorem mem_toList {x : α} {s : OrderedSet α} : x ∈ s.toList ↔ x ∈ s := Iff.rfl

def empty : OrderedSet α := ⟨[], .nil⟩

def size (s : OrderedSet α) : Nat := s.toList.length

def front? (s : OrderedSet α) : Option α := s.toList.head?

private theorem orderedInsert_sorted {x : α} {l : List α} (hx : x ∉ l)
    (h : l.Pairwise (· < ·)) : (l.orderedInsert (· ≤ ·) x).Pairwise (· < ·) := by
  have hle : (l.orderedInsert (· ≤ ·) x).Pairwise (· ≤ ·) :=
    (h.imp fun hab => le_of_lt hab).orderedInsert x l
  have hnodup : (l.orderedInsert (· ≤ ·) x).Nodup :=
    (List.perm_orderedInsert (· ≤ ·) x l).nodup_iff.mpr
      (List.nodup_cons.mpr ⟨hx, h.imp fun hab => ne_of_lt hab⟩)
  exact hle.imp₂ (fun _ _ hab hne => lt_of_le_of_ne hab hne) hnodup

def insert (s : OrderedSet α) (x : α) : OrderedSet α :=
  if hx : x ∈ s.toList then s
  else ⟨s.toList.orderedInsert (· ≤ ·) x, orderedInsert_sorted hx s.sorted⟩

def erase (s : OrderedSet α) (x : α) : OrderedSet α :=
  ⟨s.toList.erase x, s.sorted.sublist List.erase_sublist⟩

def filter (s : OrderedSet α) (keep : α → Bool) : OrderedSet α :=
  ⟨s.toList.filter keep, s.sorted.sublist List.filter_sublist⟩

/-- The elements of the range from `begin` to `lower_bound x`. -/
def below (s : OrderedSet α) (x : α) : OrderedSet α := s.filter (· < x)

/-- The elements of the range from `lower_bound x` to `end`. -/
def notBelow (s : OrderedSet α) (x : α) : OrderedSet α := s.filter (fun y => ¬ y < x)

@[ext] theorem ext {s t : OrderedSet α} (h : ∀ x, x ∈ s ↔ x ∈ t) : s = t := by
  obtain ⟨l, hl⟩ := s
  obtain ⟨m, hm⟩ := t
  have hperm : l.Perm m :=
    (List.perm_ext_iff_of_nodup (hl.imp fun hab => ne_of_lt hab)
      (hm.imp fun hab => ne_of_lt hab)).mpr h
  have : l = m := hperm.eq_of_pairwise' hl hm
  subst this
  rfl

theorem nodup (s : OrderedSet α) : s.toList.Nodup :=
  s.sorted.imp fun hab => ne_of_lt hab

@[simp] theorem notMem_empty (x : α) : x ∉ (empty : OrderedSet α) := List.not_mem_nil

@[simp] theorem mem_insert {s : OrderedSet α} {x y : α} :
    y ∈ s.insert x ↔ y = x ∨ y ∈ s := by
  unfold insert
  split
  · rename_i hx
    constructor
    · exact Or.inr
    · rintro (rfl | hy)
      · exact hx
      · exact hy
  · exact List.mem_orderedInsert _

@[simp] theorem mem_erase {s : OrderedSet α} {x y : α} :
    y ∈ s.erase x ↔ y ≠ x ∧ y ∈ s :=
  s.nodup.mem_erase_iff

@[simp] theorem mem_filter {s : OrderedSet α} {keep : α → Bool} {y : α} :
    y ∈ s.filter keep ↔ y ∈ s ∧ keep y = true :=
  List.mem_filter

@[simp] theorem mem_below {s : OrderedSet α} {x y : α} :
    y ∈ s.below x ↔ y ∈ s ∧ y < x := by
  simp [below]

@[simp] theorem mem_notBelow {s : OrderedSet α} {x y : α} :
    y ∈ s.notBelow x ↔ y ∈ s ∧ x ≤ y := by
  simp [notBelow]

theorem front?_eq_none_iff {s : OrderedSet α} : s.front? = none ↔ ∀ x, x ∉ s := by
  rw [front?, List.head?_eq_none_iff, List.eq_nil_iff_forall_not_mem]
  rfl

theorem front?_eq_some_iff {s : OrderedSet α} {x : α} :
    s.front? = some x ↔ x ∈ s ∧ ∀ y ∈ s, x ≤ y := by
  obtain ⟨l, hl⟩ := s
  change l.head? = some x ↔ x ∈ l ∧ ∀ y ∈ l, x ≤ y
  cases l with
  | nil => simp
  | cons a l =>
      have ha : ∀ y ∈ l, a < y := (List.pairwise_cons.mp hl).1
      simp only [List.head?_cons, Option.some.injEq, List.mem_cons, forall_eq_or_imp]
      constructor
      · rintro rfl
        exact ⟨Or.inl rfl, le_refl _, fun y hy => le_of_lt (ha y hy)⟩
      · rintro ⟨rfl | hx, hxa, -⟩
        · rfl
        · exact absurd (ha x hx) (not_lt_of_ge hxa)

end OrderedSet

end Qslary.Foundation

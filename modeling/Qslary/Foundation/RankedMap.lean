import Mathlib.Algebra.Order.Ring.Int
import Mathlib.Data.List.Lex
import Mathlib.Order.Basic

/-!
# Ordered maps

The finite map behind `std::map` with a comparator: a list of entries whose keys
have strictly increasing ranks.  Keys of equal rank are the same key, of which the
first spelling stays.
-/

namespace Qslary.Foundation

variable {K V R : Type*} [LinearOrder R]

structure RankedMap (rank : K → R) (V : Type*) where
  entries : List (K × V)
  sorted : entries.Pairwise fun first second => rank first.1 < rank second.1

namespace RankedMap

variable {rank : K → R}

def empty : RankedMap rank V := ⟨[], .nil⟩

/-- `map[key] = value` on the entries. -/
def assign (rank : K → R) (key : K) (value : V) : List (K × V) → List (K × V)
  | [] => [(key, value)]
  | (other, old) :: rest =>
      if rank key < rank other then (key, value) :: (other, old) :: rest
      else if rank other < rank key then (other, old) :: assign rank key value rest
      else (other, value) :: rest

theorem rank_of_mem_assign {key : K} {value : V} {l : List (K × V)} {entry : K × V}
    (h : entry ∈ assign rank key value l) :
    rank entry.1 = rank key ∨ ∃ old ∈ l, rank entry.1 = rank old.1 := by
  induction l with
  | nil =>
      rw [assign, List.mem_singleton] at h
      exact .inl (by rw [h])
  | cons head rest ih =>
      obtain ⟨other, old⟩ := head
      unfold assign at h
      split at h
      · rcases List.mem_cons.mp h with rfl | h
        · exact .inl rfl
        · exact .inr ⟨entry, h, rfl⟩
      · split at h
        · rcases List.mem_cons.mp h with rfl | h
          · exact .inr ⟨_, List.mem_cons_self, rfl⟩
          · rcases ih h with hkey | ⟨found, hfound, heq⟩
            · exact .inl hkey
            · exact .inr ⟨found, List.mem_cons_of_mem _ hfound, heq⟩
        · rcases List.mem_cons.mp h with rfl | h
          · exact .inr ⟨_, List.mem_cons_self, rfl⟩
          · exact .inr ⟨entry, List.mem_cons_of_mem _ h, rfl⟩

theorem assign_sorted {key : K} {value : V} {l : List (K × V)}
    (h : l.Pairwise fun first second => rank first.1 < rank second.1) :
    (assign rank key value l).Pairwise fun first second => rank first.1 < rank second.1 := by
  induction l with
  | nil => exact List.pairwise_singleton _ _
  | cons head rest ih =>
      obtain ⟨other, old⟩ := head
      obtain ⟨hhead, hrest⟩ := List.pairwise_cons.mp h
      unfold assign
      split
      · rename_i hlt
        refine List.pairwise_cons.mpr ⟨fun entry hentry => ?_, h⟩
        rcases List.mem_cons.mp hentry with rfl | hentry
        · exact hlt
        · exact hlt.trans (hhead entry hentry)
      · split
        · rename_i hlt
          refine List.pairwise_cons.mpr ⟨fun entry hentry => ?_, ih hrest⟩
          rcases rank_of_mem_assign hentry with heq | ⟨found, hfound, heq⟩
          · rw [heq]
            exact hlt
          · rw [heq]
            exact hhead found hfound
        · exact List.pairwise_cons.mpr ⟨hhead, hrest⟩

theorem assign_last {key : K} {value : V} {l : List (K × V)}
    (h : ∀ entry ∈ l, rank entry.1 < rank key) :
    assign rank key value l = l ++ [(key, value)] := by
  induction l with
  | nil => rfl
  | cons head rest ih =>
      obtain ⟨other, old⟩ := head
      have hlt : rank other < rank key := h _ List.mem_cons_self
      rw [assign, if_neg hlt.asymm, if_pos hlt, ih fun entry hentry =>
        h entry (List.mem_cons_of_mem _ hentry)]
      rfl

def insert (m : RankedMap rank V) (key : K) (value : V) : RankedMap rank V :=
  ⟨assign rank key value m.entries, assign_sorted m.sorted⟩

def find? (m : RankedMap rank V) (key : K) : Option V :=
  (m.entries.find? fun entry => rank entry.1 = rank key).map Prod.snd

theorem forall_assign {P : K → Prop} {Q : V → Prop} {key : K} {value : V} {l : List (K × V)}
    (h : ∀ entry ∈ l, P entry.1 ∧ Q entry.2) (hkey : P key) (hvalue : Q value) :
    ∀ entry ∈ assign rank key value l, P entry.1 ∧ Q entry.2 := by
  induction l with
  | nil => simp [assign, hkey, hvalue]
  | cons head rest ih =>
      obtain ⟨hhead, hrest⟩ := List.forall_mem_cons.mp h
      unfold assign
      split
      · exact List.forall_mem_cons.mpr ⟨⟨hkey, hvalue⟩, h⟩
      · split
        · exact List.forall_mem_cons.mpr ⟨hhead, ih hrest⟩
        · exact List.forall_mem_cons.mpr ⟨⟨hhead.1, hvalue⟩, hrest⟩

/-- Keys that come in their order are kept in it. -/
theorem foldl_insert (value : V) {keys : List K} (m : RankedMap rank V)
    (hsorted : keys.Pairwise fun first second => rank first < rank second)
    (hlast : ∀ entry ∈ m.entries, ∀ key ∈ keys, rank entry.1 < rank key) :
    (keys.foldl (fun m key => m.insert key value) m).entries =
      m.entries ++ keys.map fun key => (key, value) := by
  induction keys generalizing m with
  | nil => exact (List.append_nil _).symm
  | cons key keys ih =>
      obtain ⟨hkey, hkeys⟩ := List.pairwise_cons.mp hsorted
      have hentries : (m.insert key value).entries = m.entries ++ [(key, value)] :=
        assign_last fun entry hentry => hlast entry hentry key List.mem_cons_self
      rw [List.foldl_cons, ih (m.insert key value) hkeys, hentries, List.append_assoc]
      · rfl
      · intro entry hentry other hother
        rw [hentries] at hentry
        rcases List.mem_append.mp hentry with hold | hnew
        · exact hlast entry hold other (List.mem_cons_of_mem _ hother)
        · rw [List.mem_singleton.mp hnew]
          exact hkey other hother

/-- Entries that come in their order are kept in it. -/
theorem foldl_insert_entries {l : List (K × V)} (m : RankedMap rank V)
    (h : (m.entries ++ l).Pairwise fun first second => rank first.1 < rank second.1) :
    (l.foldl (fun m entry => m.insert entry.1 entry.2) m).entries = m.entries ++ l := by
  induction l generalizing m with
  | nil => simp
  | cons entry l ih =>
      have hlast : ∀ old ∈ m.entries, rank old.1 < rank entry.1 := fun old hold =>
        (List.pairwise_append.mp h).2.2 old hold entry List.mem_cons_self
      have hentries : (m.insert entry.1 entry.2).entries = m.entries ++ [entry] :=
        assign_last hlast
      rw [List.foldl_cons, ih _ (by simpa [hentries] using h), hentries, List.append_assoc]
      rfl

theorem countP_rank_le_one {l : List (K × V)} {p : K × V → Bool} {r : R}
    (h : l.Pairwise fun first second => rank first.1 < rank second.1)
    (hp : ∀ entry, p entry = true → rank entry.1 = r) : l.countP p ≤ 1 := by
  induction l with
  | nil => exact Nat.zero_le 1
  | cons head rest ih =>
      obtain ⟨hhead, hrest⟩ := List.pairwise_cons.mp h
      rw [List.countP_cons]
      split
      · rename_i hfirst
        have hzero : rest.countP p = 0 := by
          rw [List.countP_eq_zero]
          intro entry hentry hsecond
          have hlt := hhead entry hentry
          rw [hp head hfirst, hp entry hsecond] at hlt
          exact lt_irrefl r hlt
        omega
      · exact ih hrest

/-! ## Looking up -/

/-- `map.erase(map.find(key))`, when there is such an entry. -/
def erase (m : RankedMap rank V) (key : K) : RankedMap rank V :=
  ⟨m.entries.eraseP fun entry => rank entry.1 = rank key,
    m.sorted.sublist (List.eraseP_sublist)⟩

def count (m : RankedMap rank V) (key : K) : Nat :=
  m.entries.countP fun entry => rank entry.1 = rank key

theorem count_pos_iff {m : RankedMap rank V} {key : K} :
    0 < m.count key ↔ (m.find? key).isSome := by
  simp [count, find?, List.countP_pos_iff]

theorem find?_assign {key other : K} {value : V} {l : List (K × V)}
    (h : l.Pairwise fun first second => rank first.1 < rank second.1) :
    ((assign rank key value l).find? fun entry => rank entry.1 = rank other).map Prod.snd =
      if rank key = rank other then some value
      else (l.find? fun entry => rank entry.1 = rank other).map Prod.snd := by
  induction l with
  | nil => by_cases heq : rank key = rank other <;> simp [assign, heq]
  | cons head rest ih =>
      obtain ⟨first, old⟩ := head
      obtain ⟨-, hrest⟩ := List.pairwise_cons.mp h
      unfold assign
      split
      · by_cases heq : rank key = rank other <;> simp [heq]
      · split
        · rename_i hlt
          by_cases hfirst : rank first = rank other
          · have hne : rank key ≠ rank other := (hfirst ▸ hlt).ne'
            simp [hfirst, hne]
          · simp [hfirst, ih hrest]
        · rename_i hle hge
          have heq : rank first = rank key := le_antisymm (not_lt.mp hle) (not_lt.mp hge)
          by_cases hother : rank key = rank other <;> simp [heq, hother]

theorem find?_insert (m : RankedMap rank V) (key other : K) (value : V) :
    (m.insert key value).find? other =
      if rank key = rank other then some value else m.find? other :=
  find?_assign m.sorted

theorem find?_erase (m : RankedMap rank V) (key other : K) :
    (m.erase key).find? other = if rank key = rank other then none else m.find? other := by
  obtain ⟨entries, hsorted⟩ := m
  simp only [erase, find?]
  induction entries with
  | nil => simp
  | cons head rest ih =>
      obtain ⟨hhead, hrest⟩ := List.pairwise_cons.mp hsorted
      by_cases hkey : rank head.1 = rank key
      · rw [List.eraseP_cons_of_pos (by simpa using hkey)]
        by_cases hother : rank key = rank other
        · have hnone : rest.find? (fun entry => rank entry.1 = rank other) = none := by
            rw [List.find?_eq_none]
            intro entry hentry
            have hlt := hhead entry hentry
            rw [hkey, hother] at hlt
            simpa using hlt.ne'
          simp [hnone, hother]
        · simp [hkey, hother]
      · rw [List.eraseP_cons_of_neg (by simpa using hkey)]
        by_cases hfirst : rank head.1 = rank other
        · have hne : rank key ≠ rank other := fun h => hkey (hfirst.trans h.symm)
          simp [hfirst, hne]
        · rw [List.find?_cons_of_neg (by simpa using hfirst),
            List.find?_cons_of_neg (by simpa using hfirst)]
          exact ih hrest

end RankedMap

end Qslary.Foundation

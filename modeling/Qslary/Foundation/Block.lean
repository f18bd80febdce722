import Mathlib.Algebra.Order.Ring.Int
import Mathlib.Data.List.TakeDrop

/-!
# Copies inside a block of cells

`copyWithin` is the forward element-by-element copy, in which the destination may
overlap the source; every read and every write is checked against the block.  A copy
towards lower addresses moves the source unchanged.
-/

namespace Qslary.Foundation.Block

variable {α : Type*}

/-- The cells from `first` up to `last`. -/
def slice (block : List α) (first last : Nat) : List α :=
  (block.drop first).take (last - first)

def copyWithin (block : List α) (src dst : Nat) : Nat → Option (List α)
  | 0 => some block
  | n + 1 => do
      let x ← block[src]?
      if dst < block.length then copyWithin (block.set dst x) (src + 1) (dst + 1) n else none

/-- A copy from outside the block. -/
def blit (block : List α) (dst : Nat) (xs : List α) : Option (List α) :=
  if dst + xs.length ≤ block.length then
    some (block.take dst ++ xs ++ block.drop (dst + xs.length))
  else none

def resize (block : List α) (n : Nat) (fill : α) : List α :=
  block.take n ++ List.replicate (n - block.length) fill

theorem length_slice {block : List α} {first last : Nat} (hlast : last ≤ block.length) :
    (slice block first last).length = last - first := by
  simp only [slice, List.length_take, List.length_drop]
  omega

theorem slice_append_slice {block : List α} {first mid last : Nat} (h₁ : first ≤ mid)
    (h₂ : mid ≤ last) :
    slice block first mid ++ slice block mid last = slice block first last := by
  obtain ⟨a, rfl⟩ := Nat.exists_eq_add_of_le h₁
  obtain ⟨b, rfl⟩ := Nat.exists_eq_add_of_le h₂
  simp only [slice, Nat.add_sub_cancel_left]
  rw [show first + a + b - first = a + b by omega, List.take_add, List.drop_drop]

theorem length_resize (block : List α) (n : Nat) (fill : α) :
    (resize block n fill).length = n := by
  simp only [resize, List.length_append, List.length_take, List.length_replicate]
  omega

theorem slice_resize {block : List α} {first last n : Nat} (fill : α)
    (hlast : last ≤ block.length) (hn : last ≤ n) :
    slice (resize block n fill) first last = slice block first last := by
  apply List.ext_getElem?
  intro i
  simp only [slice, resize, List.getElem?_take, List.getElem?_drop, List.getElem?_append]
  split
  · rename_i hi
    have hlt : first + i < (block.take n).length := by
      simp only [List.length_take]
      omega
    rw [if_pos hlt, if_pos (by omega)]
  · rfl

theorem blit_eq {block : List α} {dst : Nat} {xs : List α}
    (h : dst + xs.length ≤ block.length) :
    blit block dst xs = some (block.take dst ++ xs ++ block.drop (dst + xs.length)) := by
  simp [blit, h]

theorem length_blit {block out : List α} {dst : Nat} {xs : List α}
    (h : blit block dst xs = some out) : out.length = block.length := by
  unfold blit at h
  split at h
  · cases h
    simp only [List.length_append, List.length_take, List.length_drop]
    omega
  · cases h

theorem slice_blit_before {block out : List α} {dst first : Nat} {xs : List α}
    (h : blit block dst xs = some out) : slice out first dst = slice block first dst := by
  unfold blit at h
  split at h
  · rename_i hle
    cases h
    apply List.ext_getElem?
    intro i
    simp only [slice, List.getElem?_take, List.getElem?_drop, List.append_assoc]
    split
    · rename_i hi
      have hlt : first + i < (block.take dst).length := by
        simp only [List.length_take]
        omega
      rw [List.getElem?_append_left hlt, List.getElem?_take, if_pos (by omega)]
    · rfl
  · cases h

theorem slice_blit_self {block out : List α} {dst : Nat} {xs : List α}
    (h : blit block dst xs = some out) : slice out dst (dst + xs.length) = xs := by
  unfold blit at h
  split at h
  · rename_i hle
    cases h
    have hlen : (block.take dst).length = dst := by
      simp only [List.length_take]
      omega
    simp only [slice, List.append_assoc, Nat.add_sub_cancel_left]
    rw [List.drop_append_of_le_length (by omega), List.drop_of_length_le (by omega)]
    simp
  · cases h

/-- Up to its end a copy leaves what was before it and what has been copied. -/
theorem take_blit {block out : List α} {dst : Nat} {xs : List α} (h : blit block dst xs = some out) :
    out.take (dst + xs.length) = block.take dst ++ xs := by
  unfold blit at h
  split at h
  · cases h
    have hlen : (block.take dst ++ xs).length = dst + xs.length := by
      rw [List.length_append, List.length_take]
      omega
    rw [List.take_append_of_le_length hlen.ge, List.take_of_length_le hlen.le]
  · cases h

theorem drop_blit {block out : List α} {dst last : Nat} {xs : List α}
    (h : blit block dst xs = some out) (hlast : dst + xs.length ≤ last) :
    out.drop last = block.drop last := by
  unfold blit at h
  split at h
  · cases h
    have hlen : (block.take dst ++ xs).length = dst + xs.length := by
      rw [List.length_append, List.length_take]
      omega
    rw [List.drop_append, List.drop_of_length_le (by omega), hlen, List.drop_drop, List.nil_append]
    congr 1
    omega
  · cases h

theorem length_copyWithin {block out : List α} {src dst n : Nat}
    (h : copyWithin block src dst n = some out) : out.length = block.length := by
  induction n generalizing block src dst with
  | zero =>
      cases h
      rfl
  | succ n ih =>
      obtain ⟨x, -, h⟩ := Option.bind_eq_some_iff.mp h
      split at h
      · exact (ih h).trans List.length_set
      · cases h

/-- Towards lower addresses the source is read before it is overwritten. -/
theorem copyWithin_eq {block : List α} {src dst n : Nat} (hle : dst ≤ src)
    (hbound : src + n ≤ block.length) :
    copyWithin block src dst n =
      some (block.take dst ++ slice block src (src + n) ++ block.drop (dst + n)) := by
  induction n generalizing block src dst with
  | zero =>
      simp [copyWithin, slice]
  | succ n ih =>
      have hsrc : src < block.length := by omega
      have htail : copyWithin (block.set dst block[src]) (src + 1) (dst + 1) n = _ :=
        ih (by omega) (by rw [List.length_set]; omega)
      simp only [copyWithin, List.getElem?_eq_getElem hsrc, Option.bind_eq_bind, Option.bind_some]
      rw [if_pos (by omega), htail]
      congr 1
      have hhead : (block.set dst block[src]).take (dst + 1) = block.take dst ++ [block[src]] := by
        rw [List.take_set, List.take_add_one, List.getElem?_eq_getElem (by omega)]
        rw [List.set_append_right _ _ (by rw [List.length_take]; exact Nat.min_le_left _ _)]
        simp only [List.length_take, Option.toList_some]
        rw [show dst - min dst block.length = 0 by omega]
        rfl
      have hmid : slice (block.set dst block[src]) (src + 1) (src + 1 + n) =
          slice block (src + 1) (src + 1 + n) := by
        rw [slice, slice, List.drop_set_of_lt (by omega)]
      have hrest : (block.set dst block[src]).drop (dst + 1 + n) = block.drop (dst + (n + 1)) := by
        rw [List.drop_set_of_lt (by omega), show dst + 1 + n = dst + (n + 1) by omega]
      have hslice : slice block src (src + (n + 1)) =
          block[src] :: slice block (src + 1) (src + 1 + n) := by
        simp only [slice, Nat.add_sub_cancel_left]
        rw [List.drop_eq_getElem_cons hsrc, List.take_succ_cons]
      rw [hhead, hmid, hrest, hslice]
      simp

theorem slice_copyWithin {block out : List α} {src dst n : Nat} (hle : dst ≤ src)
    (hbound : src + n ≤ block.length) (h : copyWithin block src dst n = some out) :
    out.length = block.length ∧ slice out dst (dst + n) = slice block src (src + n) := by
  rw [copyWithin_eq hle hbound] at h
  cases h
  have hlen : (slice block src (src + n)).length = n := by
    rw [length_slice hbound]
    omega
  have hdst : (block.take dst).length = dst := by
    simp only [List.length_take]
    omega
  constructor
  · simp only [List.length_append, hlen, hdst, List.length_drop]
    omega
  · rw [slice, List.append_assoc, Nat.add_sub_cancel_left,
      List.drop_append_of_le_length (by omega), List.drop_of_length_le (by omega),
      List.nil_append, List.take_append_of_le_length (by omega), List.take_of_length_le (by omega)]

/-! ## Copies towards higher addresses -/

/-- What a copy towards higher addresses leaves alone, and that it copies its own output. -/
theorem copyWithin_forward {block : List α} {src dst n : Nat} (hlt : src < dst)
    (hbound : dst + n ≤ block.length) :
    ∃ out, copyWithin block src dst n = some out ∧ out.length = block.length ∧
      (∀ j, j < dst ∨ dst + n ≤ j → out[j]? = block[j]?) ∧
      ∀ i < n, out[dst + i]? = out[src + i]? := by
  induction n generalizing block src dst with
  | zero => exact ⟨block, rfl, rfl, fun _ _ => rfl, nofun⟩
  | succ n ih =>
      have hsrc : src < block.length := by omega
      have hdst : dst < block.length := by omega
      obtain ⟨out, hcopy, hlength, hframe, hcopied⟩ :=
        @ih (block.set dst block[src]) (src + 1) (dst + 1) (by omega)
          (by rw [List.length_set]; omega)
      rw [List.length_set] at hlength
      refine ⟨out, ?_, hlength, fun j hj => ?_, fun i hi => ?_⟩
      · simp only [copyWithin, List.getElem?_eq_getElem hsrc, Option.bind_eq_bind,
          Option.bind_some, if_pos hdst, hcopy]
      · rw [hframe j (by omega), List.getElem?_set_ne (by omega)]
      · cases i with
        | zero =>
            have hfirst := hframe dst (by omega)
            have hread := hframe src (by omega)
            rw [List.getElem?_set_self hdst] at hfirst
            rw [List.getElem?_set_ne (by omega), List.getElem?_eq_getElem hsrc] at hread
            exact hfirst.trans hread.symm
        | succ i =>
            have hnext := hcopied i (by omega)
            rwa [Nat.add_assoc, Nat.add_assoc, Nat.add_comm 1 i] at hnext

/-- A list that has the period `d`: what stands behind its first `d` places is its front. -/
def Repeats (d : Nat) (xs : List α) : Prop := xs.drop d <+: xs

instance [DecidableEq α] (d : Nat) (xs : List α) : Decidable (Repeats d xs) :=
  inferInstanceAs (Decidable (_ <+: _))

theorem repeats_iff {d : Nat} {xs : List α} :
    Repeats d xs ↔ ∀ i, i + d < xs.length → xs[i]? = xs[i + d]? := by
  constructor
  · rintro ⟨rest, hrest⟩ i hi
    have hlt : i < (xs.drop d).length := by
      rw [List.length_drop]
      omega
    have hfront : xs[i]? = (xs.drop d)[i]? := by
      conv_lhs => rw [← hrest]
      exact List.getElem?_append_left hlt
    rw [hfront, List.getElem?_drop, Nat.add_comm]
  · intro h
    rw [Repeats, List.prefix_iff_eq_take]
    apply List.ext_getElem?
    intro i
    rw [List.getElem?_drop, List.getElem?_take, List.length_drop]
    split
    · rw [h i (by omega), Nat.add_comm]
    · exact List.getElem?_eq_none (by omega)

theorem repeats_zero (xs : List α) : Repeats 0 xs := List.prefix_refl xs

theorem getElem?_slice {block : List α} {first last i : Nat} (hi : i < last - first) :
    (slice block first last)[i]? = block[first + i]? := by
  rw [slice, List.getElem?_take_of_lt hi, List.getElem?_drop]

/--
A copy towards higher addresses moves the source unchanged exactly when what it overwrites
of the source repeats what it has read already.
-/
theorem slice_copyWithin_forward {block : List α} {src dst n : Nat} (hlt : src < dst)
    (hbound : dst + n ≤ block.length) :
    ∃ out, copyWithin block src dst n = some out ∧ out.length = block.length ∧
      (slice out dst (dst + n) = slice block src (src + n) ↔
        Repeats (dst - src) (slice block src (src + n))) := by
  obtain ⟨out, hcopy, hlength, hframe, hcopied⟩ := copyWithin_forward hlt hbound
  have hlen : (slice block src (src + n)).length = n := by
    rw [length_slice (by omega)]
    omega
  have hlen' : (slice out dst (dst + n)).length = n := by
    rw [length_slice (by omega)]
    omega
  have hsource : ∀ i < n, (slice block src (src + n))[i]? = block[src + i]? :=
    fun i hi => getElem?_slice (by omega)
  have hmoved : ∀ i < n, (slice out dst (dst + n))[i]? = out[dst + i]? :=
    fun i hi => getElem?_slice (by omega)
  refine ⟨out, hcopy, hlength, ?_⟩
  rw [repeats_iff, hlen]
  constructor
  · intro heq i hi
    have hsame : out[dst + i]? = block[src + i]? := by
      rw [← hmoved i (by omega), heq, hsource i (by omega)]
    have hlater : out[dst + (i + (dst - src))]? = block[src + (i + (dst - src))]? := by
      rw [← hmoved _ hi, heq, hsource _ hi]
    have hback := hcopied (i + (dst - src)) hi
    rw [show src + (i + (dst - src)) = dst + i by omega] at hback hlater
    rw [hsource i (by omega), hsource _ hi, show src + (i + (dst - src)) = dst + i by omega,
      ← hsame, ← hlater, hback]
  · intro hrepeats
    have hsame : ∀ i < n, out[dst + i]? = block[src + i]? := by
      intro i
      induction i using Nat.strong_induction_on with
      | h i ih =>
          intro hi
          rw [hcopied i hi]
          by_cases hfront : src + i < dst
          · exact hframe _ (Or.inl hfront)
          · have hback := ih (i - (dst - src)) (by omega) (by omega)
            have hperiod := hrepeats (i - (dst - src)) (by omega)
            rw [hsource _ (by omega), Nat.sub_add_cancel (by omega), hsource i hi] at hperiod
            rw [show dst + (i - (dst - src)) = src + i by omega] at hback
            exact hback.trans hperiod
    apply List.ext_getElem?
    intro i
    by_cases hi : i < n
    · rw [hmoved i hi, hsource i hi, hsame i hi]
    · rw [List.getElem?_eq_none (by omega), List.getElem?_eq_none (by omega)]

end Qslary.Foundation.Block

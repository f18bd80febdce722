import Mathlib.Algebra.Order.Ring.Int
import Mathlib.Data.List.Basic

/-!
# Bits in network order

A word or a string of bytes is the string of its bits, from the most significant one on.
Bitwise operations on words are then operations position by position, and a prefix length
cuts a string in two: what stands in front of it is kept, and what stands behind it is
filled with one bit.
-/

namespace Qslary.Foundation

abbrev Bits := List Bool

/-! ## Words -/

def msbBits {w : Nat} (x : BitVec w) : Bits := (List.range w).map x.getMsbD

@[simp] theorem length_msbBits {w : Nat} (x : BitVec w) : (msbBits x).length = w := by
  simp [msbBits]

theorem getElem_msbBits {w : Nat} (x : BitVec w) {i : Nat} (h : i < (msbBits x).length) :
    (msbBits x)[i] = x.getMsbD i := by
  simp [msbBits]

theorem getElem?_msbBits {w : Nat} (x : BitVec w) {i : Nat} (h : i < w) :
    (msbBits x)[i]? = some (x.getMsbD i) := by
  simp [msbBits, h]

theorem msbBits_inj {w : Nat} {x y : BitVec w} : msbBits x = msbBits y ↔ x = y := by
  constructor
  · intro h
    apply BitVec.eq_of_getMsbD_eq
    intro i hi
    have hbit := congrArg (·[i]?) h
    simpa only [getElem?_msbBits _ hi, Option.some.injEq] using hbit
  · rintro rfl
    rfl

theorem msbBits_and {w : Nat} (x y : BitVec w) :
    msbBits (x &&& y) = List.zipWith (· && ·) (msbBits x) (msbBits y) := by
  apply List.ext_getElem
  · simp
  · intro i hi _
    simp [msbBits, BitVec.getMsbD_and]

theorem msbBits_or {w : Nat} (x y : BitVec w) :
    msbBits (x ||| y) = List.zipWith (· || ·) (msbBits x) (msbBits y) := by
  apply List.ext_getElem
  · simp
  · intro i hi _
    simp [msbBits, BitVec.getMsbD_or]

theorem msbBits_not {w : Nat} (x : BitVec w) : msbBits (~~~x) = (msbBits x).map (!·) := by
  apply List.ext_getElem
  · simp
  · intro i hi _
    rw [length_msbBits] at hi
    simp [msbBits, BitVec.getMsbD_not, hi]

/-- A number one below a power of two ends in ones. -/
theorem msbBits_ones {w p : Nat} (hp : p ≤ w) :
    msbBits (BitVec.ofNat w (2 ^ (w - p) - 1)) =
      List.replicate p false ++ List.replicate (w - p) true := by
  apply List.ext_getElem
  · simp
    omega
  · intro i hi _
    rw [length_msbBits] at hi
    rw [getElem_msbBits, List.getElem_append, BitVec.getMsbD_eq_getLsbD, BitVec.getLsbD_ofNat,
      Nat.testBit_two_pow_sub_one]
    split
    · rename_i hfront
      rw [List.length_replicate] at hfront
      simp only [List.getElem_replicate, Bool.and_eq_false_iff, decide_eq_false_iff_not]
      omega
    · rename_i hback
      rw [List.length_replicate] at hback
      simp only [List.getElem_replicate, Bool.and_eq_true, decide_eq_true_eq]
      omega

/-! ## Strings of bytes -/

def bitsOf (bytes : List UInt8) : Bits := bytes.flatMap fun byte => msbBits byte.toBitVec

@[simp] theorem bitsOf_nil : bitsOf [] = [] := rfl

@[simp] theorem bitsOf_cons (byte : UInt8) (bytes : List UInt8) :
    bitsOf (byte :: bytes) = msbBits byte.toBitVec ++ bitsOf bytes :=
  List.flatMap_cons

@[simp] theorem bitsOf_append (front back : List UInt8) :
    bitsOf (front ++ back) = bitsOf front ++ bitsOf back :=
  List.flatMap_append

@[simp] theorem length_bitsOf (bytes : List UInt8) : (bitsOf bytes).length = 8 * bytes.length := by
  induction bytes with
  | nil => rfl
  | cons byte bytes ih =>
      rw [bitsOf_cons, List.length_append, length_msbBits, ih, List.length_cons]
      omega

theorem bitsOf_replicate (n : Nat) {byte : UInt8} {bit : Bool}
    (h : msbBits byte.toBitVec = List.replicate 8 bit) :
    bitsOf (List.replicate n byte) = List.replicate (8 * n) bit := by
  induction n with
  | zero => rfl
  | succ n ih =>
      rw [List.replicate_succ, bitsOf_cons, h, ih, List.replicate_append_replicate]
      congr 1
      omega

theorem bitsOf_eq_zeros_iff (bytes : List UInt8) :
    bitsOf bytes = List.replicate (8 * bytes.length) false ↔ ∀ byte ∈ bytes, byte = 0 := by
  have hzero : msbBits (0 : UInt8).toBitVec = List.replicate 8 false := by decide
  constructor
  · intro h
    induction bytes with
    | nil => simp
    | cons byte bytes ih =>
        rw [bitsOf_cons, List.length_cons, Nat.mul_succ, Nat.add_comm,
          ← List.replicate_append_replicate] at h
        obtain ⟨hfirst, hrest⟩ := List.append_inj h (by simp)
        rw [← hzero, msbBits_inj, UInt8.toBitVec_inj] at hfirst
        simpa [hfirst] using ih hrest
  · intro h
    rw [List.eq_replicate_of_mem h, bitsOf_replicate _ hzero, List.length_replicate]

/-! ## Prefixes -/

/-- The first `p` bits, and `fill` in the place of the others. -/
def keepThen (p : Nat) (fill : Bool) (bits : Bits) : Bits :=
  bits.take p ++ List.replicate (bits.length - p) fill

theorem zipWith_or_host (p : Nat) (bits : Bits) (hp : p ≤ bits.length) :
    List.zipWith (· || ·) bits
        (List.replicate p false ++ List.replicate (bits.length - p) true) =
      keepThen p true bits := by
  apply List.ext_getElem
  · simp [keepThen]
    omega
  · intro i hi _
    simp only [keepThen, List.getElem_zipWith, List.getElem_append, List.length_replicate,
      List.getElem_replicate, List.getElem_take, List.length_take]
    have hmin : min p bits.length = p := Nat.min_eq_left hp
    by_cases h : i < p <;> simp [h, hmin]

theorem zipWith_and_host (p : Nat) (bits : Bits) (hp : p ≤ bits.length) :
    List.zipWith (· && ·) bits
        (List.replicate p false ++ List.replicate (bits.length - p) true) =
      List.replicate p false ++ bits.drop p := by
  apply List.ext_getElem
  · simp
    omega
  · intro i hi _
    simp only [List.getElem_zipWith, List.getElem_append, List.length_replicate,
      List.getElem_replicate, List.getElem_drop]
    by_cases h : i < p
    · simp [h]
    · have hback : p + (i - p) = i := by omega
      simp [h, hback]

theorem map_not_host (p q : Nat) :
    (List.replicate p false ++ List.replicate q true).map (!·) =
      List.replicate p true ++ List.replicate q false := by
  simp

/-- Clearing the front where the back was meant goes unnoticed on zeros only. -/
theorem clearFront_eq_keepThen_iff (p : Nat) (bits : Bits) (hp : p ≤ bits.length) :
    List.replicate p false ++ bits.drop p = keepThen p false bits ↔
      bits = List.replicate bits.length false := by
  have hlen : (bits.take p).length = p := List.length_take_of_le hp
  have hsplit : List.replicate bits.length false =
      List.replicate p false ++ List.replicate (bits.length - p) false := by
    rw [List.replicate_append_replicate]
    congr 1
    omega
  constructor
  · intro h
    obtain ⟨hfront, hback⟩ := List.append_inj h (by rw [hlen, List.length_replicate])
    calc bits = bits.take p ++ bits.drop p := (List.take_append_drop p bits).symm
      _ = List.replicate p false ++ List.replicate (bits.length - p) false := by
          rw [← hfront, hback]
      _ = List.replicate bits.length false := hsplit.symm
  · intro h
    rw [keepThen]
    congr 1
    · rw [h, List.take_replicate, Nat.min_eq_left hp]
    · rw [h, List.drop_replicate, List.length_replicate]

theorem keepThen_append (front back : Bits) (k : Nat) (fill : Bool) :
    keepThen (front.length + k) fill (front ++ back) = front ++ keepThen k fill back := by
  rw [keepThen, keepThen, List.take_length_add_append, List.append_assoc, List.length_append,
    Nat.add_sub_add_left]

theorem keepThen_append_of_le {front : Bits} (back : Bits) {k : Nat} (fill : Bool)
    (hk : k ≤ front.length) :
    keepThen k fill (front ++ back) =
      keepThen k fill front ++ List.replicate back.length fill := by
  rw [keepThen, keepThen, List.take_append_of_le_length hk, List.append_assoc,
    List.replicate_append_replicate, List.length_append]
  congr 2
  omega

/-- The byte in which a prefix ends, and the bytes before and behind it. -/
theorem keepThen_bitsOf (bytes : List UInt8) {q k : Nat} (hq : q < bytes.length) (hk : k ≤ 8)
    (fill : Bool) :
    keepThen (8 * q + k) fill (bitsOf bytes) =
      bitsOf (bytes.take q) ++ (keepThen k fill (msbBits bytes[q].toBitVec) ++
        List.replicate (8 * (bytes.length - (q + 1))) fill) := by
  have hsplit : bytes = bytes.take q ++ bytes[q] :: bytes.drop (q + 1) := by simp
  have hlen : (bitsOf (bytes.take q)).length = 8 * q := by
    rw [length_bitsOf, List.length_take_of_le hq.le]
  conv_lhs => rw [hsplit, bitsOf_append, bitsOf_cons]
  rw [← hlen, keepThen_append, keepThen_append_of_le _ _ (by simpa using hk), length_bitsOf,
    List.length_drop]

end Qslary.Foundation

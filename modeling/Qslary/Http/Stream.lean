import Qslary.Foundation.Text

/-!
# Reading from a socket

A socket hands out what the peer has sent in pieces of any size.  `sizes` is what each
read would return if there were no bound; a read returns at least one byte and at most
what is asked for and what is there.
-/

namespace Qslary.Http

open Qslary.Foundation

structure Stream where
  input : Bytes
  sizes : Nat → Nat
  connected : Bool

namespace Stream

/-- How many bytes a read for `length` bytes returns. -/
def count (s : Stream) (length : Nat) : Nat := min (max 1 (s.sizes 0)) (min length s.input.length)

/-- `SockStream::read`; no bytes stand for a result that is not positive. -/
def read (s : Stream) (length : Nat) : Bytes × Stream :=
  if s.connected && s.input ≠ [] then
    (s.input.take (s.count length),
      { s with input := s.input.drop (s.count length), sizes := fun i => s.sizes (i + 1) })
  else ([], s)

def close (s : Stream) : Stream := { s with connected := false }

/-- The loop of `readFixSize`: nothing if a read fails. -/
def readLoop : Nat → Stream → Nat → Option Bytes × Stream
  | _, s, 0 => (some [], s)
  | 0, s, _ + 1 => (none, s)
  | fuel + 1, s, left + 1 =>
      match s.read (left + 1) with
      | ([], s) => (none, s)
      | (bytes, s) =>
          match readLoop fuel s (left + 1 - bytes.length) with
          | (some rest, s) => (some (bytes ++ rest), s)
          | (none, s) => (none, s)

/-- `(int)length` -/
def toInt (length : Nat) : Int :=
  if length % 2 ^ 32 < 2 ^ 31 then (length % 2 ^ 32 : Nat) else (length % 2 ^ 32 : Nat) - 2 ^ 32

/-- `readFixSize(buffer, length)`, with the bytes it has put into the buffer. -/
def readFixSize (s : Stream) (length : Nat) : Int × Bytes × Stream :=
  match readLoop length s length with
  | (some bytes, s) => (toInt length, bytes, s)
  | (none, s) => (0, [], s)

/-! ## What the loop gets -/

theorem read_connected {s : Stream} {length : Nat} (hconnected : s.connected = true)
    (hne : s.input ≠ []) :
    s.read length = (s.input.take (s.count length),
      { s with input := s.input.drop (s.count length), sizes := fun i => s.sizes (i + 1) }) := by
  simp [read, hconnected, hne]

theorem count_pos {s : Stream} {length : Nat} (hlength : 0 < length) (hne : s.input ≠ []) :
    0 < s.count length := by
  have hpos := List.length_pos_iff.mpr hne
  unfold count
  omega

theorem count_le (s : Stream) (length : Nat) :
    s.count length ≤ length ∧ s.count length ≤ s.input.length := by
  unfold count
  omega

/-- However the reads go, the loop gets the bytes that are next. -/
theorem readLoop_eq {fuel left : Nat} {s : Stream} (hfuel : left ≤ fuel)
    (hconnected : s.connected = true) (hinput : left ≤ s.input.length) :
    ∃ sizes, readLoop fuel s left =
      (some (s.input.take left), ⟨s.input.drop left, sizes, true⟩) := by
  induction fuel generalizing s left with
  | zero =>
      obtain rfl : left = 0 := Nat.le_zero.mp hfuel
      exact ⟨s.sizes, by simp [readLoop, ← hconnected]⟩
  | succ fuel ih =>
      cases left with
      | zero => exact ⟨s.sizes, by simp [readLoop, ← hconnected]⟩
      | succ left =>
          have hne : s.input ≠ [] := by
            intro hnil
            rw [hnil] at hinput
            cases hinput
          have hpos : 0 < s.count (left + 1) := count_pos (Nat.succ_pos left) hne
          obtain ⟨hle, hthere⟩ := count_le s (left + 1)
          obtain ⟨n, hn⟩ : ∃ n, left + 1 = s.count (left + 1) + n := Nat.exists_eq_add_of_le hle
          have htake : (s.input.take (s.count (left + 1))).length = s.count (left + 1) :=
            List.length_take_of_le hthere
          obtain ⟨sizes, hrest⟩ := @ih n
            ⟨s.input.drop (s.count (left + 1)), fun i => s.sizes (i + 1), true⟩
            (by omega) rfl (by rw [List.length_drop]; omega)
          refine ⟨sizes, ?_⟩
          rw [readLoop, read_connected hconnected hne]
          cases hbytes : s.input.take (s.count (left + 1)) with
          | nil =>
              rw [hbytes, List.length_nil] at htake
              omega
          | cons byte bytes =>
              have hleft : left + 1 - s.count (left + 1) = n := by omega
              simp only [hconnected, ← hbytes, htake, hleft, hrest, List.drop_drop]
              rw [← List.take_add, ← hn]

end Stream

end Qslary.Http

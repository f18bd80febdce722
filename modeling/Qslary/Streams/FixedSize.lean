import Qslary.Foundation.Block
import Qslary.Foundation.Transfer
import Qslary.Http.Stream

/-!
# Streams of fixed size

`Stream::readFixSize` and `Stream::writeFixSize` of `net/Stream.cc` call the virtual `read`
and `write` for what is left until it is there.  The calls return what they like, at most
the size that they are asked for.
-/

namespace Qslary.Streams

open Qslary.Foundation
open Qslary.Http.Stream (toInt)

/-- A copy that leaves the caller's buffer. -/
inductive Fault where
  | outOfBounds
  deriving DecidableEq, Repr

/-- `int64_t left = length`, as far as the loop runs for it. -/
def toLeft (length : Nat) : Nat := if length < 2 ^ 63 then length else 0

theorem toLeft_eq {length : Nat} (h : length < 2 ^ 31) : toLeft length = length :=
  if_pos (by omega)

theorem toInt_eq {length : Nat} (h : length < 2 ^ 31) : toInt length = length := by
  have hmod : length % 2 ^ 32 = length := Nat.mod_eq_of_lt (by omega)
  rw [toInt, hmod, if_pos h]

/-! ## The loops -/

/-- What a call of `read` returns, and the bytes that it puts into the buffer. -/
structure Reply where
  len : Int
  bytes : Bytes
  length_eq : bytes.length = len.toNat

/-- A buffer, the replies still to come, and where and for how much was asked so far. -/
structure Reading where
  buffer : Bytes
  replies : Nat → Reply
  asked : List (Nat × Nat)

namespace Reading

/-- `read((char *)buffer + offset, left)` -/
def read (s : Reading) (offset left : Nat) : Except Fault (Int × Reading) :=
  let reply := s.replies 0
  match Block.blit s.buffer offset reply.bytes with
  | none => .error .outOfBounds
  | some buffer =>
      .ok (reply.len, ⟨buffer, fun i => s.replies (i + 1), s.asked ++ [(offset, left)]⟩)

/-- `readFixSize(buffer, length)` -/
def readFixSize (s : Reading) (length : Nat) : Except Fault (Int × Reading) := do
  let (early, s) ← transfer read s 0 (toLeft length)
  return (early.getD (toInt length), s)

end Reading

/-- A buffer, the results still to come, and the chunks that were accepted so far. -/
structure Writing where
  buffer : Bytes
  results : Nat → Int
  accepted : List Bytes
  asked : List (Nat × Nat)

namespace Writing

/-- `write((const char *)buffer + offset, left)` -/
def write (s : Writing) (offset left : Nat) : Except Fault (Int × Writing) :=
  if s.buffer.length < offset + left then .error .outOfBounds
  else
    let len := s.results 0
    let accepted :=
      if 0 < len then s.accepted ++ [Block.slice s.buffer offset (offset + len.toNat)]
      else s.accepted
    .ok (len, ⟨s.buffer, fun i => s.results (i + 1), accepted, s.asked ++ [(offset, left)]⟩)

/-- `writeFixSize(buffer, length)` -/
def writeFixSize (s : Writing) (length : Nat) : Except Fault (Int × Writing) := do
  let (early, s) ← transfer write s 0 (toLeft length)
  return (early.getD (toInt length), s)

end Writing

/-! ## What is to be transferred -/

def lens (replies : Nat → Reply) (i : Nat) : Int := (replies i).len

/-- The bytes of the first `k` replies. -/
def received (replies : Nat → Reply) : Nat → Bytes
  | 0 => []
  | k + 1 => received replies k ++ (replies k).bytes

/-- The first `k` results come to `n` before any that is not positive. -/
def Delivers (results : Nat → Int) (n : Nat) : Prop :=
  ∃ k, Going results k ∧ moved results k = n

/-- Each call goes on behind the one before, for less. -/
def Progresses (asked : List (Nat × Nat)) : Prop :=
  asked.Pairwise fun earlier later => earlier.1 < later.1 ∧ later.2 < earlier.2

structure ReadExactly (replies : Nat → Reply) (buffer : Bytes) (n : Nat) (ret : Int)
    (s : Reading) : Prop where
  returns_iff : ret = n ↔ Delivers (lens replies) n
  ended : ∃ k, Ends (lens replies) n k ∧
    s.buffer = received replies k ++ buffer.drop (received replies k).length ∧
    (received replies k).length = moved (lens replies) k ∧
    (ret = n ∧ moved (lens replies) k = n ∨
      ret = lens replies k ∧ moved (lens replies) k < n ∧ lens replies k ≤ 0)
  progresses : Progresses s.asked

structure WrittenExactly (results : Nat → Int) (buffer : Bytes) (n : Nat) (ret : Int)
    (s : Writing) : Prop where
  returns_iff : ret = n ↔ s.accepted.flatten = buffer.take n
  ended : ∃ k, Ends results n k ∧ s.accepted.length = k ∧
    s.accepted.flatten = buffer.take (moved results k) ∧
    (ret = n ∧ moved results k = n ∨
      ret = results k ∧ moved results k < n ∧ results k ≤ 0)
  progresses : Progresses s.asked

/-! ## What was asked for -/

/-- The calls in front of the one with `k` results behind it. -/
def requests (results : Nat → Int) (n : Nat) : Nat → List (Nat × Nat)
  | 0 => []
  | k + 1 => requests results n k ++ [(moved results k, n - moved results k)]

variable {results : Nat → Int} {n k : Nat}

theorem delivers_iff (h : Ends results n k) : Delivers results n ↔ moved results k = n := by
  constructor
  · rintro ⟨j, hgoing, hall⟩
    obtain rfl := h.unique ⟨hgoing, Or.inl hall⟩
    exact hall
  · intro hall
    exact ⟨k, h.going, hall⟩

theorem length_requests (results : Nat → Int) (n k : Nat) :
    (requests results n k).length = k := by
  induction k with
  | zero => rfl
  | succ k ih => rw [requests, List.length_append, ih, List.length_singleton]

theorem mem_requests {request : Nat × Nat} (h : request ∈ requests results n k) :
    ∃ i < k, request = (moved results i, n - moved results i) := by
  induction k with
  | zero => cases h
  | succ k ih =>
      rcases List.mem_append.mp h with hold | hnew
      · obtain ⟨i, hi, heq⟩ := ih hold
        exact ⟨i, Nat.lt_succ_of_lt hi, heq⟩
      · exact ⟨k, Nat.lt_succ_self k, List.mem_singleton.mp hnew⟩

/-- A request goes on behind those before it. -/
theorem progresses_succ (h : Progresses (requests results n k)) (hgoing : Going results k)
    (hlt : moved results k < n) : Progresses (requests results n (k + 1)) := by
  apply List.pairwise_append.mpr
  refine ⟨h, List.pairwise_singleton _ _, ?_⟩
  intro earlier hearlier later hlater
  obtain ⟨i, hi, rfl⟩ := mem_requests hearlier
  rw [List.mem_singleton.mp hlater]
  have hbefore := moved_lt hgoing hi
  dsimp only
  omega

theorem progresses_requests (hgoing : Going results k) (hle : moved results k ≤ n) :
    Progresses (requests results n k) := by
  induction k with
  | zero => exact List.Pairwise.nil
  | succ k ih =>
      have hlast := moved_lt_succ (hgoing k (Nat.lt_succ_self k))
      have hbefore := hgoing.mono (Nat.le_succ k)
      exact progresses_succ (ih hbefore (by omega)) hbefore (by omega)

/-! ## Reading -/

theorem length_received (replies : Nat → Reply) (k : Nat) :
    (received replies k).length = moved (lens replies) k := by
  induction k with
  | zero => rfl
  | succ k ih => rw [received, List.length_append, ih, (replies k).length_eq, moved, lens]

namespace Reading

variable {replies : Nat → Reply} {buffer : Bytes}

/-- The state behind `k` calls. -/
def behind (replies : Nat → Reply) (buffer : Bytes) (n k : Nat) : Reading :=
  ⟨received replies k ++ buffer.drop (received replies k).length, fun i => replies (i + k),
    requests (lens replies) n k⟩

theorem read_behind (hbuffer : n ≤ buffer.length) (hbounded : Bounded (lens replies) n)
    (hgoing : Going (lens replies) k) (hlt : moved (lens replies) k < n) :
    (behind replies buffer n k).read (moved (lens replies) k) (n - moved (lens replies) k) =
      .ok (lens replies k, behind replies buffer n (k + 1)) := by
  have hle : (replies k).len ≤ _ := hbounded k hgoing hlt
  have hlength := (replies k).length_eq
  have hmoved := length_received replies k
  have hfits : (received replies k).length + (replies k).bytes.length ≤
      (received replies k ++ buffer.drop (received replies k).length).length := by
    rw [List.length_append, List.length_drop]
    omega
  have hblit := Block.blit_eq hfits
  rw [List.take_left, List.drop_append, List.drop_of_length_le (Nat.le_add_right _ _),
    Nat.add_sub_cancel_left, List.nil_append, List.drop_drop] at hblit
  rw [read, behind, ← hmoved]
  simp only [Nat.zero_add, hblit]
  simp only [behind, received, List.length_append, requests, hmoved, Nat.add_assoc, Nat.add_comm 1]
  rfl

/-- The reads go on until a reply is not positive or nothing is left. -/
theorem transfer_read (hbuffer : n ≤ buffer.length) (hbounded : Bounded (lens replies) n) :
    ∃ k early s', Ends (lens replies) n k ∧
      transfer read ⟨buffer, replies, []⟩ 0 n = .ok (early, s') ∧
      (moved (lens replies) k = n ∧ early = none ∧ s' = behind replies buffer n k ∨
        moved (lens replies) k < n ∧ early = some (lens replies k) ∧
          s' = behind replies buffer n (k + 1)) := by
  apply transfer_spec (P := fun k s => s = behind replies buffer n k)
    (Q := fun k s => s = behind replies buffer n (k + 1)) hbounded
  · rintro k s hgoing hlt rfl
    exact ⟨_, read_behind hbuffer hbounded hgoing hlt, by simp⟩
  · rfl

theorem readFixSize_exact (hn : n < 2 ^ 31) (hbuffer : n ≤ buffer.length)
    (hbounded : Bounded (lens replies) n) :
    ∃ ret s', (⟨buffer, replies, []⟩ : Reading).readFixSize n = .ok (ret, s') ∧
      ReadExactly replies buffer n ret s' := by
  obtain ⟨k, early, s', hends, hloop, hcase⟩ := transfer_read hbuffer hbounded
  have hret : (⟨buffer, replies, []⟩ : Reading).readFixSize n = .ok (early.getD n, s') := by
    rw [readFixSize, toLeft_eq hn, toInt_eq hn, hloop]
    rfl
  refine ⟨_, s', hret, ?_⟩
  rcases hcase with ⟨hall, rfl, rfl⟩ | ⟨hlt, rfl, rfl⟩
  · exact ⟨iff_of_true rfl ⟨k, hends.going, hall⟩,
      ⟨k, hends, rfl, length_received replies k, Or.inl ⟨rfl, hall⟩⟩,
      progresses_requests hends.going hall.le⟩
  · have hstop : lens replies k ≤ 0 := by
      rcases hends.ended with hall | ⟨-, hstop⟩
      · omega
      · exact hstop
    have hnothing : (replies k).bytes = [] := by
      apply List.eq_nil_of_length_eq_zero
      rw [(replies k).length_eq]
      exact Int.toNat_of_nonpos hstop
    have hreceived : received replies (k + 1) = received replies k := by
      rw [received, hnothing, List.append_nil]
    have hne : (lens replies k : Int) ≠ n := by omega
    refine ⟨iff_of_false hne ?_,
      ⟨k, hends, ?_, length_received replies k, Or.inr ⟨rfl, hlt, hstop⟩⟩,
      progresses_succ (progresses_requests hends.going hlt.le) hends.going hlt⟩
    · rw [delivers_iff hends]
      omega
    · rw [behind, hreceived]

end Reading

/-! ## Writing -/

/-- The chunks that the first `k` results accept. -/
def chunks (results : Nat → Int) (buffer : Bytes) : Nat → List Bytes
  | 0 => []
  | k + 1 =>
      chunks results buffer k ++
        [Block.slice buffer (moved results k) (moved results k + (results k).toNat)]

theorem length_chunks (results : Nat → Int) (buffer : Bytes) (k : Nat) :
    (chunks results buffer k).length = k := by
  induction k with
  | zero => rfl
  | succ k ih => rw [chunks, List.length_append, ih, List.length_singleton]

theorem flatten_chunks (results : Nat → Int) (buffer : Bytes) (k : Nat) :
    (chunks results buffer k).flatten = buffer.take (moved results k) := by
  induction k with
  | zero => simp [chunks, moved]
  | succ k ih =>
      rw [chunks, List.flatten_append, ih, List.flatten_singleton, moved, Block.slice,
        Nat.add_sub_cancel_left, ← List.take_add]

namespace Writing

variable {buffer : Bytes}

/-- The state behind `asked` calls, of which `k` have accepted something. -/
def behind (results : Nat → Int) (buffer : Bytes) (n k asked : Nat) : Writing :=
  ⟨buffer, fun i => results (i + asked), chunks results buffer k, requests results n asked⟩

theorem write_behind (hbuffer : n ≤ buffer.length) (hlt : moved results k < n) :
    (behind results buffer n k k).write (moved results k) (n - moved results k) =
      .ok (results k, behind results buffer n (if 0 < results k then k + 1 else k) (k + 1)) := by
  have hinside : ¬ buffer.length < moved results k + (n - moved results k) := by omega
  simp only [write, behind, if_neg hinside, Nat.zero_add, requests, Nat.add_assoc, Nat.add_comm 1]
  split
  · rfl
  · rfl

theorem transfer_write (hbuffer : n ≤ buffer.length) (hbounded : Bounded results n) :
    ∃ k early s', Ends results n k ∧
      transfer write ⟨buffer, results, [], []⟩ 0 n = .ok (early, s') ∧
      (moved results k = n ∧ early = none ∧ s' = behind results buffer n k k ∨
        moved results k < n ∧ early = some (results k) ∧
          s' = behind results buffer n k (k + 1)) := by
  apply transfer_spec (P := fun k s => s = behind results buffer n k k)
    (Q := fun k s => s = behind results buffer n k (k + 1)) hbounded
  · rintro k s - hlt rfl
    refine ⟨_, write_behind hbuffer hlt, ?_⟩
    split
    · rfl
    · rfl
  · rfl

theorem writeFixSize_exact (hn : n < 2 ^ 31) (hbuffer : n ≤ buffer.length)
    (hbounded : Bounded results n) :
    ∃ ret s', (⟨buffer, results, [], []⟩ : Writing).writeFixSize n = .ok (ret, s') ∧
      WrittenExactly results buffer n ret s' := by
  obtain ⟨k, early, s', hends, hloop, hcase⟩ := transfer_write hbuffer hbounded
  have hret : (⟨buffer, results, [], []⟩ : Writing).writeFixSize n = .ok (early.getD n, s') := by
    rw [writeFixSize, toLeft_eq hn, toInt_eq hn, hloop]
    rfl
  have hflatten := flatten_chunks results buffer k
  refine ⟨_, s', hret, ?_⟩
  rcases hcase with ⟨hall, rfl, rfl⟩ | ⟨hlt, rfl, rfl⟩
  · refine ⟨iff_of_true rfl ?_,
      ⟨k, hends, length_chunks results buffer k, hflatten, Or.inl ⟨rfl, hall⟩⟩,
      progresses_requests hends.going hall.le⟩
    exact hall ▸ hflatten
  · have hstop : results k ≤ 0 := by
      rcases hends.ended with hall | ⟨-, hstop⟩
      · omega
      · exact hstop
    have hne : (results k : Int) ≠ n := by omega
    refine ⟨iff_of_false hne fun hall => ?_,
      ⟨k, hends, length_chunks results buffer k, hflatten, Or.inr ⟨rfl, hlt, hstop⟩⟩,
      progresses_succ (progresses_requests hends.going hlt.le) hends.going hlt⟩
    have hlength := congrArg List.length (hflatten.symm.trans hall)
    rw [List.length_take, List.length_take] at hlength
    omega

end Writing

/-- Both loops transfer exactly what the calls have taken, and go on with every call. -/
theorem fixed_size_exact {n : Nat} (hn : n < 2 ^ 31) {buffer : Bytes} (hbuffer : n ≤ buffer.length) :
    (∀ replies, Bounded (lens replies) n →
      ∃ ret s', (⟨buffer, replies, []⟩ : Reading).readFixSize n = .ok (ret, s') ∧
        ReadExactly replies buffer n ret s') ∧
      ∀ results, Bounded results n →
        ∃ ret s', (⟨buffer, results, [], []⟩ : Writing).writeFixSize n = .ok (ret, s') ∧
          WrittenExactly results buffer n ret s' :=
  ⟨fun _ => Reading.readFixSize_exact hn hbuffer, fun _ => Writing.writeFixSize_exact hn hbuffer⟩

/-- A stream that hands over one byte a call. -/
def oneByOne (i : Nat) : Reply := ⟨1, [UInt8.ofNat i], rfl⟩

theorem bounded_oneByOne (n : Nat) : Bounded (lens oneByOne) n := by
  intro k _ hlt
  change (1 : Int) ≤ _
  omega

theorem fixed_size_sample :
    (∃ ret s', (⟨[0, 0, 0, 9], oneByOne, []⟩ : Reading).readFixSize 3 = .ok (ret, s') ∧
      ReadExactly oneByOne [0, 0, 0, 9] 3 ret s') ∧
      ∃ ret s', (⟨[0, 1, 2, 9], lens oneByOne, [], []⟩ : Writing).writeFixSize 3 = .ok (ret, s') ∧
        WrittenExactly (lens oneByOne) [0, 1, 2, 9] 3 ret s' :=
  ⟨(fixed_size_exact (by decide) (by decide)).1 oneByOne (bounded_oneByOne 3),
    (fixed_size_exact (by decide) (by decide)).2 (lens oneByOne) (bounded_oneByOne 3)⟩

end Qslary.Streams

import Qslary.Bytes.Space
import Qslary.Http.Stream

/-!
# Receiving into a byte array

`SockStream::read` hands `recvmsg` the window that `GetWriteBuffer` opens behind the write
index, and nothing moves that index over what has been received.  The loop of `readFixSize`
therefore writes every piece over the one before it, and none of them becomes readable.
-/

namespace Qslary.Bytes

open Qslary.Foundation
open Qslary.Http (Stream)

/-- A socket, with what a receive returns that gets no bytes. -/
structure Socket where
  stream : Stream
  result : Int
  result_le : result ≤ 0

namespace Socket

/-- `recv(iovec *, 1)` for a window of `length` bytes. -/
def recv (s : Socket) (length : Nat) : Int × Bytes × Socket :=
  if s.stream.connected then
    match s.stream.read length with
    | ([], stream) => (s.result, [], { s with stream := stream })
    | (bytes, stream) => (bytes.length, bytes, { s with stream := stream })
  else (-1, [], s)

/-- `SockStream::read(bytearray, length)` -/
def read (s : Socket) (b : ByteArray) (length : Nat) : Except Fault (Int × ByteArray × Socket) :=
  if s.stream.connected == false then .ok (-1, b, s)
  else do
    let (b, iov, _) ← b.GetWriteBuffer length
    let (ret, bytes, s) := s.recv iov.iovLen
    match Block.blit b.mBuffer iov.iovBase bytes with
    | none => throw .outOfBounds
    | some buffer => return (ret, { b with mBuffer := buffer }, s)

/-- The loop of `readFixSize`, with the result that it returns early. -/
def readLoop : Nat → Socket → ByteArray → Nat → Except Fault (Option Int × ByteArray × Socket)
  | _, s, b, 0 => .ok (none, b, s)
  | 0, s, b, _ + 1 => .ok (some 0, b, s)
  | fuel + 1, s, b, left + 1 => do
      let (len, b, s) ← s.read b (left + 1)
      if len ≤ 0 then return (some len, b, s)
      else readLoop fuel s b (left + 1 - len.toNat)

/-- `readFixSize(bytearray, length)` -/
def readFixSize (s : Socket) (b : ByteArray) (length : Nat) :
    Except Fault (Int × ByteArray × Socket) := do
  let (early, b, s) ← readLoop length s b length
  return (early.getD (Stream.toInt length), b, s)

/-- What arrives before the stream ends or fails. -/
def remaining (s : Socket) : Bytes := if s.stream.connected then s.stream.input else []

/-- The result of the read that finds the stream at its end. -/
def lastResult (s : Socket) : Int := if s.stream.connected then s.result else -1

/-- The bytes that arrive are behind the content, and the result says whether all of them came. -/
structure Appended (s : Socket) (b : ByteArray) (n : Nat) (ret : Int) (b' : ByteArray) : Prop where
  content_eq : b'.content = b.content ++ s.remaining.take n
  ret_eq : ret = if n ≤ s.remaining.length then (n : Int) else s.lastResult

/-! ## What a read leaves readable -/

variable {s s' : Socket} {b b' : ByteArray}

/-- Bytes behind the write index are not readable. -/
theorem content_blit {bytes buffer : Bytes} (hb : b.WF)
    (h : Block.blit b.mBuffer b.mWriteIndex bytes = some buffer) :
    ({ b with mBuffer := buffer } : ByteArray).WF ∧
      ({ b with mBuffer := buffer } : ByteArray).content = b.content := by
  have hlength := Block.length_blit h
  refine ⟨⟨hb.read_le, ?_, ?_⟩, Block.slice_blit_before h⟩
  · exact hlength ▸ hb.write_le
  · exact hlength ▸ hb.length_lt

theorem read_length {length : Nat} {ret : Int} (hb : b.WF) (hlength : length < 2 ^ 31)
    (h : s.read b length = .ok (ret, b', s')) :
    b'.WF ∧ b'.content.length = b.content.length := by
  unfold read at h
  split at h
  · cases h
    exact ⟨hb, rfl⟩
  · obtain ⟨⟨made, iov, len⟩, hbuffer, h⟩ := bind_eq_ok.mp h
    obtain ⟨hmade, rfl, -⟩ := ByteArray.getWriteBuffer_eq_ok_iff.mp hbuffer
    have hsize : length < 2 ^ 63 := by omega
    rcases ByteArray.makeSpace_cases hb hsize with ⟨hfails, -⟩ | ⟨made', heq, hwf, -, hsame, -⟩
    · rw [hfails] at hmade
      cases hmade
    · obtain rfl : made' = made := Except.ok.inj (heq.symm.trans hmade)
      dsimp only at h
      split at h
      · cases h
      · rename_i buffer hblit
        cases h
        obtain ⟨hwf', hcontent⟩ := content_blit hwf hblit
        exact ⟨hwf', (congrArg List.length hcontent).trans hsame⟩

theorem readLoop_length {fuel left : Nat} {early : Option Int} (hb : b.WF) (hleft : left < 2 ^ 31)
    (h : readLoop fuel s b left = .ok (early, b', s')) :
    b'.content.length = b.content.length := by
  induction fuel generalizing s b left with
  | zero =>
      cases left with
      | zero =>
          cases h
          rfl
      | succ left =>
          cases h
          rfl
  | succ fuel ih =>
      cases left with
      | zero =>
          cases h
          rfl
      | succ left =>
          obtain ⟨⟨len, mid, smid⟩, hread, h⟩ := bind_eq_ok.mp h
          obtain ⟨hwf, hsame⟩ := read_length hb hleft hread
          dsimp only at h
          split at h
          · cases h
            exact hsame
          · have hrest : left + 1 - len.toNat < 2 ^ 31 := by omega
            exact (ih hwf hrest h).trans hsame

theorem readFixSize_length {n : Nat} {ret : Int} (hb : b.WF) (hn : n < 2 ^ 31)
    (h : s.readFixSize b n = .ok (ret, b', s')) : b'.content.length = b.content.length := by
  obtain ⟨⟨early, made, smade⟩, hloop, h⟩ := bind_eq_ok.mp h
  cases h
  exact readLoop_length hb hn hloop

/-! ## Streams that deliver nothing -/

theorem readFixSize_zero : s.readFixSize b 0 = .ok (0, b, s) := rfl

theorem readFixSize_disconnected {n : Nat} (hpos : 0 < n) (hclosed : s.stream.connected = false) :
    s.readFixSize b n = .ok (-1, b, s) := by
  cases n with
  | zero => cases hpos
  | succ n =>
      have hread : s.read b (n + 1) = .ok (-1, b, s) := by
        rw [read, hclosed]
        rfl
      rw [readFixSize, readLoop, hread]
      rfl

theorem readFixSize_throws {n : Nat} {fault : Fault} (hpos : 0 < n)
    (hconnected : s.stream.connected = true) (hfails : b.MakeSpace n = .error fault) :
    s.readFixSize b n = .error fault := by
  cases n with
  | zero => cases hpos
  | succ n =>
      have hread : s.read b (n + 1) = .error fault := by
        rw [read, hconnected, ByteArray.GetWriteBuffer, hfails]
        rfl
      rw [readFixSize, readLoop, hread]
      rfl

theorem readFixSize_ended {n : Nat} {made : ByteArray} (hpos : 0 < n)
    (hconnected : s.stream.connected = true) (hinput : s.stream.input = [])
    (hmade : b.MakeSpace n = .ok made) (hwrite : made.mWriteIndex ≤ made.mBuffer.length) :
    s.readFixSize b n = .ok (s.result, made, s) := by
  cases n with
  | zero => cases hpos
  | succ n =>
      have hrecv : s.recv (n + 1) = (s.result, [], s) := by
        have hstream : s.stream.read (n + 1) = ([], s.stream) := by simp [Stream.read, hinput]
        rw [recv, if_pos hconnected, hstream]
      have hblit : Block.blit made.mBuffer made.mWriteIndex [] = some made.mBuffer := by
        rw [Block.blit_eq (by simpa using hwrite)]
        simp
      have hread : s.read b (n + 1) = .ok (s.result, made, s) := by
        rw [read, hconnected, ByteArray.GetWriteBuffer, hmade]
        simp only [bind, Except.bind, pure, Except.pure, hrecv, hblit]
        rfl
      rw [readFixSize, readLoop, hread]
      simp only [bind, Except.bind, pure, Except.pure, if_pos s.result_le, Option.getD_some]

theorem remaining_eq_nil {n : Nat} (hpos : 0 < n) (h : s.remaining.take n = []) :
    s.remaining = [] := by
  rcases List.take_eq_nil_iff.mp h with hzero | hnil
  · omega
  · exact hnil

theorem input_eq_nil (hconnected : s.stream.connected = true) (h : s.remaining = []) :
    s.stream.input = [] := by
  rwa [remaining, if_pos hconnected] at h

/--
What arrives is appended exactly when nothing arrives, and then the content survives the
room that is made for it, if the loop gets to make any.
-/
theorem received_appended_iff (hb : b.WF) {n : Nat} (hn : n < 2 ^ 31) :
    (∃ ret b' s', s.readFixSize b n = .ok (ret, b', s') ∧ s.Appended b n ret b') ↔
      s.remaining.take n = [] ∧ (n = 0 ∨ s.stream.connected = false ∨ b.Keeps n) := by
  have hsize : n < 2 ^ 63 := by omega
  constructor
  · rintro ⟨ret, b', s', hread, happended⟩
    have hnothing : s.remaining.take n = [] := by
      have hlength := congrArg List.length happended.content_eq
      rw [readFixSize_length hb hn hread, List.length_append] at hlength
      exact List.eq_nil_of_length_eq_zero (by omega)
    refine ⟨hnothing, ?_⟩
    rcases Nat.eq_zero_or_pos n with hzero | hpos
    · exact Or.inl hzero
    · cases hconnected : s.stream.connected with
      | false => exact Or.inr (Or.inl rfl)
      | true =>
          have hinput := input_eq_nil hconnected (remaining_eq_nil hpos hnothing)
          rcases ByteArray.makeSpace_cases hb hsize with ⟨hfails, -⟩ | ⟨made, hmade, hwf, -, -, hkept⟩
          · rw [readFixSize_throws hpos hconnected hfails] at hread
            cases hread
          · rw [readFixSize_ended hpos hconnected hinput hmade hwf.write_le] at hread
            cases hread
            refine Or.inr (Or.inr (hkept.mp ?_))
            rw [happended.content_eq, hnothing, List.append_nil]
  · rintro ⟨hnothing, hcase⟩
    have happended : ∀ ret b', b'.content = b.content →
        ret = (if n ≤ s.remaining.length then (n : Int) else s.lastResult) →
        s.Appended b n ret b' := by
      intro ret b' hcontent hret
      refine ⟨?_, hret⟩
      rw [hcontent, hnothing, List.append_nil]
    rcases Nat.eq_zero_or_pos n with rfl | hpos
    · exact ⟨_, _, _, readFixSize_zero, happended _ _ rfl (by simp)⟩
    · have hremaining := remaining_eq_nil hpos hnothing
      have hshort : ¬ n ≤ s.remaining.length := by
        rw [hremaining]
        exact Nat.not_le.mpr hpos
      cases hconnected : s.stream.connected with
      | false =>
          refine ⟨_, _, _, readFixSize_disconnected hpos hconnected, happended _ _ rfl ?_⟩
          rw [if_neg hshort, lastResult, hconnected]
          rfl
      | true =>
          have hinput := input_eq_nil hconnected hremaining
          have hkeeps : b.Keeps n := by
            rcases hcase with hzero | hclosed | hkeeps
            · omega
            · rw [hconnected] at hclosed
              cases hclosed
            · exact hkeeps
          obtain ⟨made, hmade, hroom⟩ := (ByteArray.makeSpace_madeRoom_iff hb hsize).mpr hkeeps
          refine ⟨_, _, _, readFixSize_ended hpos hconnected hinput hmade hroom.wf.write_le,
            happended _ _ hroom.content_eq ?_⟩
          rw [if_neg hshort, lastResult, if_pos hconnected]

/-- A peer that has sent `input` and then closes its end, with two bytes in a piece. -/
def peer (input : Bytes) : Socket := ⟨⟨input, fun _ => 2, true⟩, 0, Int.le_refl 0⟩

theorem received_nothing :
    ∃ ret b' s', (peer []).readFixSize (ByteArray.filled 16) 4 = .ok (ret, b', s') ∧
      (peer []).Appended (ByteArray.filled 16) 4 ret b' :=
  (received_appended_iff ⟨by decide, by decide, by decide⟩ (by decide)).mpr
    ⟨rfl, Or.inr (Or.inr (by decide))⟩

/-- Four bytes are received and acknowledged, and the content is what it was. -/
theorem received_lost :
    ∃ b' s', (peer [1, 2, 3, 4]).readFixSize (ByteArray.filled 16) 4 = .ok (4, b', s') ∧
      b'.content = (ByteArray.filled 16).content ∧
      ¬ (peer [1, 2, 3, 4]).Appended (ByteArray.filled 16) 4 4 b' := by
  refine ⟨_, _, rfl, by decide, fun h => ?_⟩
  exact absurd h.content_eq (by decide)

end Socket

end Qslary.Bytes

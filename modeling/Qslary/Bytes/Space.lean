import Qslary.Bytes.Fifo

/-!
# Making room

`GetWriteBuffer` calls `MakeSpace` whatever the room behind the write index is.  If there is
enough room in all, the unread bytes are copied to place `kPreHeadSize`, also from a place
in front of it, and then towards higher addresses: where the two ranges overlap, the copy
repeats its own output.  `std::copy` must not be given such ranges.  That it copies forward
and byte by byte all the same, as its description reads, is assumed; an implementation that
moves the bytes as one block keeps what is assumed here to be lost.
-/

namespace Qslary.Bytes

open Qslary.Foundation

namespace ByteArray

/-- The room in front and behind together is too small, and the buffer has to grow. -/
def Grows (b : ByteArray) (size : Nat) : Prop :=
  b.mReadIndex + (b.mBuffer.length - b.mWriteIndex) < size + kPreHeadSize

instance (b : ByteArray) (size : Nat) : Decidable (b.Grows size) :=
  inferInstanceAs (Decidable (_ < _))

/--
The unread bytes survive: the buffer that has to grow can be as large as it has to be, and
one that is compacted is read from `kPreHeadSize` on, or from a place so far in front of it
as the unread bytes repeat themselves.
-/
def Keeps (b : ByteArray) (size : Nat) : Prop :=
  if b.Grows size then b.mWriteIndex + size < 2 ^ 63
  else Block.Repeats (kPreHeadSize - b.mReadIndex) b.content

instance (b : ByteArray) (size : Nat) : Decidable (b.Keeps size) :=
  inferInstanceAs (Decidable (if b.Grows size then b.mWriteIndex + size < 2 ^ 63
    else Block.Repeats (kPreHeadSize - b.mReadIndex) b.content))

/-- What making room promises: the same content, the invariant, and the room. -/
structure MadeRoom (b b' : ByteArray) (size : Nat) : Prop where
  wf : b'.WF
  content_eq : b'.content = b.content
  room : b'.mWriteIndex + size ≤ b'.mBuffer.length

variable {b b' : ByteArray} {size : Nat}

theorem WF.grows_iff (hb : b.WF) (hsize : size < 2 ^ 63) :
    sizeAdd b.PrependableSize b.WriteableSize < sizeAdd size kPreHeadSize ↔ b.Grows size := by
  have hread := hb.read_le
  have hwrite := hb.write_le
  have hlt := hb.length_lt
  have hneed : sizeAdd size kPreHeadSize = size + 16 :=
    sizeAdd_eq (by simp only [kPreHeadSize]; omega)
  rw [Grows, PrependableSize, hb.writeableSize, sizeAdd_eq (by omega), hneed]
  rfl

theorem makeSpace_fails (hb : b.WF) (hsize : size < 2 ^ 63) (hgrows : b.Grows size)
    (hlarge : ¬ b.mWriteIndex + size < 2 ^ 63) : b.MakeSpace size = .error .lengthError := by
  have hwrite := hb.write_le
  have hlt := hb.length_lt
  have hgrown : sizeAdd b.mWriteIndex size = b.mWriteIndex + size := sizeAdd_eq (by omega)
  rw [MakeSpace, if_pos ((hb.grows_iff hsize).mpr hgrows), hgrown, resize, if_neg hlarge]

/-- The copy of the unread bytes, in whichever direction they move. -/
theorem copy_content (hb : b.WF) (hroom : kPreHeadSize + b.content.length ≤ b.mBuffer.length) :
    ∃ buffer, Block.copyWithin b.mBuffer b.mReadIndex kPreHeadSize b.ReadableSize = some buffer ∧
      buffer.length = b.mBuffer.length ∧
      (Block.slice buffer kPreHeadSize (kPreHeadSize + b.content.length) = b.content ↔
        Block.Repeats (kPreHeadSize - b.mReadIndex) b.content) := by
  have hread := hb.read_le
  have hwrite := hb.write_le
  have hlen : b.content.length = b.mWriteIndex - b.mReadIndex := by
    rw [hb.length_content, hb.readableSize]
  have hcontent : Block.slice b.mBuffer b.mReadIndex (b.mReadIndex + b.content.length) =
      b.content := by
    rw [hlen, Nat.add_sub_cancel' hread]
    rfl
  rw [← hb.length_content]
  by_cases hle : kPreHeadSize ≤ b.mReadIndex
  · have hbound : b.mReadIndex + b.content.length ≤ b.mBuffer.length := by omega
    obtain ⟨buffer, hcopy⟩ :
        ∃ buffer, Block.copyWithin b.mBuffer b.mReadIndex kPreHeadSize b.content.length =
          some buffer := ⟨_, Block.copyWithin_eq hle hbound⟩
    obtain ⟨hlength, hslice⟩ := Block.slice_copyWithin hle hbound hcopy
    refine ⟨buffer, hcopy, hlength, iff_of_true (hslice.trans hcontent) ?_⟩
    rw [Nat.sub_eq_zero_of_le hle]
    exact Block.repeats_zero _
  · have hforward := Block.slice_copyWithin_forward (Nat.not_le.mp hle) hroom
    rwa [hcontent] at hforward

theorem makeSpace_compacts (hb : b.WF) (hsize : size < 2 ^ 63) (hgrows : ¬ b.Grows size) :
    ∃ b', b.MakeSpace size = .ok b' ∧ b'.WF ∧ b'.mWriteIndex + size ≤ b'.mBuffer.length ∧
      b'.content.length = b.content.length ∧
      (b'.content = b.content ↔ Block.Repeats (kPreHeadSize - b.mReadIndex) b.content) := by
  have hread := hb.read_le
  have hwrite := hb.write_le
  have hlt := hb.length_lt
  have hlen : b.content.length = b.mWriteIndex - b.mReadIndex := by
    rw [hb.length_content, hb.readableSize]
  have hhead : kPreHeadSize = 16 := rfl
  have hspace := hgrows
  rw [Grows] at hspace
  obtain ⟨buffer, hcopy, hlength, hslice⟩ := copy_content hb (by omega)
  have hend : sizeAdd kPreHeadSize b.ReadableSize = kPreHeadSize + b.content.length := by
    rw [← hb.length_content]
    exact sizeAdd_eq (by omega)
  have hmade : b.MakeSpace size =
      .ok ⟨buffer, kPreHeadSize, kPreHeadSize + b.content.length⟩ := by
    unfold MakeSpace
    rw [if_neg ((not_congr (hb.grows_iff hsize)).mpr hgrows)]
    simp only [hcopy, hend]
  have hfits : kPreHeadSize + b.content.length ≤ buffer.length := by omega
  refine ⟨_, hmade, ⟨Nat.le_add_right _ _, hfits, hlength ▸ hlt⟩, ?_, ?_, hslice⟩
  · show kPreHeadSize + b.content.length + size ≤ buffer.length
    omega
  · rw [content, Block.length_slice hfits]
    exact Nat.add_sub_cancel_left _ _

/-- What `MakeSpace` does: it throws, or makes the room and keeps the number of unread bytes. -/
theorem makeSpace_cases (hb : b.WF) (hsize : size < 2 ^ 63) :
    (b.MakeSpace size = .error .lengthError ∧ ¬ b.Keeps size) ∨
      ∃ b', b.MakeSpace size = .ok b' ∧ b'.WF ∧ b'.mWriteIndex + size ≤ b'.mBuffer.length ∧
        b'.content.length = b.content.length ∧ (b'.content = b.content ↔ b.Keeps size) := by
  by_cases hgrows : b.Grows size
  · have hkeeps : b.Keeps size ↔ b.mWriteIndex + size < 2 ^ 63 := by rw [Keeps, if_pos hgrows]
    rw [hkeeps]
    by_cases hlarge : b.mWriteIndex + size < 2 ^ 63
    · obtain ⟨b', hmade, hroomy⟩ := makeSpace_grow hb hlarge ((hb.grows_iff hsize).mpr hgrows)
      exact Or.inr ⟨b', hmade, hroomy.wf, hroomy.room, congrArg List.length hroomy.content_eq,
        iff_of_true hroomy.content_eq hlarge⟩
    · exact Or.inl ⟨makeSpace_fails hb hsize hgrows hlarge, hlarge⟩
  · have hkeeps : b.Keeps size ↔ Block.Repeats (kPreHeadSize - b.mReadIndex) b.content := by
      rw [Keeps, if_neg hgrows]
    rw [hkeeps]
    exact Or.inr (makeSpace_compacts hb hsize hgrows)

theorem makeSpace_madeRoom_iff (hb : b.WF) (hsize : size < 2 ^ 63) :
    (∃ b', b.MakeSpace size = .ok b' ∧ b.MadeRoom b' size) ↔ b.Keeps size := by
  rcases makeSpace_cases hb hsize with ⟨hfails, hnot⟩ | ⟨b', hmade, hwf, hroom, -, hkept⟩
  · rw [hfails]
    exact iff_of_false (by simp) hnot
  · rw [← hkept]
    constructor
    · rintro ⟨made, heq, hmadeRoom⟩
      obtain rfl : b' = made := Except.ok.inj (hmade.symm.trans heq)
      exact hmadeRoom.content_eq
    · intro hcontent
      exact ⟨b', hmade, hwf, hcontent, hroom⟩

theorem getWriteBuffer_eq_ok_iff {len : Nat} {iov : Iovec} {ret : Nat} :
    b.GetWriteBuffer len = .ok (b', iov, ret) ↔
      b.MakeSpace len = .ok b' ∧ iov = ⟨b'.mWriteIndex, len⟩ ∧ ret = len := by
  unfold GetWriteBuffer
  rw [bind_eq_ok]
  constructor
  · rintro ⟨made, hmade, hret⟩
    cases hret
    exact ⟨hmade, rfl, rfl⟩
  · rintro ⟨hmade, rfl, rfl⟩
    exact ⟨b', hmade, rfl⟩

/--
`MakeSpace` and `GetWriteBuffer` keep what they promise exactly when the unread bytes
survive.
-/
theorem makes_room_iff (hb : b.WF) {len : Nat} (hlen : len + 16 < 2 ^ 63) :
    ((∃ b', b.MakeSpace len = .ok b' ∧ b.MadeRoom b' len) ∧
      ∃ b' iov, b.GetWriteBuffer len = .ok (b', iov, len) ∧ b.MadeRoom b' len ∧
        iov = ⟨b'.mWriteIndex, len⟩) ↔ b.Keeps len := by
  have hsize : len < 2 ^ 63 := by omega
  rw [← makeSpace_madeRoom_iff hb hsize]
  constructor
  · intro h
    exact h.1
  · rintro ⟨b', hmade, hroom⟩
    exact ⟨⟨b', hmade, hroom⟩, b', _, getWriteBuffer_eq_ok_iff.mpr ⟨hmade, rfl, rfl⟩, hroom, rfl⟩

/-- Twenty unread bytes with 44 free places behind them. -/
def filled (mReadIndex : Nat) : ByteArray :=
  ⟨List.replicate mReadIndex 0 ++ (List.range 20).map UInt8.ofNat ++ List.replicate 44 0,
    mReadIndex, mReadIndex + 20⟩

theorem makes_room_behind :
    (∃ b', (filled 16).MakeSpace 40 = .ok b' ∧ (filled 16).MadeRoom b' 40) ∧
      ∃ b' iov, (filled 16).GetWriteBuffer 40 = .ok (b', iov, 40) ∧
        (filled 16).MadeRoom b' 40 ∧ iov = ⟨b'.mWriteIndex, 40⟩ :=
  (makes_room_iff ⟨by decide, by decide, by decide⟩ (by decide)).mpr (by decide)

/-- From place 0 the bytes behind the sixteenth are overwritten before they are copied. -/
theorem makes_room_fails :
    (filled 0).content = (List.range 20).map UInt8.ofNat ∧
      ∃ b', (filled 0).MakeSpace 8 = .ok b' ∧
        b'.content = (List.range 16 ++ List.range 4).map UInt8.ofNat ∧
        ¬ (filled 0).MadeRoom b' 8 := by
  refine ⟨by decide, _, rfl, by decide, fun h => ?_⟩
  exact absurd h.content_eq (by decide)

end ByteArray

end Qslary.Bytes

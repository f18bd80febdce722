import Qslary.Bytes.Model

/-!
# The byte array is a FIFO

The array refines the queue of the bytes between its two indexes: `Write` appends,
every reading operation takes from the front.  Compaction copies towards lower
addresses, because `Write` calls `MakeSpace` only when the space behind the write
index is too small, so that the space it found lies in front of the read index.
-/

namespace Qslary.Bytes

open Qslary.Foundation

namespace ByteArray

/-- The bytes not yet consumed. -/
def content (b : ByteArray) : List UInt8 :=
  Block.slice b.mBuffer b.mReadIndex b.mWriteIndex

structure WF (b : ByteArray) : Prop where
  read_le : b.mReadIndex ≤ b.mWriteIndex
  write_le : b.mWriteIndex ≤ b.mBuffer.length
  length_lt : b.mBuffer.length < 2 ^ 63

theorem WF.clear (b : ByteArray) : b.clear.WF :=
  ⟨Nat.le_refl 0, Nat.le_refl 0, by simp [ByteArray.clear]⟩

theorem content_clear (b : ByteArray) : b.clear.content = [] := rfl

variable {b : ByteArray}

theorem WF.readableSize (hb : b.WF) : b.ReadableSize = b.mWriteIndex - b.mReadIndex := by
  have hle := hb.write_le
  have hlt := hb.length_lt
  exact sizeSub_eq hb.read_le (by omega)

theorem WF.writeableSize (hb : b.WF) : b.WriteableSize = b.mBuffer.length - b.mWriteIndex := by
  have hlt := hb.length_lt
  exact sizeSub_eq hb.write_le (by omega)

theorem WF.length_content (hb : b.WF) : b.content.length = b.ReadableSize := by
  rw [content, Block.length_slice hb.write_le, hb.readableSize]

/-! ## Writing -/

/-- What `MakeSpace` guarantees when `Write` has found too little space behind. -/
structure Roomy (b b' : ByteArray) (size : Nat) : Prop where
  wf : b'.WF
  content_eq : b'.content = b.content
  room : b'.mWriteIndex + size ≤ b'.mBuffer.length
  bound : b'.mBuffer.length ≤ max b.mBuffer.length (b.mWriteIndex + size)

theorem makeSpace_grow {size : Nat} (hb : b.WF) (hsize : b.mWriteIndex + size < 2 ^ 63)
    (hroom : sizeAdd b.PrependableSize b.WriteableSize < sizeAdd size kPreHeadSize) :
    ∃ b', b.MakeSpace size = .ok b' ∧ Roomy b b' size := by
  have hread := hb.read_le
  have hwrite := hb.write_le
  have hgrown : sizeAdd b.mWriteIndex size = b.mWriteIndex + size := sizeAdd_eq (by omega)
  have hlength := Block.length_resize b.mBuffer (b.mWriteIndex + size) 0
  unfold MakeSpace resize
  rw [if_pos hroom, hgrown, if_pos hsize]
  refine ⟨_, rfl, ⟨hread, ?_, ?_⟩, ?_, ?_, ?_⟩
  · rw [hlength]
    exact Nat.le_add_right _ _
  · rw [hlength]
    exact hsize
  · exact Block.slice_resize 0 hwrite (Nat.le_add_right _ _)
  · exact Nat.le_of_eq hlength.symm
  · rw [hlength]
    exact Nat.le_max_right _ _

theorem makeSpace_compact {size : Nat} (hb : b.WF) (hsize : b.mWriteIndex + size < 2 ^ 63)
    (hsmall : b.WriteableSize < size)
    (hroom : ¬ sizeAdd b.PrependableSize b.WriteableSize < sizeAdd size kPreHeadSize) :
    ∃ b', b.MakeSpace size = .ok b' ∧ Roomy b b' size := by
  have hread := hb.read_le
  have hwrite := hb.write_le
  have hlt := hb.length_lt
  rw [hb.writeableSize] at hsmall
  have hfree : sizeAdd b.PrependableSize b.WriteableSize =
      b.mReadIndex + (b.mBuffer.length - b.mWriteIndex) := by
    rw [PrependableSize, hb.writeableSize, sizeAdd_eq (by omega)]
  have hneed : sizeAdd size kPreHeadSize = size + 16 :=
    sizeAdd_eq (by simp only [kPreHeadSize]; omega)
  have hroom' : size + 16 ≤ b.mReadIndex + (b.mBuffer.length - b.mWriteIndex) := by
    rw [hfree, hneed] at hroom
    omega
  -- the space that was found lies in front, so the live bytes move down
  have hfront : 16 ≤ b.mReadIndex := by omega
  have hbound : b.mReadIndex + (b.mWriteIndex - b.mReadIndex) ≤ b.mBuffer.length := by omega
  obtain ⟨buffer, hcopy⟩ :
      ∃ buffer, Block.copyWithin b.mBuffer b.mReadIndex 16 (b.mWriteIndex - b.mReadIndex) =
        some buffer := ⟨_, Block.copyWithin_eq hfront hbound⟩
  obtain ⟨hlen, hslice⟩ := Block.slice_copyWithin hfront hbound hcopy
  have hend : sizeAdd kPreHeadSize (b.mWriteIndex - b.mReadIndex) =
      16 + (b.mWriteIndex - b.mReadIndex) := sizeAdd_eq (by simp only [kPreHeadSize]; omega)
  refine ⟨⟨buffer, 16, 16 + (b.mWriteIndex - b.mReadIndex)⟩, ?_, ⟨?_, ?_, ?_⟩, ?_, ?_, ?_⟩
  · unfold MakeSpace
    simp only [if_neg hroom, hb.readableSize, hend]
    simp only [kPreHeadSize, hcopy]
  · exact Nat.le_add_right _ _
  · simp only [hlen]
    omega
  · simp only [hlen]
    exact hlt
  · rw [content, content, hslice, Nat.add_sub_cancel' hread]
  · simp only [hlen]
    omega
  · simp only [hlen]
    exact Nat.le_max_left _ _

theorem makeSpace_spec {size : Nat} (hb : b.WF) (hsize : b.mWriteIndex + size < 2 ^ 63)
    (hsmall : b.WriteableSize < size) :
    ∃ b', b.MakeSpace size = .ok b' ∧ Roomy b b' size := by
  by_cases hroom : sizeAdd b.PrependableSize b.WriteableSize < sizeAdd size kPreHeadSize
  · exact makeSpace_grow hb hsize hroom
  · exact makeSpace_compact hb hsize hsmall hroom

theorem blit_spec {b' : ByteArray} {buf : List UInt8} (hroomy : Roomy b b' buf.length) :
    ∃ buffer, Block.blit b'.mBuffer b'.mWriteIndex buf = some buffer ∧
      sizeAdd b'.mWriteIndex buf.length = b'.mWriteIndex + buf.length ∧
      buffer.length = b'.mBuffer.length ∧
      Block.slice buffer b'.mReadIndex (b'.mWriteIndex + buf.length) = b.content ++ buf := by
  have hroom := hroomy.room
  have hlt := hroomy.wf.length_lt
  have hblit := Block.blit_eq hroom
  refine ⟨_, hblit, sizeAdd_eq (by omega), Block.length_blit hblit, ?_⟩
  rw [← Block.slice_append_slice hroomy.wf.read_le (Nat.le_add_right _ buf.length),
    Block.slice_blit_before hblit, Block.slice_blit_self hblit, ← hroomy.content_eq]
  rfl

theorem write_eq (b : ByteArray) (buf : List UInt8) :
    b.Write buf = (if b.WriteableSize < buf.length then b.MakeSpace buf.length else .ok b).bind
      fun made => match Block.blit made.mBuffer made.mWriteIndex buf with
        | none => .error .outOfBounds
        | some buffer =>
            .ok { made with
              mBuffer := buffer, mWriteIndex := sizeAdd made.mWriteIndex buf.length } := by
  simp only [Write]
  split <;> rfl

theorem write_spec (hb : b.WF) {buf : List UInt8} (hsize : b.mWriteIndex + buf.length < 2 ^ 63) :
    ∃ b', b.Write buf = .ok b' ∧ b'.WF ∧ b'.content = b.content ++ buf ∧
      b'.mBuffer.length ≤ max b.mBuffer.length (b.mWriteIndex + buf.length) := by
  have hmade : ∃ made, (if b.WriteableSize < buf.length then b.MakeSpace buf.length else .ok b) =
      .ok made ∧ Roomy b made buf.length := by
    by_cases hsmall : b.WriteableSize < buf.length
    · rw [if_pos hsmall]
      exact makeSpace_spec hb hsize hsmall
    · rw [if_neg hsmall]
      rw [hb.writeableSize] at hsmall
      have hwrite := hb.write_le
      exact ⟨b, rfl, hb, rfl, by omega, Nat.le_max_left _ _⟩
  obtain ⟨made, hmake, hroomy⟩ := hmade
  obtain ⟨buffer, hblit, hadd, hlen, hslice⟩ := blit_spec hroomy
  refine ⟨⟨buffer, made.mReadIndex, made.mWriteIndex + buf.length⟩, ?_, ⟨?_, ?_, ?_⟩, hslice, ?_⟩
  · rw [write_eq, hmake]
    simp only [Except.bind, hblit, hadd]
  · exact Nat.le_trans hroomy.wf.read_le (Nat.le_add_right _ _)
  · exact Nat.le_trans hroomy.room (Nat.le_of_eq hlen.symm)
  · rw [hlen]
    exact hroomy.wf.length_lt
  · rw [hlen]
    exact hroomy.bound

/-! ## Reading -/

/-- What is left when the read index has moved over the first `n` unread bytes. -/
def advance (b : ByteArray) (n : Nat) : ByteArray :=
  { b with mReadIndex := b.mReadIndex + n }

theorem realSize_eq (hb : b.WF) (size : Nat) :
    (if size > b.ReadableSize then b.ReadableSize else size) = min size b.content.length := by
  rw [hb.length_content]
  split <;> omega

theorem WF.advance (hb : b.WF) (size : Nat) : (b.advance (min size b.content.length)).WF := by
  refine ⟨?_, hb.write_le, hb.length_lt⟩
  have hread := hb.read_le
  rw [hb.length_content, hb.readableSize]
  simp only [ByteArray.advance]
  omega

theorem content_advance (b : ByteArray) (size : Nat) :
    (b.advance (min size b.content.length)).content = b.content.drop size := by
  have hdrop : b.content.drop size = b.content.drop (min size b.content.length) := by
    rcases Nat.le_total size b.content.length with hle | hle
    · rw [Nat.min_eq_left hle]
    · rw [Nat.min_eq_right hle, List.drop_of_length_le hle, List.drop_length]
  rw [hdrop]
  simp only [content, advance, Block.slice, List.drop_take, List.drop_drop]
  congr 1
  omega

theorem bytesAt_readIndex (hb : b.WF) (size : Nat) :
    b.bytesAt b.mReadIndex (min size b.content.length) = .ok (b.content.take size) := by
  have hread := hb.read_le
  have hwrite := hb.write_le
  have hlen : b.content.length = b.mWriteIndex - b.mReadIndex := by
    rw [hb.length_content, hb.readableSize]
  unfold bytesAt
  rw [if_pos (by omega)]
  congr 1
  simp only [content, Block.slice, Nat.add_sub_cancel_left, List.take_take] at hlen ⊢
  congr 1
  omega

theorem sizeAdd_readIndex (hb : b.WF) (size : Nat) :
    sizeAdd b.mReadIndex (min size b.content.length) =
      b.mReadIndex + min size b.content.length := by
  have hread := (hb.advance size).read_le
  have hwrite := hb.write_le
  have hlt := hb.length_lt
  simp only [advance] at hread
  exact sizeAdd_eq (by omega)

theorem getReadBuffer_spec (hb : b.WF) (len : Nat) :
    b.GetReadBuffer len = .ok (b.advance (min len b.content.length), b.content.take len) := by
  simp only [GetReadBuffer, realSize_eq hb, bytesAt_readIndex hb, sizeAdd_readIndex hb]
  rfl

theorem read_spec (hb : b.WF) (size : Nat) :
    b.Read size = .ok (b.advance (min size b.content.length), b.content.take size) := by
  simp only [Read, realSize_eq hb, bytesAt_readIndex hb, sizeAdd_readIndex hb]
  by_cases hzero : min size b.content.length = 0
  · have htake : b.content.take size = [] := by
      rw [← List.length_eq_zero_iff, List.length_take]
      exact hzero
    rw [if_pos hzero, hzero, htake]
    rfl
  · rw [if_neg hzero]
    rfl

theorem toString_spec (hb : b.WF) :
    b.toString = .ok (b.advance b.content.length, b.content) := by
  unfold toString
  have hread := read_spec hb b.ReadableSize
  rw [← hb.length_content, Nat.min_self, List.take_length] at hread
  simp only [← hb.length_content]
  split
  · rename_i hzero
    rw [hzero, List.eq_nil_of_length_eq_zero hzero]
    rfl
  · exact hread

theorem readInt_spec (hb : b.WF) (type : IntType) (tmp : List UInt8) :
    b.ReadInt type tmp =
      .ok (b.advance (min type.sizeof b.content.length), b.content.take type.sizeof,
        .ofBytes type (b.content.take type.sizeof ++
          tmp.drop (b.content.take type.sizeof).length)) := by
  simp only [ReadInt, read_spec hb]
  rfl

end ByteArray

/-! ## Sessions -/

namespace Session

/-- The bytes handed out and the bytes still in the array are the bytes written. -/
structure Inv (s : Session) : Prop where
  wf : s.array.WF
  length_le : s.array.mBuffer.length ≤ s.written.length
  written_lt : s.written.length < 2 ^ 63
  conserved : s.handed ++ s.array.content = s.written

theorem Inv.start (b : ByteArray) : (start b).Inv where
  wf := ByteArray.WF.clear b
  length_le := Nat.le_refl 0
  written_lt := by simp [Session.start]
  conserved := ByteArray.content_clear b

/-- What an operation appends to the integers returned. -/
def output (s : Session) : Op → List IntVal
  | .readInt type tmp =>
      [.ofBytes type (s.array.content.take type.sizeof ++
        tmp.drop (s.array.content.take type.sizeof).length)]
  | _ => []

/-- How many bytes an operation asks for. -/
def demand (s : Session) : Op → Nat
  | .read size => size
  | .readInt type _ => type.sizeof
  | .getReadBuffer len => len
  | .toString => s.array.content.length
  | .write _ => 0
  | .writeInt _ => 0

/-- One operation, as the queue sees it. -/
structure Effect (s s' : Session) (op : Op) : Prop where
  inv : s'.Inv
  content_eq : s'.array.content = s.array.content.drop (s.demand op) ++ input op
  written_eq : s'.written = s.written ++ input op
  returned_eq : s'.returned = s.returned ++ s.output op

variable {s s' : Session} {op : Op}

theorem write_effect (hs : s.Inv) (buf : List UInt8)
    (hsize : s.written.length + buf.length < 2 ^ 63) :
    ∃ b, s.array.Write buf = .ok b ∧
      Inv { s with array := b, written := s.written ++ buf } ∧
      b.content = s.array.content ++ buf := by
  have hle := hs.length_le
  have hwrite := hs.wf.write_le
  have hroom : s.array.mWriteIndex + buf.length < 2 ^ 63 := by omega
  obtain ⟨b, hb, hwf, hcontent, hbound⟩ := ByteArray.write_spec hs.wf hroom
  refine ⟨b, hb, ⟨hwf, ?_, ?_, ?_⟩, hcontent⟩
  · simp only [List.length_append]
    omega
  · simpa only [List.length_append] using hsize
  · simp only [hcontent, ← List.append_assoc, hs.conserved]

theorem take_inv (hs : s.Inv) (size : Nat) (returned : List IntVal) :
    Inv { s with
      array := s.array.advance (min size s.array.content.length)
      handed := s.handed ++ s.array.content.take size
      returned := returned } where
  wf := hs.wf.advance size
  length_le := hs.length_le
  written_lt := hs.written_lt
  conserved := by
    rw [ByteArray.content_advance s.array, List.append_assoc, List.take_append_drop, hs.conserved]

theorem perform_effect (hs : s.Inv) (hsize : s.written.length + (input op).length < 2 ^ 63) :
    ∃ s', s.perform op = .ok s' ∧ s.Effect s' op := by
  have hnone : s.written = s.written ++ [] := (List.append_nil _).symm
  have hquiet : s.returned = s.returned ++ [] := (List.append_nil _).symm
  cases op with
  | write buf =>
      obtain ⟨b, hb, hinv, hcontent⟩ := write_effect hs buf hsize
      refine ⟨_, ?_, hinv, hcontent, rfl, hquiet⟩
      simp only [perform, hb]
      rfl
  | writeInt val =>
      obtain ⟨b, hb, hinv, hcontent⟩ := write_effect hs val.toBytes hsize
      refine ⟨_, ?_, hinv, hcontent, rfl, hquiet⟩
      simp only [perform, ByteArray.WriteInt, hb]
      rfl
  | read size =>
      refine ⟨_, ?_, take_inv hs size s.returned, ?_, hnone, hquiet⟩
      · simp only [perform, ByteArray.read_spec hs.wf]
        rfl
      · simpa [input, demand] using ByteArray.content_advance s.array size
  | readInt type tmp =>
      refine ⟨_, ?_, take_inv hs type.sizeof _, ?_, hnone, rfl⟩
      · simp only [perform, ByteArray.readInt_spec hs.wf]
        rfl
      · simpa [input, demand] using ByteArray.content_advance s.array type.sizeof
  | getReadBuffer len =>
      refine ⟨_, ?_, take_inv hs len s.returned, ?_, hnone, hquiet⟩
      · simp only [perform, ByteArray.getReadBuffer_spec hs.wf]
        rfl
      · simpa [input, demand] using ByteArray.content_advance s.array len
  | toString =>
      have htake := take_inv hs s.array.content.length s.returned
      have hadvance := ByteArray.content_advance s.array s.array.content.length
      rw [Nat.min_self] at htake hadvance
      rw [List.take_length] at htake
      refine ⟨_, ?_, htake, ?_, hnone, hquiet⟩
      · simp only [perform, ByteArray.toString_spec hs.wf]
        rfl
      · simpa [input, demand] using hadvance

theorem Inv.safe (hs : s.Inv) : machine.Safe s := by
  intro op hguard
  have hsize : s.written.length + (input op).length < 2 ^ 63 := of_decide_eq_true hguard
  obtain ⟨s', hperform, -⟩ := perform_effect hs hsize
  exact ⟨s', hperform⟩

theorem step_effect (hs : s.Inv) (hstep : machine.step s op = some s') : s.Effect s' op := by
  obtain ⟨hguard, hexec⟩ := machine.step_eq_some_iff.mp hstep
  have hsize : s.written.length + (input op).length < 2 ^ 63 := of_decide_eq_true hguard
  obtain ⟨s'', hperform, heffect⟩ := perform_effect hs hsize
  have hsame : s'' = s' := Except.ok.inj (hperform.symm.trans hexec)
  exact hsame ▸ heffect

theorem run_inv {b : ByteArray} {ops : List Op} (hrun : machine.run (start b) ops = some s) :
    s.Inv :=
  Machine.run_invariant (fun hs hstep => (step_effect hs hstep).inv) (Inv.start b) hrun

theorem run_written {ops : List Op} (hs : s.Inv) (hrun : machine.run s ops = some s') :
    s'.written = s.written ++ ops.flatMap input := by
  induction ops generalizing s with
  | nil =>
      cases hrun
      simp
  | cons op ops ih =>
      obtain ⟨mid, hmid, hrest⟩ := machine.run_cons_iff.mp hrun
      have heffect := step_effect hs hmid
      rw [ih heffect.inv hrest, heffect.written_eq]
      simp

end Session

/-! ## Integers -/

theorem length_bytesOfNat (n x : Nat) : (bytesOfNat n x).length = n := by
  induction n generalizing x with
  | zero => rfl
  | succ n ih => simp [bytesOfNat, ih]

theorem natOfBytes_bytesOfNat (n x : Nat) : natOfBytes (bytesOfNat n x) = x % 256 ^ n := by
  induction n generalizing x with
  | zero => simp [bytesOfNat, natOfBytes, Nat.mod_one]
  | succ n ih =>
      have hbyte : (UInt8.ofNat x).toNat = x % 256 := UInt8.toNat_ofNat'
      simp only [bytesOfNat, natOfBytes, ih, hbyte]
      rw [Nat.pow_succ', Nat.mod_mul]

theorem natOfBytes_append (bytes rest : List UInt8) :
    natOfBytes (bytes ++ rest) = natOfBytes bytes + 256 ^ bytes.length * natOfBytes rest := by
  induction bytes with
  | nil => simp [natOfBytes]
  | cons byte bytes ih =>
      simp only [List.cons_append, natOfBytes, ih, List.length_cons, Nat.pow_succ']
      rw [Nat.mul_add, Nat.mul_assoc, Nat.add_assoc]

theorem IntVal.length_toBytes (v : IntVal) : v.toBytes.length = v.type.sizeof :=
  length_bytesOfNat _ _

/-- Whatever the local held behind the bytes read. -/
theorem IntVal.ofBytes_toBytes (v : IntVal) (rest : List UInt8) :
    IntVal.ofBytes v.type (v.toBytes ++ rest) = v := by
  obtain ⟨type, bits⟩ := v
  have hlt : bits.toNat < 256 ^ type.sizeof := by
    have h := bits.isLt
    rwa [Nat.pow_mul] at h
  simp only [IntVal.ofBytes, natOfBytes_append, IntVal.toBytes, natOfBytes_bytesOfNat,
    length_bytesOfNat, Nat.mod_eq_of_lt hlt]
  congr 1
  apply BitVec.eq_of_toNat_eq
  rw [BitVec.toNat_ofNat, Nat.pow_mul, Nat.add_mul_mod_self_left]
  exact Nat.mod_eq_of_lt hlt

/-- Only `WriteInt` and `ReadInt` calls, each reading the type of the oldest unread value. -/
def Typed : List IntVal → List Op → Prop
  | _, [] => True
  | queue, .writeInt val :: ops => Typed (queue ++ [val]) ops
  | val :: queue, .readInt type _ :: ops => val.type = type ∧ Typed queue ops
  | _, _ => False

def valuesWritten : List Op → List IntVal
  | [] => []
  | .writeInt val :: ops => val :: valuesWritten ops
  | _ :: ops => valuesWritten ops

def readCount : List Op → Nat
  | [] => 0
  | .readInt _ _ :: ops => readCount ops + 1
  | _ :: ops => readCount ops

namespace Session

variable {s s' : Session}

theorem run_typed {queue : List IntVal} {ops : List Op} (hs : s.Inv)
    (hqueue : s.array.content = queue.flatMap IntVal.toBytes) (htyped : Typed queue ops)
    (hrun : machine.run s ops = some s') :
    s'.returned = s.returned ++ (queue ++ valuesWritten ops).take (readCount ops) := by
  induction queue, ops using Typed.induct generalizing s with
  | case1 queue =>
      cases hrun
      simp [readCount]
  | case2 queue val ops ih =>
      obtain ⟨mid, hmid, hrest⟩ := machine.run_cons_iff.mp hrun
      have heffect := step_effect hs hmid
      have hcontent : mid.array.content = (queue ++ [val]).flatMap IntVal.toBytes := by
        rw [heffect.content_eq, hqueue]
        simp [demand, input]
      rw [ih heffect.inv hcontent htyped hrest, heffect.returned_eq]
      simp [output, valuesWritten, readCount]
  | case3 val queue type tmp ops ih =>
      obtain ⟨rfl, htyped⟩ := htyped
      obtain ⟨mid, hmid, hrest⟩ := machine.run_cons_iff.mp hrun
      have heffect := step_effect hs hmid
      have hsplit : s.array.content = val.toBytes ++ queue.flatMap IntVal.toBytes := by
        rw [hqueue, List.flatMap_cons]
      have htake : s.array.content.take val.type.sizeof = val.toBytes := by
        rw [hsplit, ← val.length_toBytes, List.take_left]
      have hcontent : mid.array.content = queue.flatMap IntVal.toBytes := by
        rw [heffect.content_eq, hsplit]
        simp only [demand, input, List.append_nil]
        rw [← val.length_toBytes, List.drop_left]
      have hval : s.output (.readInt val.type tmp) = [val] := by
        simp only [output, htake, IntVal.ofBytes_toBytes]
      rw [ih heffect.inv hcontent htyped hrest, heffect.returned_eq, hval]
      simp [valuesWritten, readCount]
  | case4 queue ops hnil hwrite hread =>
      simp_all [Typed]

end Session

/--
From `clear()` on, for every sequence of operations: the indexes are ordered, no further
operation leaves the buffer, nothing is lost or reordered, and integers read back with
the types they were written with come back unchanged, also after other traffic has been
consumed.
-/
theorem byteArray_is_fifo (b : ByteArray) {ops : List Op} {s : Session}
    (hrun : machine.run (Session.start b) ops = some s) :
    (s.array.mReadIndex ≤ s.array.mWriteIndex ∧
      s.array.mWriteIndex ≤ s.array.mBuffer.length) ∧
    machine.Safe s ∧
    s.written = ops.flatMap Session.input ∧
    s.array.ReadableSize = s.written.length - s.handed.length ∧
    s.handed <+: s.written ∧
    ∀ (more : List Op) (s' : Session), s.array.ReadableSize = 0 → Typed [] more →
      machine.run s more = some s' →
      s'.returned = s.returned ++ (valuesWritten more).take (readCount more) := by
  have hs := Session.run_inv hrun
  have hreadable := hs.wf.length_content
  have hlength := congrArg List.length hs.conserved
  rw [List.length_append] at hlength
  refine ⟨⟨hs.wf.read_le, hs.wf.write_le⟩, hs.safe, ?_, ?_, ⟨_, hs.conserved⟩, ?_⟩
  · exact Session.run_written (Session.Inv.start b) hrun
  · omega
  · intro more s' hempty htyped hmore
    have hcontent : s.array.content = ([] : List IntVal).flatMap IntVal.toBytes := by
      rw [List.flatMap_nil, ← List.length_eq_zero_iff, hreadable, hempty]
    exact Session.run_typed hs hcontent htyped hmore

def sampleOps : List Op :=
  [.write (List.replicate 24 1), .read 22, .write [7, 8, 9], .toString]

def sampleInts : List Op :=
  [.writeInt ⟨.int16, 0x8001#16⟩, .readInt .int16 [3, 4]]

/-- The third operation compacts: 22 bytes in front hold the 3 bytes and the 16 reserved. -/
theorem byteArray_is_fifo_sample :
    ∃ s s', machine.run (Session.start ⟨[5], 1, 1⟩) sampleOps = some s ∧
      s.array.mReadIndex = 21 ∧ s.handed <+: s.written ∧
      machine.run s sampleInts = some s' ∧
      s'.returned = s.returned ++ [⟨.int16, 0x8001#16⟩] := by
  have hrun : ((machine.run (Session.start ⟨[5], 1, 1⟩) sampleOps).bind fun s =>
      (machine.run s sampleInts).map fun _ =>
        (s.array.mReadIndex, s.array.ReadableSize)) = some (21, 0) := by decide
  obtain ⟨s, hs, hmore⟩ := Option.bind_eq_some_iff.mp hrun
  obtain ⟨s', hs', hindexes⟩ := Option.map_eq_some_iff.mp hmore
  obtain ⟨-, -, -, -, hstarts, hints⟩ := byteArray_is_fifo _ hs
  obtain ⟨hread, hempty⟩ := Prod.mk.inj hindexes
  have htyped : Typed [] sampleInts := by simp [Typed, sampleInts]
  exact ⟨s, s', hs, hread, hstarts, hs', hints sampleInts s' hempty htyped hs'⟩

end Qslary.Bytes

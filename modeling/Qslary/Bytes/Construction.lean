import Qslary.Bytes.Space

/-!
# Arrays from construction on

The constructor of `ByteArray` makes the buffer and leaves both indexes as the memory was.
Every operation relies on their order, and the ones that take any size also on sums that do
not wrap.  A call that throws leaves the array as it was.
-/

namespace Qslary.Bytes

open Qslary.Foundation

/-- What the memory of the object held in the place of the indexes. -/
structure Memory where
  mReadIndex : UInt64
  mWriteIndex : UInt64
  deriving DecidableEq, Repr

/-- An object that can be written; none is larger than `PTRDIFF_MAX`. -/
abbrev Object := { bytes : List UInt8 // bytes.length < 2 ^ 63 }

namespace ByteArray

/-- `ByteArray(base_size)` -/
def new (base_size : Nat) (memory : Memory) : Except Fault ByteArray :=
  resize ⟨[], memory.mReadIndex.toNat, memory.mWriteIndex.toNat⟩ base_size

/-- What the constructor leaves in that memory. -/
def built (base_size : Nat) (memory : Memory) : ByteArray :=
  ⟨List.replicate base_size 0, memory.mReadIndex.toNat, memory.mWriteIndex.toNat⟩

/-- A byte as two digits and a blank, on a new line after every 32. -/
def hexBytes : Nat → List UInt8 → List UInt8
  | _, [] => []
  | i, x :: str =>
      (if 0 < i ∧ i % 32 = 0 then [10] else []) ++
        [UInt8.ofNat (Nat.digitChar (x.toNat / 16)).toNat,
          UInt8.ofNat (Nat.digitChar (x.toNat % 16)).toNat, 32] ++ hexBytes (i + 1) str

def toHexString (b : ByteArray) : Except Fault (ByteArray × List UInt8) := do
  let (b, str) ← b.toString
  return (b, hexBytes 0 str)

/-- The indexes are in order, so that no size wraps. -/
structure Usable (b : ByteArray) : Prop where
  read_le : b.mReadIndex ≤ b.mWriteIndex
  write_le : b.mWriteIndex ≤ b.mBuffer.length
  readable : b.ReadableSize = b.mWriteIndex - b.mReadIndex
  writeable : b.WriteableSize = b.mBuffer.length - b.mWriteIndex

/-- The sizes that `MakeSpace` computes do not wrap, or there is room for what is unread. -/
def Fits (b : ByteArray) (size : Nat) : Prop :=
  if b.mReadIndex + (b.mBuffer.length - b.mWriteIndex) < (size + kPreHeadSize) % 2 ^ 64 then
    b.mWriteIndex + size < 2 ^ 64
  else kPreHeadSize + (b.mWriteIndex - b.mReadIndex) ≤ b.mBuffer.length

instance (b : ByteArray) (size : Nat) : Decidable (b.Fits size) :=
  inferInstanceAs (Decidable (if _ < _ then _ < _ else _ ≤ _))

end ByteArray

/-! ## The public operations -/

inductive Call where
  | write (buf : Object)
  | writeInt (val : IntVal)
  | read (size : UInt64)
  | readInt (type : IntType) (tmp : List UInt8)
  | clear
  | getReadBuffer (len : UInt64)
  | getWriteBuffer (len : UInt64)
  | makeSpace (size : UInt64)
  | toString
  | toHexString

namespace Call

def run (b : ByteArray) : Call → Except Fault ByteArray
  | write buf => b.Write buf.val
  | writeInt val => b.WriteInt val
  | read size => (b.Read size.toNat).map Prod.fst
  | readInt type tmp => (b.ReadInt type tmp).map Prod.fst
  | clear => .ok b.clear
  | getReadBuffer len => (b.GetReadBuffer len.toNat).map Prod.fst
  | getWriteBuffer len => (b.GetWriteBuffer len.toNat).map Prod.fst
  | makeSpace size => b.MakeSpace size.toNat
  | toString => b.toString.map Prod.fst
  | toHexString => b.toHexString.map Prod.fst

/-- `std::length_error` is thrown before anything is changed. -/
def caught (b : ByteArray) : Except Fault ByteArray → Except Fault ByteArray
  | .error .lengthError => .ok b
  | result => result

def machine : Machine ByteArray Call Fault where
  guard _ _ := true
  exec b call := caught b (call.run b)

/-- The calls that leave the array usable. -/
def Fitting (b : ByteArray) : Call → Prop
  | getWriteBuffer len => b.Fits len.toNat
  | makeSpace size => b.Fits size.toNat
  | _ => True

instance (b : ByteArray) : ∀ call : Call, Decidable (Fitting b call)
  | getWriteBuffer len => inferInstanceAs (Decidable (b.Fits len.toNat))
  | makeSpace size => inferInstanceAs (Decidable (b.Fits size.toNat))
  | write _ | writeInt _ | read _ | readInt _ _ | clear | getReadBuffer _ | toString
  | toHexString => isTrue trivial

end Call

/-! ## Making room of any size -/

namespace ByteArray

variable {b b' : ByteArray} {size : Nat}

theorem WF.usable (hb : b.WF) : b.Usable :=
  ⟨hb.read_le, hb.write_le, hb.readableSize, hb.writeableSize⟩

/-- Unread bytes that are moved to `kPreHeadSize` have to find room there. -/
theorem compact_usable_iff (hb : b.WF) (hspace : b.MakeSpace size =
      match Block.copyWithin b.mBuffer b.mReadIndex kPreHeadSize b.ReadableSize with
      | none => .error .outOfBounds
      | some buffer => .ok ⟨buffer, kPreHeadSize, sizeAdd kPreHeadSize b.ReadableSize⟩) :
    (∃ b', Call.caught b (b.MakeSpace size) = .ok b' ∧ b'.Usable) ↔
      kPreHeadSize + (b.mWriteIndex - b.mReadIndex) ≤ b.mBuffer.length := by
  have hwrite := hb.write_le
  have hlt := hb.length_lt
  have hhead : kPreHeadSize = 16 := rfl
  have hend : sizeAdd kPreHeadSize b.ReadableSize =
      kPreHeadSize + (b.mWriteIndex - b.mReadIndex) := by
    rw [hb.readableSize, sizeAdd_eq (by omega)]
  rw [hspace, hend]
  constructor
  · rintro ⟨b', heq, husable⟩
    cases hcopy : Block.copyWithin b.mBuffer b.mReadIndex kPreHeadSize b.ReadableSize with
    | none =>
        rw [hcopy] at heq
        cases heq
    | some buffer =>
        rw [hcopy] at heq
        cases heq
        have hle := husable.write_le
        rwa [Block.length_copyWithin hcopy] at hle
  · intro hroom
    have hcontent : kPreHeadSize + b.content.length ≤ b.mBuffer.length := by
      rwa [hb.length_content, hb.readableSize]
    obtain ⟨buffer, hcopy, hlength, -⟩ := copy_content hb hcontent
    rw [hcopy]
    refine ⟨_, rfl, WF.usable ⟨Nat.le_add_right _ _, ?_, ?_⟩⟩
    · rwa [hlength]
    · rwa [hlength]

/-- What a call that may throw leaves, if it leaves something usable. -/
theorem makeSpace_usable_iff (hb : b.WF) (hsize : size < 2 ^ 64) :
    (∃ b', Call.caught b (b.MakeSpace size) = .ok b' ∧ b'.Usable) ↔ b.Fits size := by
  have hread := hb.read_le
  have hwrite := hb.write_le
  have hlt := hb.length_lt
  have hroom : sizeAdd b.PrependableSize b.WriteableSize =
      b.mReadIndex + (b.mBuffer.length - b.mWriteIndex) := by
    rw [PrependableSize, hb.writeableSize, sizeAdd_eq (by omega)]
  by_cases hgrows : b.mReadIndex + (b.mBuffer.length - b.mWriteIndex) <
      (size + kPreHeadSize) % 2 ^ 64
  · rw [MakeSpace, hroom, sizeAdd, Fits, if_pos hgrows, if_pos hgrows, resize, sizeAdd]
    split
    · rename_i hlarge
      constructor
      · rintro ⟨b', heq, husable⟩
        cases heq
        have hle := husable.write_le
        rw [Block.length_resize] at hle
        dsimp only at hle
        omega
      · intro hfits
        have hgrown : (b.mWriteIndex + size) % 2 ^ 64 = b.mWriteIndex + size :=
          Nat.mod_eq_of_lt hfits
        refine ⟨_, rfl, WF.usable ⟨hread, ?_, ?_⟩⟩
        · rw [Block.length_resize, hgrown]
          exact Nat.le_add_right _ _
        · rw [Block.length_resize]
          exact hlarge
    · exact iff_of_true ⟨b, rfl, hb.usable⟩ (by omega)
  · rw [Fits, if_neg hgrows]
    apply compact_usable_iff hb
    rw [MakeSpace, hroom, sizeAdd]
    exact if_neg hgrows

theorem length_makeSpace (hb : b.WF) (h : b.MakeSpace size = .ok b') :
    b'.mBuffer.length < 2 ^ 63 := by
  unfold MakeSpace at h
  split at h
  · rw [resize] at h
    split at h
    · cases h
      rwa [Block.length_resize]
    · cases h
  · dsimp only at h
    split at h
    · cases h
    · rename_i hcopy
      cases h
      rw [Block.length_copyWithin hcopy]
      exact hb.length_lt

/-- An object can always be written, if it does not make the buffer too large. -/
theorem write_caught (hb : b.WF) (buf : Object) :
    ∃ b', Call.caught b (b.Write buf.val) = .ok b' ∧ b'.WF := by
  have hmade : (if b.WriteableSize < buf.val.length then b.MakeSpace buf.val.length else .ok b) =
      .error .lengthError ∨
      ∃ made, (if b.WriteableSize < buf.val.length then b.MakeSpace buf.val.length else .ok b) =
        .ok made ∧ made.WF ∧ made.mWriteIndex + buf.val.length ≤ made.mBuffer.length := by
    by_cases hsmall : b.WriteableSize < buf.val.length
    · rw [if_pos hsmall]
      rcases makeSpace_cases hb buf.property with ⟨hfails, -⟩ | ⟨made, hmade, hwf, hroom, -⟩
      · exact Or.inl hfails
      · exact Or.inr ⟨made, hmade, hwf, hroom⟩
    · have hwrite := hb.write_le
      have hroom := hsmall
      rw [hb.writeableSize] at hroom
      rw [if_neg hsmall]
      exact Or.inr ⟨b, rfl, hb, by omega⟩
  rw [write_eq]
  rcases hmade with hfails | ⟨made, hmade, hwf, hroom⟩
  · rw [hfails]
    exact ⟨b, rfl, hb⟩
  · have hlt := hwf.length_lt
    have hadd : sizeAdd made.mWriteIndex buf.val.length = made.mWriteIndex + buf.val.length :=
      sizeAdd_eq (by omega)
    have hblit := Block.blit_eq hroom
    have hlength := Block.length_blit hblit
    rw [hmade]
    simp only [Except.bind, hblit, hadd]
    refine ⟨_, rfl, hwf.read_le.trans (Nat.le_add_right _ _), ?_, ?_⟩
    · rwa [hlength]
    · rwa [hlength]

end ByteArray

/-! ## One call -/

namespace Call

variable {b b' : ByteArray}

theorem run_wf (hb : b.WF) (call : Call) (hother : ∀ len, call ≠ getWriteBuffer len)
    (hsize : ∀ size, call ≠ makeSpace size) :
    ∃ b', caught b (call.run b) = .ok b' ∧ b'.WF := by
  cases call with
  | write buf => exact ByteArray.write_caught hb buf
  | writeInt val =>
      have hlength : val.toBytes.length < 2 ^ 63 := by
        rw [val.length_toBytes]
        cases val.type <;> decide
      exact ByteArray.write_caught hb ⟨val.toBytes, hlength⟩
  | read size =>
      rw [run, ByteArray.read_spec hb]
      exact ⟨_, rfl, hb.advance size.toNat⟩
  | readInt type tmp =>
      rw [run, ByteArray.readInt_spec hb]
      exact ⟨_, rfl, hb.advance type.sizeof⟩
  | clear => exact ⟨_, rfl, ByteArray.WF.clear b⟩
  | getReadBuffer len =>
      rw [run, ByteArray.getReadBuffer_spec hb]
      exact ⟨_, rfl, hb.advance len.toNat⟩
  | getWriteBuffer len => exact absurd rfl (hother len)
  | makeSpace size => exact absurd rfl (hsize size)
  | toString =>
      have hwf := hb.advance b.content.length
      rw [Nat.min_self] at hwf
      rw [run, ByteArray.toString_spec hb]
      exact ⟨_, rfl, hwf⟩
  | toHexString =>
      have hwf := hb.advance b.content.length
      rw [Nat.min_self] at hwf
      rw [run, ByteArray.toHexString, ByteArray.toString_spec hb]
      exact ⟨_, rfl, hwf⟩

theorem run_getWriteBuffer (b : ByteArray) (len : UInt64) :
    (getWriteBuffer len).run b = b.MakeSpace len.toNat := by
  rw [run, ByteArray.GetWriteBuffer]
  cases b.MakeSpace len.toNat <;> rfl

theorem step_eq_some_iff {call : Call} :
    machine.step b call = some b' ↔ caught b (call.run b) = .ok b' := by
  rw [Machine.step_eq_some_iff]
  exact and_iff_right rfl

/-- A call leaves a usable array exactly when the room that it asks for fits. -/
theorem step_usable_iff (hb : b.WF) (call : Call) :
    (∃ b', machine.step b call = some b' ∧ b'.Usable) ↔ Fitting b call := by
  have husable : ∀ call : Call, (∀ len, call ≠ getWriteBuffer len) →
      (∀ size, call ≠ makeSpace size) → ∃ b', machine.step b call = some b' ∧ b'.Usable := by
    intro call hother hsize
    obtain ⟨b', hrun, hwf⟩ := run_wf hb call hother hsize
    exact ⟨b', step_eq_some_iff.mpr hrun, hwf.usable⟩
  cases call with
  | getWriteBuffer len =>
      simp only [step_eq_some_iff, run_getWriteBuffer]
      exact ByteArray.makeSpace_usable_iff hb len.toNat_lt
  | makeSpace size =>
      simp only [step_eq_some_iff]
      exact ByteArray.makeSpace_usable_iff hb size.toNat_lt
  | _ => exact iff_of_true (husable _ nofun nofun) trivial

theorem caught_eq_ok {result : Except Fault ByteArray} (h : caught b result = .ok b') :
    b' = b ∨ result = .ok b' := by
  cases result with
  | ok made => exact Or.inr h
  | error fault =>
      cases fault with
      | outOfBounds => cases h
      | lengthError =>
          cases h
          exact Or.inl rfl

/-- Whatever a call leaves is no larger than a vector can be. -/
theorem wf_of_step {call : Call} (hb : b.WF) (hstep : machine.step b call = some b')
    (husable : b'.Usable) : b'.WF := by
  have hrun := step_eq_some_iff.mp hstep
  have hspace : ∀ size, caught b (b.MakeSpace size) = .ok b' → b'.WF := by
    intro size h
    rcases caught_eq_ok h with rfl | hmade
    · exact hb
    · exact ⟨husable.read_le, husable.write_le, ByteArray.length_makeSpace hb hmade⟩
  have hother : ∀ call : Call, caught b (call.run b) = .ok b' →
      (∀ len, call ≠ getWriteBuffer len) → (∀ size, call ≠ makeSpace size) → b'.WF := by
    intro call hrun hother hsize
    obtain ⟨made, hmade, hwf⟩ := run_wf hb call hother hsize
    rw [hmade] at hrun
    cases hrun
    exact hwf
  cases call with
  | getWriteBuffer len =>
      rw [run_getWriteBuffer] at hrun
      exact hspace _ hrun
  | makeSpace size => exact hspace _ hrun
  | _ => exact hother _ hrun nofun nofun

/-! ## From the constructor on -/

theorem new_eq (base_size : Nat) (memory : Memory) :
    ByteArray.new base_size memory =
      if base_size < 2 ^ 63 then .ok (.built base_size memory) else .error .lengthError := by
  simp [ByteArray.new, ByteArray.resize, Block.resize, ByteArray.built]

/-- A new array is usable and empty if the memory happened to hold two equal indexes in it. -/
theorem built_usable_iff {base_size : Nat} (hsize : base_size < 2 ^ 63) (memory : Memory) :
    (ByteArray.built base_size memory).Usable ∧
        (ByteArray.built base_size memory).ReadableSize = 0 ↔
      memory.mReadIndex = memory.mWriteIndex ∧ memory.mWriteIndex.toNat ≤ base_size := by
  constructor
  · rintro ⟨husable, hempty⟩
    have hread : memory.mReadIndex.toNat ≤ memory.mWriteIndex.toNat := husable.read_le
    have hwrite := husable.write_le
    have hnone : 0 = memory.mWriteIndex.toNat - memory.mReadIndex.toNat :=
      hempty.symm.trans husable.readable
    rw [ByteArray.built, List.length_replicate] at hwrite
    exact ⟨UInt64.toNat_inj.mp (by omega), hwrite⟩
  · rintro ⟨heq, hle⟩
    have hwf : (ByteArray.built base_size memory).WF := by
      refine ⟨?_, ?_, ?_⟩
      · exact (congrArg UInt64.toNat heq).le
      · rwa [ByteArray.built, List.length_replicate]
      · rwa [ByteArray.built, List.length_replicate]
    refine ⟨hwf.usable, hwf.readableSize.trans ?_⟩
    rw [ByteArray.built, heq]
    exact Nat.sub_self _

/--
Straight after its constructor an array is usable, and stays so, exactly when its memory
held indexes in order and the room that is asked for fits.
-/
theorem usable_from_construction_iff (base_size : Nat) (memory : Memory) (calls : List Call) :
    (∀ b, ByteArray.new base_size memory = .ok b → b.Usable ∧ b.ReadableSize = 0 ∧
      machine.Always (fun _ _ b' => b'.Usable) b calls) ↔
      (base_size < 2 ^ 63 →
        memory.mReadIndex = memory.mWriteIndex ∧ memory.mWriteIndex.toNat ≤ base_size ∧
          machine.Meets Fitting (.built base_size memory) calls) := by
  have hruns : ∀ b : ByteArray, b.WF →
      (machine.Always (fun _ _ b' => b'.Usable) b calls ↔ machine.Meets Fitting b calls) :=
    fun b hb => Machine.always_iff_meets (fun hb => step_usable_iff hb _)
      (fun hb hstep husable => wf_of_step hb hstep husable) hb
  by_cases hsize : base_size < 2 ^ 63
  · have hnew := new_eq base_size memory
    rw [if_pos hsize] at hnew
    have hbuilt := built_usable_iff hsize memory
    have hwf : (ByteArray.built base_size memory).Usable →
        (ByteArray.built base_size memory).WF := by
      intro husable
      refine ⟨husable.read_le, husable.write_le, ?_⟩
      rwa [ByteArray.built, List.length_replicate]
    constructor
    · intro h _
      obtain ⟨husable, hempty, halways⟩ := h _ hnew
      obtain ⟨heq, hle⟩ := hbuilt.mp ⟨husable, hempty⟩
      exact ⟨heq, hle, (hruns _ (hwf husable)).mp halways⟩
    · intro h b hb
      obtain ⟨heq, hle, hmeets⟩ := h hsize
      obtain ⟨husable, hempty⟩ := hbuilt.mpr ⟨heq, hle⟩
      rw [hnew] at hb
      cases hb
      exact ⟨husable, hempty, (hruns _ (hwf husable)).mpr hmeets⟩
  · refine iff_of_true (fun b hb => ?_) fun h => absurd h hsize
    rw [new_eq, if_neg hsize] at hb
    cases hb

/-- With a read index left behind the write index, an empty array offers `2 ^ 64 - 1` bytes. -/
theorem usable_from_construction_fails :
    ∃ b, ByteArray.new 4096 ⟨1, 0⟩ = .ok b ∧ b.ReadableSize = 2 ^ 64 - 1 ∧ ¬ b.Usable := by
  refine ⟨.built 4096 ⟨1, 0⟩, new_eq 4096 ⟨1, 0⟩, rfl, fun h => ?_⟩
  exact absurd h.read_le (by decide)

end Call

end Qslary.Bytes

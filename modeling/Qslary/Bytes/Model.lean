import Qslary.Foundation.Block
import Qslary.Foundation.Transition

/-!
# The byte array

`ByteArray` of `net/ByteArray.h` and `net/ByteArray.cc`: a vector of bytes with a
read and a write index.  The indexes are `size_t`, so their sums and differences are
taken modulo `2 ^ 64`.  A copy that leaves `mBuffer`, and a `resize` beyond
`max_size()`, is a fault.
-/

namespace Qslary.Bytes

open Qslary.Foundation

def sizeAdd (a b : Nat) : Nat := (a + b) % 2 ^ 64

def sizeSub (a b : Nat) : Nat := (a + (2 ^ 64 - b)) % 2 ^ 64

theorem sizeAdd_eq {a b : Nat} (h : a + b < 2 ^ 64) : sizeAdd a b = a + b :=
  Nat.mod_eq_of_lt h

theorem sizeSub_eq {a b : Nat} (hle : b ≤ a) (ha : a < 2 ^ 64) : sizeSub a b = a - b := by
  unfold sizeSub
  omega

inductive Fault where
  | outOfBounds
  | lengthError
  deriving DecidableEq, Repr

def kPreHeadSize : Nat := 16

structure ByteArray where
  mBuffer : List UInt8
  mReadIndex : Nat
  mWriteIndex : Nat
  deriving DecidableEq, Repr

namespace ByteArray

def ReadableSize (b : ByteArray) : Nat := sizeSub b.mWriteIndex b.mReadIndex

def WriteableSize (b : ByteArray) : Nat := sizeSub b.mBuffer.length b.mWriteIndex

def PrependableSize (b : ByteArray) : Nat := b.mReadIndex

def clear (_ : ByteArray) : ByteArray := ⟨[], 0, 0⟩

def resize (b : ByteArray) (n : Nat) : Except Fault ByteArray :=
  if n < 2 ^ 63 then .ok { b with mBuffer := Block.resize b.mBuffer n 0 }
  else .error .lengthError

/-- The bytes at `mBuffer.data() + first`, for a copy out of the buffer. -/
def bytesAt (b : ByteArray) (first n : Nat) : Except Fault (List UInt8) :=
  if first + n ≤ b.mBuffer.length then .ok (Block.slice b.mBuffer first (first + n))
  else .error .outOfBounds

def MakeSpace (b : ByteArray) (size : Nat) : Except Fault ByteArray :=
  if sizeAdd b.PrependableSize b.WriteableSize < sizeAdd size kPreHeadSize then
    b.resize (sizeAdd b.mWriteIndex size)
  else
    let readable := b.ReadableSize
    match Block.copyWithin b.mBuffer b.mReadIndex kPreHeadSize readable with
    | none => .error .outOfBounds
    | some buffer => .ok ⟨buffer, kPreHeadSize, sizeAdd kPreHeadSize readable⟩

def Write (b : ByteArray) (buf : List UInt8) : Except Fault ByteArray := do
  let size := buf.length
  let b ← if b.WriteableSize < size then b.MakeSpace size else pure b
  match Block.blit b.mBuffer b.mWriteIndex buf with
  | none => throw .outOfBounds
  | some buffer => return { b with mBuffer := buffer, mWriteIndex := sizeAdd b.mWriteIndex size }

def Read (b : ByteArray) (size : Nat) : Except Fault (ByteArray × List UInt8) := do
  let realRead := if size > b.ReadableSize then b.ReadableSize else size
  if realRead = 0 then
    return (b, [])
  let buf ← b.bytesAt b.mReadIndex realRead
  return ({ b with mReadIndex := sizeAdd b.mReadIndex realRead }, buf)

/-- The second component is what the returned `iovec` spans. -/
def GetReadBuffer (b : ByteArray) (len : Nat) : Except Fault (ByteArray × List UInt8) := do
  let realSize := if len > b.ReadableSize then b.ReadableSize else len
  let iov ← b.bytesAt b.mReadIndex realSize
  return ({ b with mReadIndex := sizeAdd b.mReadIndex realSize }, iov)

/-- An `iovec` for writing: where in `mBuffer` it begins, and how long it is. -/
structure Iovec where
  iovBase : Nat
  iovLen : Nat
  deriving DecidableEq, Repr

def GetWriteBuffer (b : ByteArray) (len : Nat) : Except Fault (ByteArray × Iovec × Nat) := do
  let b ← b.MakeSpace len
  return (b, ⟨b.mWriteIndex, len⟩, len)

def toString (b : ByteArray) : Except Fault (ByteArray × List UInt8) :=
  let size := b.ReadableSize
  if size = 0 then .ok (b, []) else b.Read size

end ByteArray

/-! ## Integers as bytes -/

inductive IntType where
  | int8 | uint8 | int16 | uint16 | int32 | uint32 | int64 | uint64
  deriving DecidableEq, Repr

def IntType.sizeof : IntType → Nat
  | .int8 | .uint8 => 1
  | .int16 | .uint16 => 2
  | .int32 | .uint32 => 4
  | .int64 | .uint64 => 8

/-- A value of an integer type: its bits, read by `type` as signed or unsigned. -/
structure IntVal where
  type : IntType
  bits : BitVec (8 * type.sizeof)
  deriving DecidableEq, Repr

/-- The object representation, low byte first. -/
def bytesOfNat : Nat → Nat → List UInt8
  | 0, _ => []
  | n + 1, x => UInt8.ofNat x :: bytesOfNat n (x / 256)

def natOfBytes : List UInt8 → Nat
  | [] => 0
  | byte :: bytes => byte.toNat + 256 * natOfBytes bytes

namespace IntVal

def toBytes (v : IntVal) : List UInt8 := bytesOfNat v.type.sizeof v.bits.toNat

def ofBytes (type : IntType) (bytes : List UInt8) : IntVal :=
  ⟨type, BitVec.ofNat _ (natOfBytes bytes)⟩

end IntVal

namespace ByteArray

def WriteInt (b : ByteArray) (val : IntVal) : Except Fault ByteArray :=
  b.Write val.toBytes

/-- `tmp` is what the uninitialised local holds; `Read` may overwrite only part of it. -/
def ReadInt (b : ByteArray) (type : IntType) (tmp : List UInt8) :
    Except Fault (ByteArray × List UInt8 × IntVal) := do
  let (b, buf) ← b.Read type.sizeof
  return (b, buf, .ofBytes type (buf ++ tmp.drop buf.length))

end ByteArray

/-! ## Whole runs -/

inductive Op where
  | write (buf : List UInt8)
  | writeInt (val : IntVal)
  | read (size : Nat)
  | readInt (type : IntType) (tmp : List UInt8)
  | getReadBuffer (len : Nat)
  | toString
  deriving DecidableEq, Repr

/-- The array, the bytes ever written and handed out, and the integers returned. -/
structure Session where
  array : ByteArray
  written : List UInt8
  handed : List UInt8
  returned : List IntVal
  deriving DecidableEq, Repr

namespace Session

def start (b : ByteArray) : Session := ⟨b.clear, [], [], []⟩

def input : Op → List UInt8
  | .write buf => buf
  | .writeInt val => val.toBytes
  | _ => []

def perform (s : Session) : Op → Except Fault Session
  | .write buf => do
      let b ← s.array.Write buf
      return { s with array := b, written := s.written ++ buf }
  | .writeInt val => do
      let b ← s.array.WriteInt val
      return { s with array := b, written := s.written ++ val.toBytes }
  | .read size => do
      let (b, buf) ← s.array.Read size
      return { s with array := b, handed := s.handed ++ buf }
  | .readInt type tmp => do
      let (b, buf, val) ← s.array.ReadInt type tmp
      return { s with array := b, handed := s.handed ++ buf, returned := s.returned ++ [val] }
  | .getReadBuffer len => do
      let (b, iov) ← s.array.GetReadBuffer len
      return { s with array := b, handed := s.handed ++ iov }
  | .toString => do
      let (b, str) ← s.array.toString
      return { s with array := b, handed := s.handed ++ str }

end Session

/-- The only promise of the caller: fewer than `2 ^ 63` bytes are written in all. -/
def machine : Machine Session Op Fault where
  guard s op := decide (s.written.length + (Session.input op).length < 2 ^ 63)
  exec := Session.perform

end Qslary.Bytes

import Qslary.Foundation.Bits
import Qslary.Foundation.KeyOrder
import Qslary.Foundation.Text

/-!
# Socket addresses

The address classes of `net/Address.h` and `net/Address.cc`, on a little-endian machine
with an `int` of 32 bits.  Ports and IPv4 addresses are kept in network order, so that
what `sin_port` and `s_addr` hold are the swapped numbers.  A shift by the width of
`int`, a signed overflow and an access outside `s6_addr` are faults.
-/

namespace Qslary.Addresses

open Qslary.Foundation

inductive Fault where
  | shiftWidth
  | overflow
  | outOfBounds
  deriving DecidableEq, Repr

def AF_INET : UInt16 := 2
def AF_INET6 : UInt16 := 10

/-! ## Byte order and masks -/

class Byteswap (T : Type) where
  byteswap : T → T

export Byteswap (byteswap)

/-- `bswap_16` -/
instance : Byteswap UInt16 where
  byteswap x := (x >>> 8) ||| (x <<< 8)

/-- `bswap_32` -/
instance : Byteswap UInt32 where
  byteswap x :=
    ((x &&& 0xff000000) >>> 24) ||| ((x &&& 0x00ff0000) >>> 8) |||
      ((x &&& 0x0000ff00) <<< 8) ||| ((x &&& 0x000000ff) <<< 24)

def byteswapOnLittleEndian {T : Type} [Byteswap T] (val : T) : T := byteswap val

/-- `CreateMask<T>` for a type of `w` bits; `1` is an `int`, and the shift a `size_t`. -/
def CreateMask (w : Nat) (prezeroNum : UInt32) : Except Fault (BitVec w) :=
  let shift := (((w : Int) - prezeroNum.toNat) % 2 ^ 64).toNat
  if 32 ≤ shift then .error .shiftWidth
  else
    let shifted : Int := if shift = 31 then -2 ^ 31 else 2 ^ shift
    if shifted - 1 < -2 ^ 31 then .error .overflow else .ok (BitVec.ofInt w (shifted - 1))

/-! ## The socket structures -/

structure SockaddrIn where
  sinFamily : UInt16
  sinPort : UInt16
  sAddr : UInt32
  sinZero : UInt64
  deriving DecidableEq, Repr

structure SockaddrIn6 where
  sin6Family : UInt16
  sin6Port : UInt16
  sin6Flowinfo : UInt32
  s6Addr : Vector UInt8 16
  sin6ScopeId : UInt32
  deriving DecidableEq, Repr

/-- What a word looks like in memory. -/
def bytes16 (x : UInt16) : Bytes := [x.toUInt8, (x >>> 8).toUInt8]

def bytes32 (x : UInt32) : Bytes :=
  [x.toUInt8, (x >>> 8).toUInt8, (x >>> 16).toUInt8, (x >>> 24).toUInt8]

def bytes64 (x : UInt64) : Bytes := bytes32 x.toUInt32 ++ bytes32 (x >>> 32).toUInt32

/-! ## IPv4 -/

structure IPv4Address where
  addr : SockaddrIn
  family : addr.sinFamily = AF_INET
  deriving DecidableEq, Repr

namespace IPv4Address

def new (address : UInt32) (port : UInt16) : IPv4Address :=
  ⟨⟨AF_INET, byteswapOnLittleEndian port, byteswapOnLittleEndian address, 0⟩, rfl⟩

def GetPort (a : IPv4Address) : UInt16 := byteswapOnLittleEndian a.addr.sinPort

/-- A null pointer for a prefix that is too long. -/
def BroadcastAddress (a : IPv4Address) (prefixLen : UInt32) :
    Except Fault (Option IPv4Address) :=
  if prefixLen > 32 then .ok none
  else do
    let mask ← CreateMask 32 prefixLen
    .ok (some ⟨{ a.addr with
      sAddr := a.addr.sAddr ||| byteswapOnLittleEndian (UInt32.ofBitVec mask) }, a.family⟩)

def NetworkAddress (a : IPv4Address) (prefixLen : UInt32) : Except Fault (Option IPv4Address) :=
  if prefixLen > 32 then .ok none
  else do
    let mask ← CreateMask 32 prefixLen
    .ok (some ⟨{ a.addr with
      sAddr := a.addr.sAddr &&& byteswapOnLittleEndian (UInt32.ofBitVec mask) }, a.family⟩)

/-- `stack` is what the local `sockaddr_in` holds before its two assignments. -/
def SubnetMask (stack : SockaddrIn) (prefixLen : UInt32) : Except Fault IPv4Address := do
  let mask ← CreateMask 32 prefixLen
  .ok ⟨{ stack with
    sinFamily := AF_INET
    sAddr := ~~~byteswapOnLittleEndian (UInt32.ofBitVec mask) }, rfl⟩

end IPv4Address

/-! ## IPv6 -/

structure IPv6Address where
  addr : SockaddrIn6
  family : addr.sin6Family = AF_INET6
  deriving DecidableEq, Repr

/-- An assignment to `s6_addr[i]`, from what is there. -/
def store (s6Addr : Vector UInt8 16) (i : Nat) (f : UInt8 → UInt8) :
    Except Fault (Vector UInt8 16) :=
  if h : i < 16 then .ok (s6Addr.set i (f s6Addr[i])) else .error .outOfBounds

def fill (s6Addr : Vector UInt8 16) (indices : List Nat) : Except Fault (Vector UInt8 16) :=
  indices.foldlM (fun s6Addr i => store s6Addr i fun _ => 0xff) s6Addr

namespace IPv6Address

def new (address : Vector UInt8 16) (port : UInt16) : IPv6Address :=
  ⟨⟨AF_INET6, byteswapOnLittleEndian port, 0, address, 0⟩, rfl⟩

def GetPort (a : IPv6Address) : UInt16 := byteswapOnLittleEndian a.addr.sin6Port

def BroadcastAddress (a : IPv6Address) (prefixLen : UInt32) : Except Fault IPv6Address := do
  let mask ← CreateMask 8 (prefixLen % 8)
  let first := (prefixLen / 8).toNat
  let s6Addr ← store a.addr.s6Addr first (· ||| UInt8.ofBitVec mask)
  let s6Addr ← fill s6Addr (List.range' (first + 1) (16 - (first + 1)))
  .ok ⟨{ a.addr with s6Addr := s6Addr }, a.family⟩

def NetworkAddress (a : IPv6Address) (prefixLen : UInt32) : Except Fault IPv6Address := do
  let mask ← CreateMask 8 (prefixLen % 8)
  let s6Addr ← store a.addr.s6Addr (prefixLen / 8).toNat (· &&& UInt8.ofBitVec mask)
  .ok ⟨{ a.addr with s6Addr := s6Addr }, a.family⟩

def SubnetMask (prefixLen : UInt32) : Except Fault IPv6Address := do
  let mask ← CreateMask 8 (prefixLen % 8)
  let first := (prefixLen / 8).toNat
  let s6Addr ← store (Vector.replicate 16 0) first fun _ => ~~~UInt8.ofBitVec mask
  let s6Addr ← fill s6Addr (List.range first)
  .ok ⟨⟨AF_INET6, 0, 0, s6Addr, 0⟩, rfl⟩

end IPv6Address

/-! ## Comparison -/

/-- The memory from `addr_` on, and `length`. -/
structure UnixAddress where
  memory : Nat → UInt8
  length : UInt32

inductive Address where
  | ipv4 (address : IPv4Address)
  | ipv6 (address : IPv6Address)
  | unix (address : UnixAddress)

namespace Address

def GetAddrLen : Address → Nat
  | .ipv4 _ => 16
  | .ipv6 _ => 28
  | .unix address => address.length.toNat

/-- The `GetAddrLen()` bytes at `GetAddr()`. -/
def GetAddr : Address → Bytes
  | .ipv4 ⟨addr, _⟩ =>
      bytes16 addr.sinFamily ++ bytes16 addr.sinPort ++ bytes32 addr.sAddr ++ bytes64 addr.sinZero
  | .ipv6 ⟨addr, _⟩ =>
      bytes16 addr.sin6Family ++ bytes16 addr.sin6Port ++ bytes32 addr.sin6Flowinfo ++
        addr.s6Addr.toList ++ bytes32 addr.sin6ScopeId
  | .unix address => (List.range address.length.toNat).map address.memory

/-- `operator<` -/
def lt (a rhs : Address) : Bool :=
  let minlen := min a.GetAddrLen rhs.GetAddrLen
  let result := memcmp a.GetAddr rhs.GetAddr minlen
  if result ≠ 0 then decide (result < 0) else decide (a.GetAddrLen < rhs.GetAddrLen)

/-- `operator==` -/
def eq (a rhs : Address) : Bool :=
  decide (a.GetAddrLen = rhs.GetAddrLen) &&
    decide (memcmp a.GetAddr rhs.GetAddr a.GetAddrLen = 0)

/-- `operator!=` -/
def ne (a rhs : Address) : Bool := !a.eq rhs

end Address

/-! ## Printing -/

/-- A `std::stringstream`; `hex` is the base that `std::hex` has set for good. -/
structure Ostream where
  text : Bytes
  hex : Bool
  deriving DecidableEq, Repr

namespace Ostream

def put (os : Ostream) (text : Bytes) : Ostream := { os with text := os.text ++ text }

def putNumber (os : Ostream) (n : Nat) : Ostream :=
  os.put (if os.hex then hexadecimal n else decimal n)

end Ostream

namespace IPv4Address

def Insert (a : IPv4Address) (os : Ostream) : Ostream :=
  let addr := byteswapOnLittleEndian a.addr.sAddr
  let os := (os.putNumber ((addr >>> 24) &&& 0xff).toNat).put (ascii ".")
  let os := (os.putNumber ((addr >>> 16) &&& 0xff).toNat).put (ascii ".")
  let os := (os.putNumber ((addr >>> 8) &&& 0xff).toNat).put (ascii ".")
  let os := (os.putNumber (addr &&& 0xff).toNat).put (ascii ":")
  os.putNumber (byteswapOnLittleEndian a.addr.sinPort).toNat

def ToString (a : IPv4Address) : Bytes := (a.Insert ⟨[], false⟩).text

end IPv4Address

/-- Bytes read as `uint16_t`. -/
def words : Bytes → List UInt16
  | x :: y :: rest => (x.toUInt16 ||| (y.toUInt16 <<< 8)) :: words rest
  | _ => []

namespace IPv6Address

def groups (a : IPv6Address) : List UInt16 := words a.addr.s6Addr.toList

/-- The loop of `Insert` from some group on, `before` being the group in front of it. -/
def insertGroups (os : Ostream) (usedZeros : Bool) (before : Option UInt16) :
    List UInt16 → Ostream × Bool
  | [] => (os, usedZeros)
  | group :: rest =>
      if group = 0 && !usedZeros then insertGroups os usedZeros (some group) rest
      else
        let (os, usedZeros) :=
          if before = some 0 && !usedZeros then (os.put (ascii ":"), true) else (os, usedZeros)
        let os := { os with hex := true }
        insertGroups (os.putNumber (byteswapOnLittleEndian group).toNat) usedZeros (some group) rest

def Insert (a : IPv6Address) (os : Ostream) : Ostream :=
  let os := os.put (ascii "\x7b")
  let (os, usedZeros) := insertGroups os false none a.groups
  let os := if !usedZeros && a.groups[7]? = some 0 then os.put (ascii "::") else os
  (os.put (ascii "]:")).putNumber (byteswapOnLittleEndian a.addr.sin6Port).toNat

def ToString (a : IPv6Address) : Bytes := (a.Insert ⟨[], false⟩).text

end IPv6Address

end Qslary.Addresses

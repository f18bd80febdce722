import Qslary.Addresses.Model

/-!
# Subnets

The three operations of CIDR on the bits of an address, and how far the two address
classes compute them.  `CreateMask` makes the ones behind the prefix, which is what
`BroadcastAddress` has to set and `SubnetMask` to leave out; `NetworkAddress` has to
clear them and keeps them instead.
-/

namespace Qslary.Addresses

open Qslary.Foundation

/-! ## Masks -/

theorem createMask_eq {w : Nat} {prezeroNum : UInt32} (hle : prezeroNum.toNat ≤ w)
    (hshift : w - prezeroNum.toNat < 31) :
    CreateMask w prezeroNum = .ok (BitVec.ofNat w (2 ^ (w - prezeroNum.toNat) - 1)) := by
  have hcount : (((w : Int) - prezeroNum.toNat) % 2 ^ 64).toNat = w - prezeroNum.toNat := by omega
  have hpos : 1 ≤ 2 ^ (w - prezeroNum.toNat) := Nat.one_le_two_pow
  have hcast : (2 : Int) ^ (w - prezeroNum.toNat) - 1 =
      ((2 ^ (w - prezeroNum.toNat) - 1 : Nat) : Int) := by
    rw [Nat.cast_sub hpos]
    norm_cast
  have hshifted : (if w - prezeroNum.toNat = 31 then (-2 ^ 31 : Int)
      else 2 ^ (w - prezeroNum.toNat)) = 2 ^ (w - prezeroNum.toNat) :=
    if_neg (by omega)
  unfold CreateMask
  simp only [hcount, hshifted, hcast]
  rw [if_neg (by omega), if_neg (by omega), BitVec.ofInt_natCast]

/-- The shift by 32, and behind the shift by 31 the subtraction from `INT_MIN`. -/
theorem createMask_error {prezeroNum : UInt32} (h : prezeroNum.toNat < 2) :
    ∃ fault, CreateMask 32 prezeroNum = .error fault := by
  obtain h0 | h1 : prezeroNum.toNat = 0 ∨ prezeroNum.toNat = 1 := by omega
  · exact ⟨.shiftWidth, by simp [CreateMask, h0]⟩
  · exact ⟨.overflow, by simp [CreateMask, h1]⟩

/-! ## IPv4 -/

namespace IPv4Address

/-- The 32 bits of `s_addr`, as they go over the wire. -/
def bits (a : IPv4Address) : Bits := bitsOf (bytes32 a.addr.sAddr)

def SubnetMaskOk (p : UInt32) : Prop :=
  ∀ stack, ∃ mask, SubnetMask stack p = .ok mask ∧
    mask.bits = List.replicate p.toNat true ++ List.replicate (32 - p.toNat) false

def NetworkAddressOk (a : IPv4Address) (p : UInt32) : Prop :=
  ∃ network, a.NetworkAddress p = .ok (some network) ∧
    network.bits = keepThen p.toNat false a.bits

def BroadcastAddressOk (a : IPv4Address) (p : UInt32) : Prop :=
  ∃ broadcast, a.BroadcastAddress p = .ok (some broadcast) ∧
    broadcast.bits = keepThen p.toNat true a.bits

/-- What CIDR asks of the three operations; the family is a part of every `IPv4Address`. -/
structure IsCidr (a : IPv4Address) (p : UInt32) : Prop where
  subnetMask : SubnetMaskOk p
  networkAddress : a.NetworkAddressOk p
  broadcastAddress : a.BroadcastAddressOk p

theorem bits_eq (a : IPv4Address) :
    a.bits = msbBits (byteswapOnLittleEndian a.addr.sAddr).toBitVec := by
  simp [bits, bitsOf, bytes32, msbBits, List.range_succ, byteswapOnLittleEndian, byteswap]

@[simp] theorem length_bits (a : IPv4Address) : a.bits.length = 32 := by
  rw [bits_eq, length_msbBits]

theorem byteswap_byteswap (x : UInt32) : byteswap (byteswap x) = x := by
  apply UInt32.toBitVec_inj.mp
  apply msbBits_inj.mp
  simp [msbBits, List.range_succ, byteswap]

theorem byteswap_or (x y : UInt32) : byteswap (x ||| y) = byteswap x ||| byteswap y := by
  apply UInt32.toBitVec_inj.mp
  apply msbBits_inj.mp
  simp [msbBits, List.range_succ, byteswap]

theorem byteswap_and (x y : UInt32) : byteswap (x &&& y) = byteswap x &&& byteswap y := by
  apply UInt32.toBitVec_inj.mp
  apply msbBits_inj.mp
  simp [msbBits, List.range_succ, byteswap]

theorem byteswap_not (x : UInt32) : byteswap (~~~x) = ~~~byteswap x := by
  apply UInt32.toBitVec_inj.mp
  apply msbBits_inj.mp
  simp [msbBits, List.range_succ, byteswap]

/-- The zeros that `CreateMask` puts in front, and the ones behind them. -/
def host (p : Nat) : Bits := List.replicate p false ++ List.replicate (32 - p) true

variable {a : IPv4Address} {p : UInt32}

theorem createMask_of_le (hp : p.toNat ≤ 32) (htwo : 2 ≤ p.toNat) :
    ∃ mask, CreateMask 32 p = .ok mask ∧ msbBits mask = host p.toNat :=
  ⟨_, createMask_eq hp (by omega), msbBits_ones hp⟩

theorem subnetMaskOk_iff (hp : p.toNat ≤ 32) : SubnetMaskOk p ↔ 2 ≤ p.toNat := by
  constructor
  · intro h
    by_contra hsmall
    obtain ⟨fault, hmask⟩ := createMask_error (by omega : p.toNat < 2)
    obtain ⟨mask, hok, -⟩ := h ⟨0, 0, 0, 0⟩
    rw [SubnetMask, hmask] at hok
    cases hok
  · intro htwo stack
    obtain ⟨mask, hmask, hbits⟩ := createMask_of_le hp htwo
    have hok : SubnetMask stack p = .ok ⟨{ stack with
        sinFamily := AF_INET
        sAddr := ~~~byteswapOnLittleEndian (UInt32.ofBitVec mask) }, rfl⟩ := by
      rw [SubnetMask, hmask]
      rfl
    refine ⟨_, hok, ?_⟩
    rw [bits_eq]
    simp only [byteswapOnLittleEndian, byteswap_not, byteswap_byteswap]
    rw [UInt32.toBitVec_not, msbBits_not, hbits, host, map_not_host]

theorem broadcastAddressOk_iff (hp : p.toNat ≤ 32) : a.BroadcastAddressOk p ↔ 2 ≤ p.toNat := by
  have hle : ¬ p > 32 := by
    rw [gt_iff_lt, UInt32.lt_iff_toNat_lt]
    exact Nat.not_lt.mpr hp
  constructor
  · rintro ⟨broadcast, hok, -⟩
    by_contra hsmall
    obtain ⟨fault, hmask⟩ := createMask_error (by omega : p.toNat < 2)
    rw [BroadcastAddress, if_neg hle, hmask] at hok
    cases hok
  · intro htwo
    obtain ⟨mask, hmask, hbits⟩ := createMask_of_le hp htwo
    have hok : a.BroadcastAddress p = .ok (some ⟨{ a.addr with
        sAddr := a.addr.sAddr ||| byteswapOnLittleEndian (UInt32.ofBitVec mask) },
        a.family⟩) := by
      rw [BroadcastAddress, if_neg hle, hmask]
      rfl
    refine ⟨_, hok, ?_⟩
    rw [bits_eq, ← zipWith_or_host p.toNat a.bits (by simpa using hp), length_bits, ← host, ← hbits,
      bits_eq a, ← msbBits_or]
    simp only [byteswapOnLittleEndian, byteswap_or, byteswap_byteswap]
    rfl

/-- The bits in front of the prefix length are cleared, and those behind it are kept. -/
theorem networkAddress_bits (hp : p.toNat ≤ 32) (htwo : 2 ≤ p.toNat) :
    ∃ network, a.NetworkAddress p = .ok (some network) ∧
      network.bits = List.replicate p.toNat false ++ a.bits.drop p.toNat := by
  have hle : ¬ p > 32 := by
    rw [gt_iff_lt, UInt32.lt_iff_toNat_lt]
    exact Nat.not_lt.mpr hp
  obtain ⟨mask, hmask, hbits⟩ := createMask_of_le hp htwo
  have hok : a.NetworkAddress p = .ok (some ⟨{ a.addr with
      sAddr := a.addr.sAddr &&& byteswapOnLittleEndian (UInt32.ofBitVec mask) }, a.family⟩) := by
    rw [NetworkAddress, if_neg hle, hmask]
    rfl
  refine ⟨_, hok, ?_⟩
  rw [bits_eq, ← zipWith_and_host p.toNat a.bits (by simpa using hp), length_bits, ← host, ← hbits,
    bits_eq a, ← msbBits_and]
  simp only [byteswapOnLittleEndian, byteswap_and, byteswap_byteswap]
  rfl

theorem bits_eq_zero_iff : a.bits = List.replicate 32 false ↔ a.addr.sAddr = 0 := by
  have hzero : List.replicate 32 false = msbBits (0 : UInt32).toBitVec := by decide
  rw [bits_eq, hzero, msbBits_inj, UInt32.toBitVec_inj]
  constructor
  · intro h
    rw [← byteswap_byteswap a.addr.sAddr]
    show byteswap (byteswapOnLittleEndian a.addr.sAddr) = 0
    rw [h]
    rfl
  · intro h
    rw [h]
    rfl

theorem networkAddressOk_iff (hp : p.toNat ≤ 32) :
    a.NetworkAddressOk p ↔ 2 ≤ p.toNat ∧ a.addr.sAddr = 0 := by
  have hlen : p.toNat ≤ a.bits.length := by simpa using hp
  constructor
  · rintro ⟨network, hok, hbits⟩
    have htwo : 2 ≤ p.toNat := by
      by_contra hsmall
      obtain ⟨fault, hmask⟩ := createMask_error (by omega : p.toNat < 2)
      rw [NetworkAddress, hmask] at hok
      split at hok
      · cases hok
      · cases hok
    obtain ⟨network', hok', hkept⟩ := networkAddress_bits (a := a) hp htwo
    obtain rfl : network = network' := Option.some.inj (Except.ok.inj (hok.symm.trans hok'))
    refine ⟨htwo, ?_⟩
    apply bits_eq_zero_iff.mp
    rw [(clearFront_eq_keepThen_iff p.toNat a.bits hlen).mp (hkept.symm.trans hbits)]
    simp
  · rintro ⟨htwo, hzero⟩
    obtain ⟨network, hok, hkept⟩ := networkAddress_bits (a := a) hp htwo
    refine ⟨network, hok, hkept.trans ?_⟩
    apply (clearFront_eq_keepThen_iff p.toNat a.bits hlen).mpr
    rw [length_bits]
    exact bits_eq_zero_iff.mpr hzero

/--
The three operations compute the subnet of an address if and only if `CreateMask` stays
within `int` and the address has no bit set that `NetworkAddress` could keep or lose.
-/
theorem ipv4_cidr_iff (a : IPv4Address) (p : UInt32) (hp : p.toNat ≤ 32) :
    a.IsCidr p ↔ 2 ≤ p.toNat ∧ a.addr.sAddr = 0 := by
  constructor
  · intro h
    exact (networkAddressOk_iff hp).mp h.networkAddress
  · rintro ⟨htwo, hzero⟩
    exact ⟨(subnetMaskOk_iff hp).mpr htwo, (networkAddressOk_iff hp).mpr ⟨htwo, hzero⟩,
      (broadcastAddressOk_iff hp).mpr htwo⟩

theorem ipv4_cidr_any : (new 0 80).IsCidr 8 :=
  (ipv4_cidr_iff (new 0 80) 8 (by decide)).mpr ⟨by decide, rfl⟩

/-- The network of `192.168.1.10/24` comes out as `0.0.0.10`. -/
theorem ipv4_network_lost :
    (∃ network, (new 0xc0a8010a 80).NetworkAddress 24 = .ok (some network) ∧
      network = new 0x0000000a 80) ∧ ¬ (new 0xc0a8010a 80).IsCidr 24 := by
  refine ⟨⟨_, rfl, by decide⟩, ?_⟩
  intro h
  have hzero := ((networkAddressOk_iff (by decide)).mp h.networkAddress).2
  revert hzero
  decide

end IPv4Address

/-! ## IPv6 -/

theorem store_eq (s6Addr : Vector UInt8 16) {i : Nat} (h : i < 16) (f : UInt8 → UInt8) :
    ∃ out, store s6Addr i f = .ok out ∧
      out.toList = s6Addr.toList.take i ++ f s6Addr[i] :: s6Addr.toList.drop (i + 1) := by
  refine ⟨_, dif_pos h, ?_⟩
  rw [Vector.toList_set, List.set_eq_take_append_cons_drop, if_pos (by simpa using h)]

theorem store_outside (s6Addr : Vector UInt8 16) {i : Nat} (h : 16 ≤ i) (f : UInt8 → UInt8) :
    store s6Addr i f = .error .outOfBounds :=
  dif_neg (Nat.not_lt.mpr h)

theorem take_succ_of_length {front back : List UInt8} {i : Nat} (h : front.length = i) (x : UInt8) :
    (front ++ x :: back).take (i + 1) = front ++ [x] := by
  subst h
  rw [List.take_length_add_append]
  rfl

theorem drop_succ_of_length {front back : List UInt8} {i : Nat} (h : front.length = i) (x : UInt8)
    (n : Nat) : (front ++ x :: back).drop (i + 1 + n) = back.drop n := by
  subst h
  rw [Nat.add_assoc, List.drop_length_add_append, Nat.add_comm 1 n, List.drop_succ_cons]

theorem fill_eq (s6Addr : Vector UInt8 16) (start n : Nat) (h : start + n ≤ 16) :
    ∃ out, fill s6Addr (List.range' start n) = .ok out ∧
      out.toList = s6Addr.toList.take start ++
        (List.replicate n 0xff ++ s6Addr.toList.drop (start + n)) := by
  induction n generalizing s6Addr start with
  | zero => exact ⟨s6Addr, rfl, by simp⟩
  | succ n ih =>
      obtain ⟨mid, hstore, hmid⟩ := store_eq s6Addr (by omega : start < 16) fun _ => 0xff
      obtain ⟨out, hfill, hout⟩ := ih mid (start + 1) (by omega)
      have hlen : (s6Addr.toList.take start).length = start := by
        rw [List.length_take, Vector.length_toList]
        omega
      refine ⟨out, ?_, ?_⟩
      · rw [fill, List.range'_succ, List.foldlM_cons, hstore]
        exact hfill
      · rw [hout, hmid, take_succ_of_length hlen, drop_succ_of_length hlen, List.drop_drop,
          List.append_assoc, Nat.add_assoc, Nat.add_comm 1 n]
        rfl

namespace IPv6Address

/-- The 128 bits of `s6_addr`. -/
def bits (a : IPv6Address) : Bits := bitsOf a.addr.s6Addr.toList

def SubnetMaskOk (p : UInt32) : Prop :=
  ∃ mask, SubnetMask p = .ok mask ∧
    mask.bits = List.replicate p.toNat true ++ List.replicate (128 - p.toNat) false

def NetworkAddressOk (a : IPv6Address) (p : UInt32) : Prop :=
  ∃ network, a.NetworkAddress p = .ok network ∧ network.bits = keepThen p.toNat false a.bits

def BroadcastAddressOk (a : IPv6Address) (p : UInt32) : Prop :=
  ∃ broadcast, a.BroadcastAddress p = .ok broadcast ∧
    broadcast.bits = keepThen p.toNat true a.bits

/-- What CIDR asks of the three operations, none of which leaves `s6_addr`. -/
structure IsCidr (a : IPv6Address) (p : UInt32) : Prop where
  subnetMask : SubnetMaskOk p
  networkAddress : a.NetworkAddressOk p
  broadcastAddress : a.BroadcastAddressOk p

/-- The zeros that `CreateMask` puts in front, and the ones behind them. -/
def host (k : Nat) : Bits := List.replicate k false ++ List.replicate (8 - k) true

variable {a : IPv6Address} {p : UInt32}

@[simp] theorem length_bits (a : IPv6Address) : a.bits.length = 128 := by
  simp [bits]

theorem toNat_div_eight (p : UInt32) : (p / 8).toNat = p.toNat / 8 := UInt32.toNat_div _ _

theorem createMask_mod (p : UInt32) :
    ∃ mask, CreateMask 8 (p % 8) = .ok mask ∧ msbBits mask = host (p.toNat % 8) := by
  have hmod : (p % 8).toNat = p.toNat % 8 := UInt32.toNat_mod _ _
  refine ⟨_, createMask_eq (by omega) (by omega), ?_⟩
  rw [msbBits_ones (by omega), hmod, host]

/-- The byte in which the prefix ends. -/
theorem keepThen_bits (hq : p.toNat / 8 < 16) (fill : Bool) :
    keepThen p.toNat fill a.bits =
      bitsOf (a.addr.s6Addr.toList.take (p.toNat / 8)) ++
        (keepThen (p.toNat % 8) fill
            (msbBits a.addr.s6Addr[p.toNat / 8].toBitVec) ++
          List.replicate (8 * (16 - (p.toNat / 8 + 1))) fill) := by
  have h := keepThen_bitsOf a.addr.s6Addr.toList (q := p.toNat / 8) (k := p.toNat % 8)
    (by rw [Vector.length_toList]; exact hq) (by omega) fill
  rw [Nat.div_add_mod] at h
  simpa [bits] using h

theorem subnetMask_bits (hp : p.toNat < 128) : SubnetMaskOk p := by
  obtain ⟨mask, hmask, hbits⟩ := createMask_mod p
  have hq : p.toNat / 8 < 16 := by omega
  obtain ⟨mid, hstore, hmid⟩ := store_eq (Vector.replicate 16 0) hq fun _ => ~~~UInt8.ofBitVec mask
  obtain ⟨out, hfill, hout⟩ := fill_eq mid 0 (p.toNat / 8) (by omega)
  refine ⟨⟨⟨AF_INET6, 0, 0, out, 0⟩, rfl⟩, ?_, ?_⟩
  · rw [SubnetMask, hmask]
    simp only [toNat_div_eight, bind, Except.bind, hstore]
    rw [List.range_eq_range', hfill]
  · have hzero : msbBits (0 : UInt8).toBitVec = List.replicate 8 false := by decide
    have hones : msbBits (0xff : UInt8).toBitVec = List.replicate 8 true := by decide
    have hfirst : msbBits (~~~UInt8.ofBitVec mask).toBitVec =
        List.replicate (p.toNat % 8) true ++ List.replicate (8 - p.toNat % 8) false := by
      rw [UInt8.toBitVec_not, msbBits_not, hbits, host, map_not_host]
    have hlen : ((Vector.replicate 16 (0 : UInt8)).toList.take (p.toNat / 8)).length =
        p.toNat / 8 := by
      rw [List.length_take, Vector.length_toList]
      omega
    have hdrop : mid.toList.drop (0 + p.toNat / 8) =
        ~~~UInt8.ofBitVec mask :: List.replicate (16 - (p.toNat / 8 + 1)) 0 := by
      rw [hmid, Nat.zero_add, List.drop_left' hlen, Vector.toList_replicate, List.drop_replicate]
    show bitsOf out.toList = _
    rw [hout, hdrop, List.take_zero, List.nil_append, bitsOf_append, bitsOf_cons,
      bitsOf_replicate _ hones, bitsOf_replicate _ hzero, hfirst, List.append_assoc,
      List.replicate_append_replicate, ← List.append_assoc, List.replicate_append_replicate]
    congr 2 <;> omega

theorem broadcastAddress_bits (hp : p.toNat < 128) : a.BroadcastAddressOk p := by
  obtain ⟨mask, hmask, hbits⟩ := createMask_mod p
  have hq : p.toNat / 8 < 16 := by omega
  obtain ⟨mid, hstore, hmid⟩ := store_eq a.addr.s6Addr hq (· ||| UInt8.ofBitVec mask)
  obtain ⟨out, hfill, hout⟩ := fill_eq mid (p.toNat / 8 + 1)
    (16 - (p.toNat / 8 + 1)) (by omega)
  refine ⟨⟨{ a.addr with s6Addr := out }, a.family⟩, ?_, ?_⟩
  · rw [BroadcastAddress, hmask]
    simp only [toNat_div_eight, bind, Except.bind, hstore, hfill]
  · have hones : msbBits (0xff : UInt8).toBitVec = List.replicate 8 true := by decide
    have hfirst : msbBits (a.addr.s6Addr[p.toNat / 8] ||| UInt8.ofBitVec mask).toBitVec =
        keepThen (p.toNat % 8) true (msbBits a.addr.s6Addr[p.toNat / 8].toBitVec) := by
      rw [UInt8.toBitVec_or, msbBits_or, hbits, host,
        ← zipWith_or_host _ _ (by rw [length_msbBits]; omega), length_msbBits]
    have hlen : (a.addr.s6Addr.toList.take (p.toNat / 8)).length = p.toNat / 8 := by
      rw [List.length_take, Vector.length_toList]
      omega
    have hdrop : mid.toList.drop (p.toNat / 8 + 1 + (16 - (p.toNat / 8 + 1))) = [] := by
      apply List.drop_of_length_le
      rw [Vector.length_toList]
      omega
    show bitsOf out.toList = _
    rw [hout, hdrop, hmid, take_succ_of_length hlen, List.append_nil, bitsOf_append, bitsOf_append,
      bitsOf_cons, bitsOf_nil, List.append_nil, hfirst, bitsOf_replicate _ hones,
      keepThen_bits hq, List.append_assoc]

/-- The bits in front of the prefix length are cleared, but only in the byte it ends in. -/
theorem networkAddress_bits (hq : p.toNat / 8 < 16) :
    ∃ network, a.NetworkAddress p = .ok network ∧
      network.bits = bitsOf (a.addr.s6Addr.toList.take (p.toNat / 8)) ++
        ((List.replicate (p.toNat % 8) false ++
            (msbBits a.addr.s6Addr[p.toNat / 8].toBitVec).drop (p.toNat % 8)) ++
          bitsOf (a.addr.s6Addr.toList.drop (p.toNat / 8 + 1))) := by
  obtain ⟨mask, hmask, hbits⟩ := createMask_mod p
  obtain ⟨out, hstore, hout⟩ := store_eq a.addr.s6Addr hq (· &&& UInt8.ofBitVec mask)
  refine ⟨⟨{ a.addr with s6Addr := out }, a.family⟩, ?_, ?_⟩
  · rw [NetworkAddress, hmask]
    simp only [toNat_div_eight, bind, Except.bind, hstore]
  · have hfirst : msbBits (a.addr.s6Addr[p.toNat / 8] &&& UInt8.ofBitVec mask).toBitVec =
        List.replicate (p.toNat % 8) false ++
          (msbBits a.addr.s6Addr[p.toNat / 8].toBitVec).drop (p.toNat % 8) := by
      rw [UInt8.toBitVec_and, msbBits_and, hbits, host,
        ← zipWith_and_host _ _ (by rw [length_msbBits]; omega), length_msbBits]
    show bitsOf out.toList = _
    rw [hout, bitsOf_append, bitsOf_cons, hfirst]

theorem networkAddressOk_iff (hp : p.toNat < 128) :
    a.NetworkAddressOk p ↔ ∀ byte ∈ a.addr.s6Addr.toList.drop (p.toNat / 8), byte = 0 := by
  have hq : p.toNat / 8 < 16 := by omega
  obtain ⟨network, hok, hkept⟩ := networkAddress_bits (a := a) hq
  have hzeros : (∀ byte ∈ a.addr.s6Addr.toList.drop (p.toNat / 8), byte = 0) ↔
      a.addr.s6Addr[p.toNat / 8] = 0 ∧
        ∀ byte ∈ a.addr.s6Addr.toList.drop (p.toNat / 8 + 1), byte = 0 := by
    rw [List.drop_eq_getElem_cons (by rw [Vector.length_toList]; exact hq), List.forall_mem_cons]
    rfl
  have hfirst : a.addr.s6Addr[p.toNat / 8] = 0 ↔
      msbBits a.addr.s6Addr[p.toNat / 8].toBitVec = List.replicate 8 false := by
    have hzero : List.replicate 8 false = msbBits (0 : UInt8).toBitVec := by decide
    rw [hzero, msbBits_inj, UInt8.toBitVec_inj]
  have hclear := clearFront_eq_keepThen_iff (p.toNat % 8)
    (msbBits a.addr.s6Addr[p.toNat / 8].toBitVec) (by rw [length_msbBits]; omega)
  rw [length_msbBits] at hclear
  have hrest := bitsOf_eq_zeros_iff (a.addr.s6Addr.toList.drop (p.toNat / 8 + 1))
  rw [List.length_drop, Vector.length_toList] at hrest
  rw [hzeros, hfirst, ← hclear, ← hrest]
  constructor
  · rintro ⟨network', hok', hbits⟩
    obtain rfl : network = network' := Except.ok.inj (hok.symm.trans hok')
    rw [hkept, keepThen_bits hq] at hbits
    have hback := List.append_cancel_left hbits
    have hlen : (List.replicate (p.toNat % 8) false ++
        (msbBits a.addr.s6Addr[p.toNat / 8].toBitVec).drop (p.toNat % 8)).length =
        (keepThen (p.toNat % 8) false (msbBits a.addr.s6Addr[p.toNat / 8].toBitVec)).length := by
      simp only [keepThen, List.length_append, List.length_replicate, List.length_drop,
        List.length_take, length_msbBits]
      omega
    exact List.append_inj hback hlen
  · rintro ⟨hbyte, htail⟩
    refine ⟨network, hok, ?_⟩
    rw [hkept, keepThen_bits hq, hbyte, htail]

/-- With no bit behind the prefix, the byte behind `s6_addr` is what all three start with. -/
theorem outside (hp : 128 ≤ p.toNat) : ¬ SubnetMaskOk p := by
  rintro ⟨mask, hok, -⟩
  obtain ⟨bits, hmask, -⟩ := createMask_mod p
  rw [SubnetMask, hmask] at hok
  simp only [toNat_div_eight, bind, Except.bind] at hok
  rw [store_outside _ (by omega)] at hok
  cases hok

/--
The three operations compute the subnet of an address if and only if the prefix is
shorter than the address and the address is zero from the byte on in which it ends.
-/
theorem ipv6_cidr_iff (a : IPv6Address) (p : UInt32) :
    a.IsCidr p ↔
      p.toNat < 128 ∧ ∀ byte ∈ a.addr.s6Addr.toList.drop (p.toNat / 8), byte = 0 := by
  constructor
  · intro h
    have hp : p.toNat < 128 := by
      by_contra hlong
      exact outside (Nat.not_lt.mp hlong) h.subnetMask
    exact ⟨hp, (networkAddressOk_iff hp).mp h.networkAddress⟩
  · rintro ⟨hp, hzeros⟩
    exact ⟨subnetMask_bits hp, (networkAddressOk_iff hp).mpr hzeros, broadcastAddress_bits hp⟩

/-- `2001:db8::1` -/
def documentation : IPv6Address :=
  new #v[0x20, 0x01, 0x0d, 0xb8, 0, 0, 0, 0, 0, 0, 0, 0, 0, 0, 0, 1] 80

/-- Its network of 32 bits keeps the last byte, and a prefix of 128 leaves the array. -/
theorem ipv6_network_kept :
    documentation.NetworkAddress 32 = .ok documentation ∧
      SubnetMask 128 = .error .outOfBounds ∧ ¬ documentation.IsCidr 32 := by
  refine ⟨by decide, by decide, ?_⟩
  intro h
  have hzeros := (networkAddressOk_iff (by decide)).mp h.networkAddress 1 (by decide)
  revert hzeros
  decide

end IPv6Address

end Qslary.Addresses

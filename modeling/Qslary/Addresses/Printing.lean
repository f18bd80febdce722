import Qslary.Addresses.Subnets

/-!
# Printed addresses

The dotted text of an IPv4 address can be read back.  The loop that prints an IPv6
address puts a colon where a run of zeros ends and nowhere else, so that the groups
before and behind the run flow together, and prints the port to the base of the groups.
-/

namespace Qslary.Addresses

open Qslary.Foundation

/-! ## IPv4 -/

theorem not_mem_decimal_of_not_digit {n : Nat} {byte : UInt8} (h : isDigit byte = false) :
    byte ∉ decimal n := by
  intro hmem
  rw [isDigit_of_mem_decimal hmem] at h
  cases h

theorem decimal_cons_inj {m n : Nat} {r r' : Bytes} {byte : UInt8} (h : isDigit byte = false) :
    decimal m ++ byte :: r = decimal n ++ byte :: r' ↔ m = n ∧ r = r' := by
  rw [append_cons_inj (not_mem_decimal_of_not_digit h) (not_mem_decimal_of_not_digit h),
    decimal_inj]

namespace IPv4Address

/-- The four numbers and the port of the text. -/
def dotted (a b c d port : Nat) : Bytes :=
  decimal a ++ 46 :: (decimal b ++ 46 :: (decimal c ++ 46 :: (decimal d ++ 58 :: decimal port)))

theorem dotted_inj {a b c d port a' b' c' d' port' : Nat} :
    dotted a b c d port = dotted a' b' c' d' port' ↔
      a = a' ∧ b = b' ∧ c = c' ∧ d = d' ∧ port = port' := by
  have hdot : isDigit 46 = false := by decide
  have hcolon : isDigit 58 = false := by decide
  simp only [dotted, decimal_cons_inj hdot, decimal_cons_inj hcolon, decimal_inj]

theorem toString_eq (a : IPv4Address) :
    a.ToString =
      dotted ((byteswap a.addr.sAddr >>> 24) &&& 0xff).toNat
        ((byteswap a.addr.sAddr >>> 16) &&& 0xff).toNat
        ((byteswap a.addr.sAddr >>> 8) &&& 0xff).toNat (byteswap a.addr.sAddr &&& 0xff).toNat
        a.GetPort.toNat := by
  have hdot : ascii "." = [46] := by decide
  have hcolon : ascii ":" = [58] := by decide
  simp [ToString, Insert, Ostream.putNumber, Ostream.put, dotted, hdot, hcolon, GetPort,
    byteswapOnLittleEndian]

theorem toNat_and_byte (x : UInt32) : (x &&& 0xff).toNat = x.toNat % 256 := by
  rw [UInt32.toNat_and]
  exact Nat.and_two_pow_sub_one_eq_mod x.toNat 8

/-- The four numbers are the bytes of the word. -/
theorem quarters_inj {x y : UInt32} :
    ((x >>> 24) &&& 0xff).toNat = ((y >>> 24) &&& 0xff).toNat ∧
      ((x >>> 16) &&& 0xff).toNat = ((y >>> 16) &&& 0xff).toNat ∧
      ((x >>> 8) &&& 0xff).toNat = ((y >>> 8) &&& 0xff).toNat ∧
      (x &&& 0xff).toNat = (y &&& 0xff).toNat ↔ x = y := by
  constructor
  · rintro ⟨h24, h16, h8, h0⟩
    simp only [toNat_and_byte, UInt32.toNat_shiftRight, UInt32.toNat_ofNat, Nat.reduceMod,
      Nat.reducePow, Nat.shiftRight_eq_div_pow] at h24 h16 h8 h0
    apply UInt32.toNat_inj.mp
    have hx := x.toNat_lt
    have hy := y.toNat_lt
    omega
  · rintro rfl
    exact ⟨rfl, rfl, rfl, rfl⟩

theorem ipv4_toString_inj (a b : IPv4Address) :
    a.ToString = b.ToString ↔ a.addr.sAddr = b.addr.sAddr ∧ a.GetPort = b.GetPort := by
  have hswap : byteswap a.addr.sAddr = byteswap b.addr.sAddr ↔ a.addr.sAddr = b.addr.sAddr := by
    constructor
    · intro h
      rw [← byteswap_byteswap a.addr.sAddr, h, byteswap_byteswap]
    · intro h
      rw [h]
  rw [toString_eq, toString_eq, dotted_inj, ← hswap, ← quarters_inj, UInt16.toNat_inj]
  simp only [and_assoc]

end IPv4Address

/-! ## Textual forms of IPv6 addresses -/

/-- The groups of an address as numbers, from its bytes. -/
def networkGroups : Bytes → List Nat
  | x :: y :: rest => (256 * x.toNat + y.toNat) :: networkGroups rest
  | _ => []

/-- Up to four hexadecimal digits. -/
structure IsPiece (text : Bytes) (n : Nat) : Prop where
  ne_nil : text ≠ []
  short : text.length ≤ 4
  digits : text.all (isDigitOf 16) = true
  value : valueOf 16 text = n

/-- Pieces with colons between them; with `quad` the last two may be written with dots. -/
inductive Sequence (quad : Bool) : Bytes → List Nat → Prop
  | piece {text n} : IsPiece text n → Sequence quad text [n]
  | dots {a b c d} : quad = true → a < 256 → b < 256 → c < 256 → d < 256 →
      Sequence quad (decimal a ++ ascii "." ++ decimal b ++ ascii "." ++ decimal c ++ ascii "." ++
        decimal d) [256 * a + b, 256 * c + d]
  | cons {text n rest groups} : IsPiece text n → Sequence quad rest groups →
      Sequence quad (text ++ 58 :: rest) (n :: groups)

/-- Nothing may stand on a side of a double colon. -/
def Side (quad : Bool) (text : Bytes) (groups : List Nat) : Prop :=
  (text = [] ∧ groups = []) ∨ Sequence quad text groups

/-- The forms of RFC 4291: all groups, or a double colon in the place of a run of zeros. -/
def Denotes (text : Bytes) (groups : List Nat) : Prop :=
  Sequence true text groups ∨
    ∃ before behind front back n, 0 < n ∧ groups = front ++ List.replicate n 0 ++ back ∧
      text = before ++ 58 :: 58 :: behind ∧ Side false before front ∧ Side true behind back

/-- The text of an address with its port. -/
def Standard (text : Bytes) (a : IPv6Address) : Prop :=
  ∃ group, text = ascii "[" ++ group ++ ascii "]:" ++ decimal a.GetPort.toNat ∧
    Denotes group (networkGroups a.addr.s6Addr.toList)

theorem isDigitOf_colon : isDigitOf 16 58 = false := by decide

theorem count_colon_of_digits {text : Bytes} (h : text.all (isDigitOf 16) = true) :
    text.count 58 = 0 := by
  apply List.count_eq_zero_of_not_mem
  intro hmem
  have hdigit := List.all_eq_true.mp h 58 hmem
  rw [isDigitOf_colon] at hdigit
  cases hdigit

/-- A colon less than groups, or two less where the last two are written with dots. -/
theorem Sequence.length_le {quad : Bool} {text : Bytes} {groups : List Nat}
    (h : Sequence quad text groups) :
    0 < groups.length ∧ groups.length ≤ text.count 58 + (if quad then 2 else 1) := by
  induction h with
  | piece hpiece =>
      rw [List.length_singleton]
      split <;> omega
  | dots hquad _ _ _ _ =>
      rw [if_pos hquad]
      simp
  | cons hpiece _ ih =>
      rw [List.length_cons, List.count_append, count_colon_of_digits hpiece.digits,
        List.count_cons_self]
      omega

theorem Side.length_le {quad : Bool} {text : Bytes} {groups : List Nat}
    (h : Side quad text groups) : groups.length ≤ text.count 58 + (if quad then 2 else 1) := by
  rcases h with ⟨-, rfl⟩ | hseq
  · exact Nat.zero_le _
  · exact hseq.length_le.2

theorem Sequence.ne_nil {quad : Bool} {text : Bytes} {groups : List Nat}
    (h : Sequence quad text groups) : text ≠ [] := by
  cases h with
  | piece hpiece => exact hpiece.ne_nil
  | dots _ _ _ _ _ =>
      have hdot : ascii "." = [46] := by decide
      simp [hdot]
  | cons _ _ => simp

/-! ## What the loop prints -/

namespace IPv6Address

def hexes (groups : List UInt16) : Bytes :=
  groups.flatMap fun group => hexadecimal (byteswapOnLittleEndian group).toNat

/-- The groups before the first zero. -/
def front (groups : List UInt16) : List UInt16 := groups.takeWhile (· ≠ 0)

/-- The groups from the first zero on. -/
def zeros (groups : List UInt16) : List UInt16 := groups.dropWhile (· ≠ 0)

/-- The groups behind the first run of zeros. -/
def back (groups : List UInt16) : List UInt16 := (zeros groups).dropWhile (· = 0)

/-- What is printed behind the groups before the first zero. -/
def tailText (groups : List UInt16) : Bytes :=
  if zeros groups = [] then []
  else if back groups = [] then [58, 58]
  else 58 :: hexes (back groups)

def groupText (groups : List UInt16) : Bytes := hexes (front groups) ++ tailText groups

theorem insertGroups_used (os : Ostream) (before : Option UInt16) (groups : List UInt16) :
    insertGroups os true before groups =
      (⟨os.text ++ hexes groups, os.hex || !groups.isEmpty⟩, true) := by
  induction groups generalizing os before with
  | nil => simp [insertGroups, hexes]
  | cons group groups ih =>
      simp only [insertGroups, Bool.not_true, Bool.and_false, Bool.false_eq_true, if_false, ih]
      simp [Ostream.putNumber, Ostream.put, hexes]

/-- Behind a zero nothing is printed until a group is not zero. -/
theorem insertGroups_zeros (os : Ostream) (groups : List UInt16) :
    insertGroups os false (some 0) groups =
      if groups.dropWhile (· = 0) = [] then (os, false)
      else (⟨os.text ++ 58 :: hexes (groups.dropWhile (· = 0)), true⟩, true) := by
  have hcolon : ascii ":" = [58] := by decide
  induction groups with
  | nil => rfl
  | cons group groups ih =>
      by_cases hgroup : group = 0
      · subst hgroup
        simpa [insertGroups] using ih
      · simp [insertGroups, hgroup, insertGroups_used, Ostream.putNumber, Ostream.put, hexes,
          hcolon]

theorem insertGroups_front (os : Ostream) {before : Option UInt16} (hbefore : before ≠ some 0)
    (groups : List UInt16) :
    insertGroups os false before groups =
      if back groups = [] then
        (⟨os.text ++ hexes (front groups), os.hex || !(front groups).isEmpty⟩, false)
      else (⟨os.text ++ hexes (front groups) ++ 58 :: hexes (back groups), true⟩, true) := by
  induction groups generalizing os before with
  | nil => simp [insertGroups, back, front, zeros, hexes]
  | cons group groups ih =>
      by_cases hgroup : group = 0
      · subst hgroup
        have hback : back (0 :: groups) = groups.dropWhile (· = 0) := by simp [back, zeros]
        have hfront : front (0 :: groups) = [] := by simp [front]
        rw [hback, hfront]
        simp [insertGroups, insertGroups_zeros, hexes]
      · have hback : back (group :: groups) = back groups := by simp [back, zeros, hgroup]
        have hfront : front (group :: groups) = group :: front groups := by simp [front, hgroup]
        have hstep : insertGroups os false before (group :: groups) =
            insertGroups ⟨os.text ++ hexadecimal (byteswapOnLittleEndian group).toNat, true⟩ false
              (some group) groups := by
          simp [insertGroups, hgroup, hbefore, Ostream.putNumber, Ostream.put]
        have hnext : some group ≠ some 0 := by simpa using hgroup
        rw [hstep, ih _ hnext, hback, hfront]
        simp [hexes]

/-! ## The whole text -/

/-- The last group is a zero that no later group has followed. -/
theorem last_eq_zero_iff {groups : List UInt16} (h : groups.length = 8)
    (hback : back groups = []) : groups[7]? = some 0 ↔ zeros groups ≠ [] := by
  have hlast : groups[7]? = groups.getLast? := by rw [List.getLast?_eq_getElem?, h]
  have hsplit : groups = front groups ++ zeros groups := (List.takeWhile_append_dropWhile).symm
  rw [hlast]
  constructor
  · intro hzero hnil
    have hmem : (0 : UInt16) ∈ front groups := by
      rw [hsplit, hnil, List.append_nil] at hzero
      exact List.mem_of_getLast? hzero
    have hne := List.mem_takeWhile_imp hmem
    simp at hne
  · intro hne
    have hsome := List.getLast?_eq_some_getLast hne
    have hall : ∀ group ∈ zeros groups, group = 0 := by
      simpa [back, List.dropWhile_eq_nil_iff] using hback
    rw [hsplit, List.getLast?_append, hsome, hall _ (List.getLast_mem hne)]
    rfl

def portText (groups : List UInt16) (port : Nat) : Bytes :=
  if front groups = [] ∧ back groups = [] then decimal port else hexadecimal port

theorem toString_eq {a : IPv6Address} (h : a.groups.length = 8) :
    a.ToString =
      123 :: groupText a.groups ++ 93 :: 58 :: portText a.groups a.GetPort.toNat := by
  have hbrace : ascii "\x7b" = [123] := by decide
  have hcolons : ascii "::" = [58, 58] := by decide
  have hbracket : ascii "]:" = [93, 58] := by decide
  have hloop := insertGroups_front ⟨[123], false⟩ (by simp : none ≠ some (0 : UInt16)) a.groups
  unfold ToString Insert
  simp only [Ostream.put, hbrace, hcolons, hbracket, List.nil_append, hloop]
  by_cases hback : back a.groups = []
  · have hlast := last_eq_zero_iff h hback
    by_cases hzeros : zeros a.groups = []
    · have hnot : ¬ a.groups[7]? = some 0 := fun hzero => hlast.mp hzero hzeros
      by_cases hfront : front a.groups = [] <;>
        simp [hback, hzeros, hnot, hfront, groupText, tailText, portText, Ostream.putNumber,
          Ostream.put, GetPort]
    · have hzero : a.groups[7]? = some 0 := hlast.mpr hzeros
      by_cases hfront : front a.groups = [] <;>
        simp [hback, hzeros, hzero, hfront, groupText, tailText, portText, Ostream.putNumber,
          Ostream.put, GetPort]
  · have hzeros : zeros a.groups ≠ [] := by
      intro hnil
      rw [back, hnil] at hback
      exact hback rfl
    simp [hback, hzeros, groupText, tailText, portText, Ostream.putNumber, Ostream.put, GetPort]

/-! ## Groups -/

theorem length_words (bytes : Bytes) : (words bytes).length = bytes.length / 2 := by
  induction bytes using words.induct with
  | case1 x y rest ih =>
      rw [words, List.length_cons, ih, List.length_cons, List.length_cons]
      omega
  | case2 bytes hshort =>
      rw [words]
      · cases bytes with
        | nil => rfl
        | cons x rest =>
            cases rest with
            | nil => simp
            | cons y rest => exact absurd rfl (hshort x y rest)
      · exact hshort

@[simp] theorem length_groups (a : IPv6Address) : a.groups.length = 8 := by
  rw [groups, length_words, Vector.length_toList]

/-- The number that a group stands for. -/
def hostOf (group : UInt16) : Nat := (byteswapOnLittleEndian group).toNat

theorem hostOf_word (x y : UInt8) :
    hostOf (x.toUInt16 ||| (y.toUInt16 <<< 8)) = 256 * x.toNat + y.toNat := by
  have hword : byteswap (x.toUInt16 ||| (y.toUInt16 <<< 8)) = (x.toUInt16 <<< 8) ||| y.toUInt16 := by
    apply UInt16.toBitVec_inj.mp
    apply msbBits_inj.mp
    simp [msbBits, List.range_succ, byteswap]
  have hy := y.toNat_lt
  have hshift : x.toNat <<< 8 % 2 ^ 16 = x.toNat <<< 8 := by
    apply Nat.mod_eq_of_lt
    have hx := x.toNat_lt
    rw [Nat.shiftLeft_eq]
    omega
  calc hostOf (x.toUInt16 ||| (y.toUInt16 <<< 8))
      = x.toNat <<< 8 ||| y.toNat := by
        rw [hostOf, byteswapOnLittleEndian, hword, UInt16.toNat_or, UInt16.toNat_shiftLeft]
        show x.toNat <<< 8 % 2 ^ 16 ||| y.toNat = x.toNat <<< 8 ||| y.toNat
        rw [hshift]
    _ = x.toNat <<< 8 + y.toNat := (Nat.shiftLeft_add_eq_or_of_lt hy _).symm
    _ = 256 * x.toNat + y.toNat := by rw [Nat.shiftLeft_eq]; omega

theorem networkGroups_eq (bytes : Bytes) : networkGroups bytes = (words bytes).map hostOf := by
  induction bytes using words.induct with
  | case1 x y rest ih => rw [networkGroups, words, List.map_cons, hostOf_word, ih]
  | case2 bytes hshort =>
      rw [networkGroups, words, List.map_nil]
      · exact hshort
      · exact hshort

theorem hostOf_eq_zero_iff {group : UInt16} : hostOf group = 0 ↔ group = 0 := by
  have hswap : byteswap (byteswap group) = group := by
    apply UInt16.toBitVec_inj.mp
    apply msbBits_inj.mp
    simp [msbBits, List.range_succ, byteswap]
  constructor
  · intro h
    have hzero : byteswap group = 0 := UInt16.toNat_inj.mp h
    rw [← hswap, hzero]
    rfl
  · rintro rfl
    rfl

theorem isPiece_hexadecimal (group : UInt16) :
    IsPiece (hexadecimal (hostOf group)) (hostOf group) where
  ne_nil := hexadecimal_ne_nil _
  short := length_hexadecimal_le (by decide) (UInt16.toNat_lt _)
  digits := List.all_eq_true.mpr fun _ h => isDigitOf_of_mem_hexadecimal h
  value := valueOf_hexadecimal _

theorem digits_hexes (groups : List UInt16) : (hexes groups).all (isDigitOf 16) = true := by
  rw [List.all_eq_true]
  intro byte hmem
  obtain ⟨group, -, hbyte⟩ := List.mem_flatMap.mp hmem
  exact isDigitOf_of_mem_hexadecimal hbyte

theorem hexes_eq_nil_iff {groups : List UInt16} : hexes groups = [] ↔ groups = [] := by
  cases groups with
  | nil => simp [hexes]
  | cons group groups => simp [hexes, hexadecimal_ne_nil]

theorem not_mem_hexes {groups : List UInt16} {byte : UInt8} (h : isDigitOf 16 byte = false) :
    byte ∉ hexes groups := by
  intro hmem
  rw [List.all_eq_true.mp (digits_hexes groups) byte hmem] at h
  cases h

/-! ## When the groups are printed in a standard form -/

theorem count_tailText (groups : List UInt16) :
    (tailText groups).count 58 =
      if zeros groups = [] then 0 else if back groups = [] then 2 else 1 := by
  unfold tailText
  split
  · rfl
  · split
    · rfl
    · rw [List.count_cons_self, count_colon_of_digits (digits_hexes _)]

theorem count_groupText (groups : List UInt16) :
    (groupText groups).count 58 = (tailText groups).count 58 := by
  rw [groupText, List.count_append, count_colon_of_digits (digits_hexes _), Nat.zero_add]

/-- A second group, or a group behind the zeros, has no colon of its own. -/
theorem zeros_of_denotes {groups : List UInt16} (hlen : groups.length = 8)
    (h : Denotes (groupText groups) (groups.map hostOf)) : ∀ group ∈ groups.drop 1, group = 0 := by
  have hcount : (groupText groups).count 58 ≤ 2 := by
    rw [count_groupText, count_tailText]
    split <;> [skip; split] <;> omega
  rcases h with hseq | ⟨before, behind, fronts, backs, n, -, hgroups, htext, hbefore, hbehind⟩
  · have hle := hseq.length_le.2
    rw [List.length_map, hlen, if_pos rfl] at hle
    omega
  · have hcolons := congrArg (List.count 58) htext
    rw [List.count_append, List.count_cons_self, List.count_cons_self] at hcolons
    have htwo : (tailText groups).count 58 = 2 := by
      rw [← count_groupText]
      omega
    have htail : tailText groups = [58, 58] := by
      rw [count_tailText] at htwo
      unfold tailText
      split at htwo
      · omega
      · split at htwo
        · rename_i hzeros hback
          rw [if_neg hzeros, if_pos hback]
        · omega
    have hbeforeMem : (58 : UInt8) ∉ before := by
      apply List.count_eq_zero.mp
      omega
    rw [groupText, htail,
      append_cons_inj (not_mem_hexes isDigitOf_colon) hbeforeMem] at htext
    obtain ⟨-, hnil⟩ := htext
    cases hnil
    have hbacks : backs = [] := by
      rcases hbehind with ⟨-, hnone⟩ | hseq
      · exact hnone
      · exact absurd rfl hseq.ne_nil
    have hfronts : fronts.length ≤ 1 := by
      have hle := hbefore.length_le
      rw [List.count_eq_zero_of_not_mem hbeforeMem] at hle
      exact hle
    intro group hmem
    have hhost : hostOf group ∈ (groups.map hostOf).drop 1 := by
      rw [← List.map_drop]
      exact List.mem_map_of_mem hmem
    rw [hgroups, hbacks, List.append_nil, List.drop_append, List.drop_of_length_le hfronts,
      List.nil_append, List.drop_replicate] at hhost
    exact hostOf_eq_zero_iff.mp (List.eq_of_mem_replicate hhost)

theorem denotes_of_zeros {groups : List UInt16} (hlen : groups.length = 8)
    (h : ∀ group ∈ groups.drop 1, group = 0) : Denotes (groupText groups) (groups.map hostOf) := by
  cases groups with
  | nil => cases hlen
  | cons group rest =>
      have hrest : rest = List.replicate 7 0 := by
        rw [List.length_cons] at hlen
        exact List.eq_replicate_iff.mpr ⟨by omega, h⟩
      have hhost : (List.replicate 7 (0 : UInt16)).map hostOf = List.replicate 7 0 := by decide
      by_cases hgroup : group = 0
      · subst hgroup
        have htext : groupText (0 :: rest) = [58, 58] := by
          rw [hrest]
          decide
        rw [htext, List.map_cons, hrest, hhost]
        exact Or.inr ⟨[], [], [], [], 8, by decide, rfl, rfl, Or.inl ⟨rfl, rfl⟩, Or.inl ⟨rfl, rfl⟩⟩
      · have htext : groupText (group :: rest) = hexadecimal (hostOf group) ++ [58, 58] := by
          rw [hrest]
          simp [groupText, front, tailText, zeros, back, hgroup, hexes, hostOf, List.replicate]
        rw [htext, List.map_cons, hrest, hhost]
        exact Or.inr ⟨_, [], [hostOf group], [], 7, by decide, rfl, rfl,
          Or.inr (.piece (isPiece_hexadecimal group)), Or.inl ⟨rfl, rfl⟩⟩

/-- The groups alone are in a standard form only if all but the first are zero. -/
theorem groupText_denotes_iff (a : IPv6Address) :
    Denotes (groupText a.groups) (networkGroups a.addr.s6Addr.toList) ↔
      ∀ group ∈ a.groups.drop 1, group = 0 := by
  rw [networkGroups_eq]
  exact ⟨zeros_of_denotes a.length_groups, denotes_of_zeros a.length_groups⟩

/-! ## Which addresses are printed alike -/

/-- What is left of an address in its text: digits before and behind a gap of some kind. -/
structure Alike (groups groups' : List UInt16) : Prop where
  digits : hexes (front groups) = hexes (front groups')
  tail : tailText groups = tailText groups'

theorem tailText_colon (groups : List UInt16) :
    tailText groups = [] ∨ ∃ rest, tailText groups = 58 :: rest := by
  unfold tailText
  split
  · exact Or.inl rfl
  · split
    · exact Or.inr ⟨_, rfl⟩
    · exact Or.inr ⟨_, rfl⟩

theorem groupText_inj {groups groups' : List UInt16} :
    groupText groups = groupText groups' ↔ Alike groups groups' := by
  constructor
  · intro h
    have hcolon : ∀ groups, (58 : UInt8) ∉ hexes groups := fun groups => not_mem_hexes isDigitOf_colon
    rcases tailText_colon groups with hnil | ⟨rest, hrest⟩
    · rcases tailText_colon groups' with hnil' | ⟨rest', hrest'⟩
      · rw [groupText, groupText, hnil, hnil', List.append_nil, List.append_nil] at h
        exact ⟨h, hnil.trans hnil'.symm⟩
      · rw [groupText, groupText, hnil, hrest', List.append_nil] at h
        have hmem : (58 : UInt8) ∈ hexes (front groups) := by
          rw [h]
          simp
        exact absurd hmem (hcolon _)
    · rcases tailText_colon groups' with hnil' | ⟨rest', hrest'⟩
      · rw [groupText, groupText, hrest, hnil', List.append_nil] at h
        have hmem : (58 : UInt8) ∈ hexes (front groups') := by
          rw [← h]
          simp
        exact absurd hmem (hcolon _)
      · rw [groupText, groupText, hrest, hrest', append_cons_inj (hcolon _) (hcolon _)] at h
        exact ⟨h.1, by rw [hrest, hrest', h.2]⟩
  · rintro ⟨hfront, htail⟩
    rw [groupText, groupText, hfront, htail]

theorem back_eq_nil_iff {groups : List UInt16} :
    back groups = [] ↔ tailText groups = [] ∨ tailText groups = [58, 58] := by
  unfold tailText
  split
  · rename_i hzeros
    simp [back, hzeros]
  · split
    · rename_i hback
      simp [hback]
    · rename_i hback
      have hdigits := digits_hexes (back groups)
      simp only [hback, reduceCtorEq, List.cons.injEq, true_and, false_or, false_iff]
      intro hcolon
      rw [hcolon] at hdigits
      revert hdigits
      decide

theorem portText_of_alike {groups groups' : List UInt16} (h : Alike groups groups') (port : Nat) :
    portText groups port = portText groups' port := by
  have hfront : front groups = [] ↔ front groups' = [] := by
    rw [← hexes_eq_nil_iff, h.digits, hexes_eq_nil_iff]
  have hback : back groups = [] ↔ back groups' = [] := by
    rw [back_eq_nil_iff, h.tail, ← back_eq_nil_iff]
  simp only [portText, hfront, hback]

theorem portText_inj {groups : List UInt16} {port port' : Nat} :
    portText groups port = portText groups port' ↔ port = port' := by
  unfold portText
  split
  · exact decimal_inj
  · exact hexadecimal_inj

/-- Two addresses have one text if their ports are equal and their groups look alike. -/
theorem ipv6_toString_inj (a b : IPv6Address) :
    a.ToString = b.ToString ↔ Alike a.groups b.groups ∧ a.GetPort = b.GetPort := by
  have hbracket : ∀ groups, (93 : UInt8) ∉ groupText groups := by
    intro groups hmem
    rcases List.mem_append.mp hmem with hfront | htail
    · exact not_mem_hexes (by decide) hfront
    · unfold tailText at htail
      split at htail
      · cases htail
      · split at htail
        · revert htail
          decide
        · rcases List.mem_cons.mp htail with hcolon | hback
          · revert hcolon
            decide
          · exact not_mem_hexes (by decide) hback
  rw [toString_eq a.length_groups, toString_eq b.length_groups, List.cons_append, List.cons_append,
    List.cons.injEq, append_cons_inj (hbracket _) (hbracket _), groupText_inj, List.cons.injEq]
  simp only [true_and]
  constructor
  · rintro ⟨halike, hport⟩
    rw [portText_of_alike halike, portText_inj, UInt16.toNat_inj] at hport
    exact ⟨halike, hport⟩
  · rintro ⟨halike, hport⟩
    rw [portText_of_alike halike, hport]
    exact ⟨halike, rfl⟩

end IPv6Address

/-! ## Which texts identify an address -/

/-- Two addresses of one class. -/
inductive Pair where
  | ipv4 (a b : IPv4Address)
  | ipv6 (a b : IPv6Address)

/-- Different addresses have different texts, and those of IPv6 are standard ones. -/
def Pair.Identified : Pair → Prop
  | .ipv4 a b => (a.addr.sAddr, a.GetPort) ≠ (b.addr.sAddr, b.GetPort) → a.ToString ≠ b.ToString
  | .ipv6 a b =>
      ((a.addr.s6Addr, a.GetPort) ≠ (b.addr.s6Addr, b.GetPort) → a.ToString ≠ b.ToString) ∧
        Standard a.ToString a ∧ Standard b.ToString b

def Pair.isIPv4 : Pair → Bool
  | .ipv4 _ _ => true
  | .ipv6 _ _ => false

/-- An opening brace stands where the bracket should. -/
theorem not_standard (a : IPv6Address) : ¬ Standard a.ToString a := by
  rintro ⟨group, htext, -⟩
  have hbracket : ascii "[" = [91] := by decide
  rw [IPv6Address.toString_eq a.length_groups, hbracket] at htext
  simp at htext

theorem identified_iff (pair : Pair) : pair.Identified ↔ pair.isIPv4 = true := by
  cases pair with
  | ipv4 a b =>
      refine ⟨fun _ => rfl, fun _ hdiffer htext => hdiffer ?_⟩
      rw [IPv4Address.ipv4_toString_inj] at htext
      rw [htext.1, htext.2]
  | ipv6 a b => exact ⟨fun h => absurd h.2.1 (not_standard a), nofun⟩

/-- `1:23:4:5:6:7:8:9` and `12:3:4:5:6:7:8:9`. -/
def evenly : IPv6Address := .new #v[0, 1, 0, 0x23, 0, 4, 0, 5, 0, 6, 0, 7, 0, 8, 0, 9] 80

def unevenly : IPv6Address := .new #v[0, 0x12, 0, 3, 0, 4, 0, 5, 0, 6, 0, 7, 0, 8, 0, 9] 80

/-- Both are printed as `123456789` with an opening brace and the port in hexadecimal. -/
theorem printed_alike :
    evenly.addr.s6Addr ≠ unevenly.addr.s6Addr ∧ evenly.ToString = unevenly.ToString ∧
      evenly.ToString = ascii "\x7b123456789]:50" ∧ ¬ (Pair.ipv6 evenly unevenly).Identified := by
  have htext : evenly.ToString = unevenly.ToString := by decide +kernel
  refine ⟨by decide, htext, by decide +kernel, fun h => h.1 ?_ htext⟩
  decide

end Qslary.Addresses

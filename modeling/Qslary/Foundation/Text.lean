import Mathlib.Algebra.Order.Ring.Int
import Mathlib.Data.List.Infix
import Mathlib.Data.List.TakeWhile
import Mathlib.Tactic.Ring

/-!
# Text in bytes

Printing and reading back: numbers in decimal, and lists cut at the first place
where two given elements stand together, as lines are cut at CR LF.
-/

namespace Qslary.Foundation

abbrev Bytes := List UInt8

/-- The bytes of a string literal. -/
def ascii (s : String) : Bytes := s.toUTF8.data.toList

/-! ## Decimal numbers -/

def decimal (n : Nat) : Bytes :=
  (Nat.toDigits 10 n).map fun c => UInt8.ofNat c.toNat

def hexadecimal (n : Nat) : Bytes :=
  (Nat.toDigits 16 n).map fun c => UInt8.ofNat c.toNat

def isDigit (byte : UInt8) : Bool := 48 ≤ byte && byte ≤ 57

def digitsValue (digits : Bytes) : Nat :=
  digits.foldl (fun value digit => 10 * value + (digit.toNat - 48)) 0

def isspace (byte : UInt8) : Bool := byte = 32 || 9 ≤ byte && byte ≤ 13

def parseDecimal (text : Bytes) : Option Nat :=
  if text ≠ [] ∧ text.all isDigit then some (digitsValue text) else none

theorem toNat_of_isDigit {c : Char} (h : c.isDigit = true) :
    (UInt8.ofNat c.toNat).toNat = c.toNat ∧ isDigit (UInt8.ofNat c.toNat) = true := by
  have hbounds : 48 ≤ c.toNat ∧ c.toNat ≤ 57 := by
    simp only [Char.isDigit, Bool.and_eq_true, decide_eq_true_eq, ge_iff_le,
      UInt32.le_iff_toNat_le] at h
    exact h
  have htoNat : (UInt8.ofNat c.toNat).toNat = c.toNat := by
    rw [UInt8.toNat_ofNat']
    omega
  refine ⟨htoNat, ?_⟩
  simp only [isDigit, Bool.and_eq_true, decide_eq_true_eq, UInt8.le_iff_toNat_le, htoNat]
  exact hbounds

theorem digitsValue_map {digits : List Char} (h : ∀ c ∈ digits, c.isDigit = true) (init : Nat) :
    (digits.map fun c => UInt8.ofNat c.toNat).foldl
        (fun value digit => 10 * value + (digit.toNat - 48)) init =
      Nat.ofDigitChars 10 digits init := by
  induction digits generalizing init with
  | nil => rfl
  | cons c digits ih =>
      rw [List.map_cons, List.foldl_cons, ih (fun c hc => h c (List.mem_cons_of_mem _ hc)),
        (toNat_of_isDigit (h c List.mem_cons_self)).1, Nat.ofDigitChars_cons]
      rfl

theorem isDigit_of_mem_decimal {n : Nat} {byte : UInt8} (h : byte ∈ decimal n) :
    isDigit byte = true := by
  obtain ⟨c, hc, rfl⟩ := List.mem_map.mp h
  exact (toNat_of_isDigit (Nat.isDigit_of_mem_toDigits (by decide) (by decide) hc)).2

theorem parseDecimal_decimal (n : Nat) : parseDecimal (decimal n) = some n := by
  have hdigits : ∀ c ∈ Nat.toDigits 10 n, c.isDigit = true :=
    fun c hc => Nat.isDigit_of_mem_toDigits (by decide) (by decide) hc
  have hne : decimal n ≠ [] := by
    rw [decimal, ne_eq, List.map_eq_nil_iff, Nat.toDigits_eq_if (by decide)]
    split <;> simp
  have hall : (decimal n).all isDigit = true := by
    rw [List.all_eq_true]
    exact fun byte hbyte => isDigit_of_mem_decimal hbyte
  rw [parseDecimal, if_pos ⟨hne, hall⟩]
  congr 1
  rw [digitsValue, decimal, digitsValue_map hdigits, Nat.ofDigitChars_ten_toDigits]

/-! ## Numbers to a base -/

/-- The digit that a byte stands for, or 36. -/
def digitOf (byte : UInt8) : Nat :=
  if 48 ≤ byte ∧ byte ≤ 57 then byte.toNat - 48
  else if 65 ≤ byte ∧ byte ≤ 90 then byte.toNat - 55
  else if 97 ≤ byte ∧ byte ≤ 122 then byte.toNat - 87
  else 36

def isDigitOf (base : Nat) (byte : UInt8) : Bool := digitOf byte < base

def valueOf (base : Nat) (digits : Bytes) : Nat :=
  digits.foldl (fun value digit => base * value + digitOf digit) 0

/-- What stands behind a `0x` in front of a hexadecimal digit. -/
def dropPrefix (base : Nat) : Bytes → Bytes
  | 48 :: x :: y :: rest =>
      if base = 16 ∧ (x = 120 ∨ x = 88) ∧ isDigitOf 16 y then y :: rest else 48 :: x :: y :: rest
  | text => text

/-- The number that a text begins with. -/
def unsignedOf (base : Nat) (text : Bytes) : Nat :=
  valueOf base ((dropPrefix base text).takeWhile (isDigitOf base))

/-- `strtol(text, NULL, base)`, in 64 bits. -/
def strtol (base : Nat) (text : Bytes) : Int :=
  let value : Int :=
    match text.dropWhile isspace with
    | 45 :: rest => -unsignedOf base rest
    | 43 :: rest => unsignedOf base rest
    | rest => unsignedOf base rest
  max (-2 ^ 63) (min (2 ^ 63 - 1) value)

theorem foldl_digits (base : Nat) (digits : Bytes) (init : Nat) :
    digits.foldl (fun value digit => base * value + digitOf digit) init =
      init * base ^ digits.length + valueOf base digits := by
  induction digits generalizing init with
  | nil => simp [valueOf]
  | cons x rest ih =>
      have hrest : valueOf base (x :: rest) =
          rest.foldl (fun value digit => base * value + digitOf digit) (digitOf x) := by
        rw [valueOf, List.foldl_cons, Nat.mul_zero, Nat.zero_add]
      rw [List.foldl_cons, hrest, ih, ih (digitOf x), List.length_cons, pow_succ]
      ring

theorem valueOf_append (base : Nat) (front back : Bytes) :
    valueOf base (front ++ back) = valueOf base front * base ^ back.length + valueOf base back := by
  rw [valueOf, List.foldl_append, foldl_digits]
  rfl

theorem digitOf_digitChar {d : Nat} (h : d < 16) :
    digitOf (UInt8.ofNat (Nat.digitChar d).toNat) = d := by
  have hall : ∀ d : Fin 16, digitOf (UInt8.ofNat (Nat.digitChar d).toNat) = d := by decide
  exact hall ⟨d, h⟩

theorem hexadecimal_ne_nil (n : Nat) : hexadecimal n ≠ [] := by
  simp [hexadecimal, Nat.toDigits_ne_nil]

theorem length_hexadecimal_le {n k : Nat} (hk : 0 < k) (h : n < 16 ^ k) :
    (hexadecimal n).length ≤ k := by
  rw [hexadecimal, List.length_map]
  exact (Nat.length_toDigits_le_iff (by decide) hk).mpr h

/-- The digits of a number are those of the number without its last one, and that one. -/
theorem hexadecimal_eq {n : Nat} (h : 16 ≤ n) :
    hexadecimal n =
      hexadecimal (n / 16) ++ [UInt8.ofNat (Nat.digitChar (n % 16)).toNat] := by
  rw [hexadecimal, Nat.toDigits_of_base_le (by decide) h, List.map_append]
  rfl

theorem valueOf_hexadecimal (n : Nat) : valueOf 16 (hexadecimal n) = n := by
  induction n using Nat.strong_induction_on with
  | _ n ih =>
      rcases Nat.lt_or_ge n 16 with hlt | hge
      · have hone : hexadecimal n = [UInt8.ofNat (Nat.digitChar n).toNat] := by
          rw [hexadecimal, Nat.toDigits_of_lt_base hlt]
          rfl
        rw [hone, valueOf, List.foldl_cons, List.foldl_nil, digitOf_digitChar hlt]
        omega
      · have hlast : n % 16 < 16 := Nat.mod_lt n (by decide)
        rw [hexadecimal_eq hge, valueOf_append, ih (n / 16) (by omega), valueOf, List.foldl_cons,
          List.foldl_nil, digitOf_digitChar hlast, List.length_singleton]
        omega

theorem isDigitOf_of_mem_hexadecimal {n : Nat} {byte : UInt8} (h : byte ∈ hexadecimal n) :
    isDigitOf 16 byte = true := by
  induction n using Nat.strong_induction_on with
  | _ n ih =>
      rcases Nat.lt_or_ge n 16 with hlt | hge
      · rw [hexadecimal, Nat.toDigits_of_lt_base hlt, List.map_singleton, List.mem_singleton] at h
        rw [h, isDigitOf, digitOf_digitChar hlt]
        exact decide_eq_true hlt
      · have hlast : n % 16 < 16 := Nat.mod_lt n (by decide)
        rw [hexadecimal_eq hge, List.mem_append, List.mem_singleton] at h
        rcases h with hfront | hback
        · exact ih (n / 16) (by omega) hfront
        · rw [hback, isDigitOf, digitOf_digitChar hlast]
          exact decide_eq_true hlast

theorem hexadecimal_inj {m n : Nat} : hexadecimal m = hexadecimal n ↔ m = n := by
  constructor
  · intro h
    rw [← valueOf_hexadecimal m, h, valueOf_hexadecimal]
  · rintro rfl
    rfl

theorem decimal_inj {m n : Nat} : decimal m = decimal n ↔ m = n := by
  constructor
  · intro h
    apply Option.some.inj
    rw [← parseDecimal_decimal m, h, parseDecimal_decimal]
  · rintro rfl
    rfl

theorem not_isspace_of_isDigitOf {byte : UInt8} (h : isDigitOf 16 byte = true) :
    isspace byte = false ∧ byte ≠ 45 ∧ byte ≠ 43 ∧ byte ≠ 120 ∧ byte ≠ 88 := by
  simp only [isDigitOf, digitOf, decide_eq_true_eq, UInt8.le_iff_toNat_le, UInt8.toNat_ofNat] at h
  simp only [isspace, Bool.or_eq_false_iff, decide_eq_false_iff_not, Bool.and_eq_false_iff,
    UInt8.le_iff_toNat_le, ← UInt8.toNat_inj, UInt8.toNat_ofNat, ne_eq]
  split at h <;> [skip; split at h <;> [skip; split at h]] <;> omega

/-- Digits are no prefix: what would be its letter is the second digit, or what follows. -/
theorem dropPrefix_hex {digits : Bytes} (hne : digits ≠ [])
    (hdigits : digits.all (isDigitOf 16) = true) {x : UInt8} (hletter : x ≠ 120 ∧ x ≠ 88)
    (tail : Bytes) : dropPrefix 16 (digits ++ x :: tail) = digits ++ x :: tail := by
  cases digits with
  | nil => exact absurd rfl hne
  | cons first rest =>
      cases rest with
      | nil =>
          simp only [List.cons_append, List.nil_append]
          unfold dropPrefix
          split
          · rename_i heq
            obtain ⟨rfl, rfl, rfl⟩ := heq
            simp [hletter.1, hletter.2]
          · rfl
      | cons second rest =>
          have hsecond := not_isspace_of_isDigitOf (List.all_eq_true.mp hdigits second (by simp))
          simp only [List.cons_append]
          unfold dropPrefix
          split
          · rename_i heq
            simp only [List.cons.injEq] at heq
            obtain ⟨rfl, rfl, hrest⟩ := heq
            simp [hsecond.2.2.2.1, hsecond.2.2.2.2, hrest]
          · rfl

/-- A hexadecimal number is read up to a byte that is none of its digits. -/
theorem strtol_hex {digits : Bytes} (hne : digits ≠ []) (hdigits : digits.all (isDigitOf 16) = true)
    {x : UInt8} (hx : isDigitOf 16 x = false) (hletter : x ≠ 120 ∧ x ≠ 88) (tail : Bytes)
    (hsmall : valueOf 16 digits < 2 ^ 63) :
    strtol 16 (digits ++ x :: tail) = valueOf 16 digits := by
  have htake : (digits ++ x :: tail).takeWhile (isDigitOf 16) = digits := by
    rw [List.takeWhile_append_of_pos (List.all_eq_true.mp hdigits), List.takeWhile_cons, hx]
    exact List.append_nil _
  have hdrop := dropPrefix_hex hne hdigits hletter tail
  have hunsigned : unsignedOf 16 (digits ++ x :: tail) = valueOf 16 digits := by
    rw [unsignedOf, hdrop, htake]
  cases digits with
  | nil => exact absurd rfl hne
  | cons first rest =>
      obtain ⟨hspace, hminus, hplus, -, -⟩ :=
        not_isspace_of_isDigitOf (List.all_eq_true.mp hdigits first (by simp))
      have hspaces : (first :: rest ++ x :: tail).dropWhile isspace = first :: rest ++ x :: tail := by
        rw [List.cons_append, List.dropWhile_cons, hspace]
        rfl
      rw [strtol, hspaces]
      simp only [List.cons_append]
      split
      · rename_i heq
        exact absurd (List.cons.inj heq).1 hminus
      · rename_i heq
        exact absurd (List.cons.inj heq).1 hplus
      · rw [List.cons_append] at hunsigned
        rw [hunsigned]
        omega

theorem digitOf_of_isDigit {byte : UInt8} (h : isDigit byte = true) :
    digitOf byte = byte.toNat - 48 ∧ isDigitOf 10 byte = true := by
  have hbounds : 48 ≤ byte ∧ byte ≤ 57 := by simpa [isDigit] using h
  have hvalue : digitOf byte = byte.toNat - 48 := if_pos hbounds
  have hle := UInt8.le_iff_toNat_le.mp hbounds.2
  refine ⟨hvalue, ?_⟩
  simp only [UInt8.toNat_ofNat] at hle
  simp only [isDigitOf, hvalue, decide_eq_true_eq]
  omega

theorem valueOf_decimal (n : Nat) : valueOf 10 (decimal n) = n := by
  have hfold : ∀ (digits : Bytes) (init : Nat), (∀ x ∈ digits, isDigit x = true) →
      digits.foldl (fun value digit => 10 * value + digitOf digit) init =
        digits.foldl (fun value digit => 10 * value + (digit.toNat - 48)) init := by
    intro digits
    induction digits with
    | nil => exact fun _ _ => rfl
    | cons x digits ih =>
        intro init h
        obtain ⟨hx, hdigits⟩ := List.forall_mem_cons.mp h
        rw [List.foldl_cons, List.foldl_cons, (digitOf_of_isDigit hx).1, ih _ hdigits]
  have hparse := parseDecimal_decimal n
  unfold parseDecimal at hparse
  split at hparse
  · rw [valueOf, hfold _ 0 fun x hx => isDigit_of_mem_decimal hx]
    exact Option.some.inj hparse
  · cases hparse

theorem decimal_ne_nil (n : Nat) : decimal n ≠ [] := by
  simp [decimal, Nat.toDigits_ne_nil]

/-- A decimal number is read up to a byte that is no digit. -/
theorem strtol_decimal {n : Nat} {x : UInt8} (hx : isDigitOf 10 x = false) (tail : Bytes)
    (h : n < 2 ^ 63) : strtol 10 (decimal n ++ x :: tail) = n := by
  have hdigits : ∀ y ∈ decimal n, isDigitOf 10 y = true := fun y hy =>
    (digitOf_of_isDigit (isDigit_of_mem_decimal hy)).2
  have hdrop : ∀ text, dropPrefix 10 text = text := by
    intro text
    unfold dropPrefix
    split <;> simp
  have hunsigned : unsignedOf 10 (decimal n ++ x :: tail) = n := by
    rw [unsignedOf, hdrop, List.takeWhile_append_of_pos hdigits, List.takeWhile_cons, hx]
    simp [valueOf_decimal]
  cases htext : decimal n with
  | nil => exact absurd htext (decimal_ne_nil n)
  | cons first rest =>
      have hfirst : isDigit first = true := isDigit_of_mem_decimal (htext ▸ List.mem_cons_self)
      have hbounds : 48 ≤ first.toNat ∧ first.toNat ≤ 57 := by
        simpa [isDigit, UInt8.le_iff_toNat_le] using hfirst
      have hspace : isspace first = false := by
        simp [isspace, UInt8.le_iff_toNat_le, ← UInt8.toNat_inj]
        omega
      rw [htext] at hunsigned
      rw [strtol, List.cons_append, List.dropWhile_cons, hspace]
      simp only [Bool.false_eq_true, if_false]
      split
      · rename_i heq
        have := congrArg UInt8.toNat (List.cons.inj heq).1
        simp at this
        omega
      · rename_i heq
        have := congrArg UInt8.toNat (List.cons.inj heq).1
        simp at this
        omega
      · rw [List.cons_append] at hunsigned
        rw [hunsigned]
        omega

/-! ## Cutting -/

section Cut

variable {α : Type*} [DecidableEq α]

/-- What stands before and after the first `a` that `b` follows. -/
def cut (a b : α) : List α → Option (List α × List α)
  | [] => none
  | [_] => none
  | x :: y :: rest =>
      if x = a ∧ y = b then some ([], rest)
      else (cut a b (y :: rest)).map fun parts => (x :: parts.1, parts.2)

theorem cut_append {a b : α} (hab : a ≠ b) {l : List α} (h : ¬ [a, b] <:+: l) (r : List α) :
    cut a b (l ++ a :: b :: r) = some (l, r) := by
  induction l with
  | nil => simp [cut]
  | cons x l ih =>
      have htail : ¬ [a, b] <:+: l := fun hwithin => h (hwithin.trans (List.suffix_cons x l).isInfix)
      have hcut := ih htail
      cases l with
      | nil => simp [cut, hab]
      | cons y l =>
          have hne : ¬ (x = a ∧ y = b) := by
            rintro ⟨rfl, rfl⟩
            exact h ⟨[], l, rfl⟩
          rw [List.cons_append] at hcut
          simp only [List.cons_append, cut, if_neg hne, hcut, Option.map_some]

theorem eq_append_of_cut {a b : α} {m l r : List α} (h : cut a b m = some (l, r)) :
    m = l ++ a :: b :: r := by
  induction m generalizing l with
  | nil => cases h
  | cons x m ih =>
      cases m with
      | nil => cases h
      | cons y rest =>
          unfold cut at h
          split at h
          · rename_i heq
            cases h
            rw [heq.1, heq.2]
            rfl
          · obtain ⟨⟨before, after⟩, hcut, heq⟩ := Option.map_eq_some_iff.mp h
            cases heq
            rw [List.cons_append, ← ih hcut]

theorem not_infix_of_cut {a b : α} {m l r : List α} (h : cut a b m = some (l, r)) :
    ¬ [a, b] <:+: l := by
  induction m generalizing l with
  | nil => cases h
  | cons x m ih =>
      cases m with
      | nil => cases h
      | cons y rest =>
          unfold cut at h
          split at h
          · cases h
            simp
          · rename_i hne
            obtain ⟨⟨before, after⟩, hcut, heq⟩ := Option.map_eq_some_iff.mp h
            cases heq
            rw [List.infix_cons_iff]
            rintro (hstarts | hwithin)
            · obtain ⟨hx, tail, htail⟩ := List.cons_prefix_cons.mp hstarts
              have hrest := eq_append_of_cut hcut
              simp only [show before = b :: tail from htail.symm, List.cons_append,
                List.cons.injEq] at hrest
              exact hne ⟨hx.symm, hrest.1⟩
            · exact ih hcut hwithin

/-- What stands before and after the first `a`. -/
def splitFirst (a : α) (l : List α) : List α × List α :=
  (l.takeWhile (· ≠ a), (l.dropWhile (· ≠ a)).drop 1)

theorem splitFirst_append {a : α} {l : List α} (h : a ∉ l) (r : List α) :
    splitFirst a (l ++ a :: r) = (l, r) := by
  have hall : ∀ x ∈ l, decide (x ≠ a) = true := by
    intro x hx
    refine decide_eq_true fun heq => h (heq ▸ hx)
  rw [splitFirst, List.takeWhile_append_of_pos hall, List.dropWhile_append_of_pos hall]
  simp

/-- Two texts that stop in front of the same separator. -/
theorem append_cons_inj {a : α} {l l' r r' : List α} (h : a ∉ l) (h' : a ∉ l') :
    l ++ a :: r = l' ++ a :: r' ↔ l = l' ∧ r = r' := by
  constructor
  · intro heq
    have hcut := splitFirst_append h r
    rw [heq, splitFirst_append h'] at hcut
    cases hcut
    exact ⟨rfl, rfl⟩
  · rintro ⟨rfl, rfl⟩
    rfl

theorem cut_append_iff {a b : α} (hab : a ≠ b) {l r : List α} :
    cut a b (l ++ a :: b :: r) = some (l, r) ↔ ¬ [a, b] <:+: l :=
  ⟨not_infix_of_cut, fun h => cut_append hab h r⟩

end Cut

end Qslary.Foundation

import Qslary.Uri.Model

/-!
# Well-formed URIs

The parts that `uri.rl` describes: bytes of a set and percent-encoded ones, one after the
other.
-/

namespace Qslary.Uri

open Qslary.Foundation

/-- Bytes of a set, and a percent sign with two hexadecimal digits. -/
inductive Encoded (bytes : List (Nat × Nat)) : Bytes → Prop where
  | nil : Encoded bytes []
  | byte {x : UInt8} {rest : Bytes} :
      within bytes x.toNat = true → Encoded bytes rest → Encoded bytes (x :: rest)
  | pct {x y : UInt8} {rest : Bytes} :
      within hexDigit x.toNat = true → within hexDigit y.toNat = true → Encoded bytes rest →
        Encoded bytes (37 :: x :: y :: rest)

/-- `alpha (alpha | digit | "+" | "-" | ".")*` -/
def SchemeText (scheme : Bytes) : Prop :=
  ∃ x rest, scheme = x :: rest ∧ within letter x.toNat = true ∧
    ∀ y ∈ rest, within schemeByte y.toNat = true

/-- The URIs of which every part is one of the grammar. -/
structure URI.WellFormed (u : URI) : Prop where
  scheme : SchemeText u.scheme
  userinfo : Encoded userinfoByte u.userinfo
  host : u.host ≠ [] ∧ Encoded regNameByte u.host
  port : 0 ≤ u.port ∧ u.port ≤ 65535
  path : u.path = [] ∨ ∃ rest, u.path = 47 :: rest ∧ Encoded pathByte rest
  query : Encoded queryByte u.query
  fragment : Encoded queryByte u.fragment

/-- The parts that can be asked for are the same. -/
def URI.SameParts (u v : URI) : Prop :=
  v.scheme = u.scheme ∧ v.userinfo = u.userinfo ∧ v.host = u.host ∧ v.GetPort = u.GetPort ∧
    v.getPath = u.getPath ∧ v.query = u.query ∧ v.fragment = u.fragment

/-- The first colon is followed by a digit. -/
def ColonDigit (userinfo : Bytes) : Prop :=
  ∃ before digit after, userinfo = before ++ 58 :: digit :: after ∧ 58 ∉ before ∧
    isDigit digit = true

theorem within_userinfoByte {n : Nat} :
    within userinfoByte n = true ↔ within regNameByte n = true ∨ n = 58 := by
  simp only [within, userinfoByte, regNameByte, List.any_cons, List.any_nil, Bool.or_false,
    Bool.or_eq_true, Bool.and_eq_true, decide_eq_true_eq]
  omega

theorem ne_colon_of_within_hexDigit {x : UInt8} (h : within hexDigit x.toNat = true) : 58 ≠ x := by
  rintro rfl
  exact absurd h (by decide)

/-- A text without a colon is a name; of another one, what stands before the first colon is. -/
theorem split_userinfo {text : Bytes} (h : Encoded userinfoByte text) :
    (58 ∉ text ∧ Encoded regNameByte text) ∨
      ∃ before after, text = before ++ 58 :: after ∧ 58 ∉ before ∧ Encoded regNameByte before ∧
        Encoded userinfoByte after := by
  induction h with
  | nil => exact .inl ⟨List.not_mem_nil, .nil⟩
  | @byte x rest hx hrest ih =>
      rcases within_userinfoByte.mp hx with hname | hcolon
      · have hne : 58 ≠ x := by
          rintro rfl
          exact absurd hname (by decide)
        rcases ih with ⟨hfree, hnamed⟩ | ⟨before, after, rfl, hfree, hnamed, hafter⟩
        · exact .inl ⟨by simp [hne, hfree], .byte hname hnamed⟩
        · exact .inr ⟨x :: before, after, rfl, by simp [hne, hfree], .byte hname hnamed, hafter⟩
      · obtain rfl : x = 58 := UInt8.toNat_inj.mp hcolon
        exact .inr ⟨[], rest, rfl, List.not_mem_nil, .nil, hrest⟩
  | @pct x y rest hx hy hrest ih =>
      have hne : 58 ≠ x := ne_colon_of_within_hexDigit hx
      have hne' : 58 ≠ y := ne_colon_of_within_hexDigit hy
      rcases ih with ⟨hfree, hnamed⟩ | ⟨before, after, rfl, hfree, hnamed, hafter⟩
      · exact .inl ⟨by simp [hne, hne', hfree], .pct hx hy hnamed⟩
      · exact .inr ⟨37 :: x :: y :: before, after, rfl, by simp [hne, hne', hfree],
          .pct hx hy hnamed, hafter⟩

theorem colonDigit_iff {before after : Bytes} (h : 58 ∉ before) :
    ColonDigit (before ++ 58 :: after) ↔
      ∃ digit rest, after = digit :: rest ∧ isDigit digit = true := by
  constructor
  · rintro ⟨other, digit, rest, heq, hother, hdigit⟩
    have hdrop : ∀ {front back : Bytes}, 58 ∉ front →
        (front ++ 58 :: back).dropWhile (· ≠ 58) = 58 :: back := by
      intro front back hfront
      rw [List.dropWhile_append_of_pos fun x hx => by
        simpa using fun hcolon : x = 58 => hfront (hcolon ▸ hx)]
      rfl
    have hcut := congrArg (List.dropWhile (· ≠ 58)) heq
    rw [hdrop h, hdrop hother, List.cons_inj_right] at hcut
    exact ⟨digit, rest, hcut, hdigit⟩
  · rintro ⟨digit, rest, rfl, hdigit⟩
    exact ⟨before, digit, rest, rfl, h, hdigit⟩

theorem not_colonDigit {text : Bytes} (h : 58 ∉ text) : ¬ColonDigit text := by
  rintro ⟨before, digit, after, rfl, -, -⟩
  exact h (by simp)

end Qslary.Uri

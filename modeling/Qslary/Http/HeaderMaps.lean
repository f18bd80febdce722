import Qslary.Foundation.KeyOrder
import Qslary.Http.Message

/-!
# Header maps

The comparison of header names, and what the entries of a request or a response hold after
any calls of `setHeaderEntry` and `delHeaderEntry`.
-/

namespace Qslary.Http

open Qslary.Foundation

/-! ## The comparison -/

/-- `strcasecmp` in the C locale; a list that is at its end stands for the NUL behind it. -/
def strcasecmp : Bytes → Bytes → Int
  | x :: xs, y :: ys =>
      let result : Int := (toLower x).toNat - (toLower y).toNat
      if result = 0 then if x = 0 then 0 else strcasecmp xs ys else result
  | x :: _, [] => (toLower x).toNat
  | [], y :: _ => -(toLower y).toNat
  | [], [] => 0

/-- `CaseInsensitiveLess::operator()` -/
def caseInsensitiveLess (lhs rhs : Bytes) : Bool := strcasecmp lhs rhs < 0

def caseInsensitiveEq (lhs rhs : Bytes) : Bool := strcasecmp lhs rhs = 0

theorem toLower_eq_zero_iff {x : UInt8} : (toLower x).toNat = 0 ↔ x = 0 := by
  rw [toLower, ← UInt8.toNat_inj]
  split
  · rename_i h
    have hlow : 65 ≤ x.toNat := UInt8.le_iff_toNat_le.mp h.1
    have hhigh : x.toNat ≤ 90 := UInt8.le_iff_toNat_le.mp h.2
    rw [UInt8.toNat_add]
    change (x.toNat + 32) % 256 = 0 ↔ x.toNat = 0
    omega
  · exact Iff.rfl

theorem caseKey_nil : caseKey [] = [] := rfl

theorem caseKey_zero (xs : Bytes) : caseKey (0 :: xs) = [] := rfl

theorem caseKey_cons {x : UInt8} (hx : x ≠ 0) (xs : Bytes) :
    caseKey (x :: xs) = (toLower x).toNat :: caseKey xs := by
  simp [caseKey, lower, hx]

theorem strcasecmp_key (xs ys : Bytes) :
    (strcasecmp xs ys < 0 ↔ caseKey xs < caseKey ys) ∧
      (strcasecmp xs ys = 0 ↔ caseKey xs = caseKey ys) := by
  induction xs generalizing ys with
  | nil =>
      cases ys with
      | nil => simp [strcasecmp]
      | cons y ys =>
          by_cases hy : y = 0
          · simp [strcasecmp, hy, caseKey_zero, caseKey_nil, toLower_eq_zero_iff.mpr]
          · have hpos : (toLower y).toNat ≠ 0 := fun h => hy (toLower_eq_zero_iff.mp h)
            rw [strcasecmp, caseKey_nil, caseKey_cons hy]
            simp
            omega
  | cons x xs ih =>
      by_cases hx : x = 0
      · subst hx
        cases ys with
        | nil => simp [strcasecmp, caseKey_zero, caseKey_nil, toLower_eq_zero_iff.mpr]
        | cons y ys =>
            by_cases hy : y = 0
            · simp [strcasecmp, hy, caseKey_zero]
            · have hpos : (toLower y).toNat ≠ 0 := fun h => hy (toLower_eq_zero_iff.mp h)
              have hzero : (toLower 0).toNat = 0 := rfl
              simp only [strcasecmp, caseKey_zero, caseKey_cons hy, hzero]
              simp
              omega
      · have hpos : (toLower x).toNat ≠ 0 := fun h => hx (toLower_eq_zero_iff.mp h)
        cases ys with
        | nil =>
            rw [strcasecmp, caseKey_nil, caseKey_cons hx]
            simp
            omega
        | cons y ys =>
            by_cases hy : y = 0
            · subst hy
              have hzero : (toLower 0).toNat = 0 := rfl
              simp only [strcasecmp, caseKey_zero, caseKey_cons hx, hzero]
              simp [hpos]
            · rw [strcasecmp, caseKey_cons hx, caseKey_cons hy, List.cons_lt_cons_iff,
                List.cons.injEq, ← (ih ys).1, ← (ih ys).2]
              by_cases heq : (toLower x).toNat = (toLower y).toNat
              · simp [heq, hx]
              · have hne : ¬ (((toLower x).toNat : Int) - (toLower y).toNat = 0) := by omega
                have hlt : ((toLower x).toNat : Int) - (toLower y).toNat < 0 ↔
                    (toLower x).toNat < (toLower y).toNat := by omega
                simp only [hne, if_false, heq, false_and, or_false]
                exact ⟨hlt, trivial⟩

theorem caseInsensitiveLess_iff {lhs rhs : Bytes} :
    caseInsensitiveLess lhs rhs = true ↔ caseKey lhs < caseKey rhs := by
  rw [caseInsensitiveLess, decide_eq_true_eq]
  exact (strcasecmp_key lhs rhs).1

theorem caseInsensitiveEq_iff {lhs rhs : Bytes} :
    caseInsensitiveEq lhs rhs = true ↔ caseKey lhs = caseKey rhs := by
  rw [caseInsensitiveEq, decide_eq_true_eq]
  exact (strcasecmp_key lhs rhs).2

theorem caseInsensitive_ordersKeys : OrdersKeys caseInsensitiveLess caseInsensitiveEq :=
  ordersKeys_of_image caseKey (fun _ _ => caseInsensitiveLess_iff) fun _ _ => caseInsensitiveEq_iff

/-! ## The calls -/

inductive HeaderCall where
  | setHeaderEntry (key value : Bytes)
  | delHeaderEntry (key : Bytes)

/-- The value of the last set for the key that no deletion follows, the last call first. -/
def lastSet (key : Bytes) : List HeaderCall → Option Bytes
  | [] => none
  | .setHeaderEntry set value :: earlier =>
      if caseInsensitiveEq set key then some value else lastSet key earlier
  | .delHeaderEntry deleted :: earlier =>
      if caseInsensitiveEq deleted key then none else lastSet key earlier

namespace HttpRequest

def getHeaderEntry (req : HttpRequest) (key : Bytes) : Bytes :=
  match req.headers.find? key with
  | none => []
  | some value => value

def HasHeaderEntry (req : HttpRequest) (key : Bytes) : Bool := req.headers.count key > 0

def delHeaderEntry (req : HttpRequest) (key : Bytes) : HttpRequest :=
  { req with headers := req.headers.erase key }

def apply (req : HttpRequest) : HeaderCall → HttpRequest
  | .setHeaderEntry key value => req.setHeaderEntry key value
  | .delHeaderEntry key => req.delHeaderEntry key

end HttpRequest

namespace HttpResponse

def getHeaderEntry (rsp : HttpResponse) (key : Bytes) : Bytes :=
  match rsp.headers.find? key with
  | none => []
  | some value => value

def HasHeaderEntry (rsp : HttpResponse) (key : Bytes) : Bool := (rsp.headers.find? key).isSome

def delHeaderEntry (rsp : HttpResponse) (key : Bytes) : HttpResponse :=
  { rsp with headers := rsp.headers.erase key }

def apply (rsp : HttpResponse) : HeaderCall → HttpResponse
  | .setHeaderEntry key value => rsp.setHeaderEntry key value
  | .delHeaderEntry key => rsp.delHeaderEntry key

end HttpResponse

/-! ## What the entries hold -/

/-- The answers of an object with these headers, after the calls. -/
structure HeadersHold (calls : List HeaderCall) (headers : Headers) (get : Bytes → Bytes)
    (has : Bytes → Bool) : Prop where
  get_eq : ∀ key, get key = (lastSet key calls.reverse).getD []
  has_eq : ∀ key, has key = (lastSet key calls.reverse).isSome
  distinct : headers.entries.Pairwise fun first second => caseInsensitiveEq first.1 second.1 = false

def applyHeaders (headers : Headers) : HeaderCall → Headers
  | .setHeaderEntry key value => headers.insert key value
  | .delHeaderEntry key => headers.erase key

theorem find?_applyHeaders {headers : Headers} {key : Bytes} {history : List HeaderCall}
    (h : headers.find? key = lastSet key history) (call : HeaderCall) :
    (applyHeaders headers call).find? key = lastSet key (call :: history) := by
  cases call with
  | setHeaderEntry set value =>
      simp only [applyHeaders, RankedMap.find?_insert, h, lastSet, caseInsensitiveEq_iff]
  | delHeaderEntry deleted =>
      simp only [applyHeaders, RankedMap.find?_erase, h, lastSet, caseInsensitiveEq_iff]

theorem find?_foldl {headers : Headers} {key : Bytes} {history : List HeaderCall}
    (h : headers.find? key = lastSet key history) (calls : List HeaderCall) :
    (calls.foldl applyHeaders headers).find? key = lastSet key (calls.reverse ++ history) := by
  induction calls generalizing headers history with
  | nil => exact h
  | cons call calls ih =>
      have hrest := ih (find?_applyHeaders h call)
      rwa [List.reverse_cons, List.append_assoc, List.singleton_append]

/-- The answers are those of the entries, whatever the entries are part of. -/
theorem headersHold_of_eq {calls : List HeaderCall} {headers : Headers} {get : Bytes → Bytes}
    {has : Bytes → Bool} (hheaders : calls.foldl applyHeaders .empty = headers)
    (hget : ∀ key, get key = (headers.find? key).getD [])
    (hhas : ∀ key, has key = (headers.find? key).isSome) :
    HeadersHold calls headers get has := by
  have hfind : ∀ key, headers.find? key = lastSet key calls.reverse := by
    intro key
    have hstart : (RankedMap.empty : Headers).find? key = lastSet key [] := rfl
    have hafter := find?_foldl hstart calls
    rwa [hheaders, List.append_nil] at hafter
  refine ⟨fun key => ?_, fun key => ?_, ?_⟩
  · rw [hget, hfind]
  · rw [hhas, hfind]
  · apply headers.sorted.imp
    intro first second hlt
    rw [Bool.eq_false_iff, ne_eq, caseInsensitiveEq_iff]
    exact hlt.ne

namespace HttpRequest

theorem headers_apply (req : HttpRequest) (call : HeaderCall) :
    applyHeaders req.headers call = (req.apply call).headers := by
  cases call <;> rfl

theorem headersHold (req : HttpRequest) (calls : List HeaderCall) (hnew : req.headers = .empty) :
    HeadersHold calls (calls.foldl apply req).headers (calls.foldl apply req).getHeaderEntry
      (calls.foldl apply req).HasHeaderEntry := by
  have hheaders : calls.foldl applyHeaders req.headers = (calls.foldl apply req).headers :=
    List.foldl_hom headers headers_apply
  rw [hnew] at hheaders
  apply headersHold_of_eq hheaders
  · intro key
    rw [getHeaderEntry]
    cases (calls.foldl apply req).headers.find? key <;> rfl
  · intro key
    rw [HasHeaderEntry, Bool.eq_iff_iff, decide_eq_true_eq]
    exact RankedMap.count_pos_iff

end HttpRequest

namespace HttpResponse

theorem headers_apply (rsp : HttpResponse) (call : HeaderCall) :
    applyHeaders rsp.headers call = (rsp.apply call).headers := by
  cases call <;> rfl

theorem headersHold (rsp : HttpResponse) (calls : List HeaderCall) (hnew : rsp.headers = .empty) :
    HeadersHold calls (calls.foldl apply rsp).headers (calls.foldl apply rsp).getHeaderEntry
      (calls.foldl apply rsp).HasHeaderEntry := by
  have hheaders : calls.foldl applyHeaders rsp.headers = (calls.foldl apply rsp).headers :=
    List.foldl_hom headers headers_apply
  rw [hnew] at hheaders
  apply headersHold_of_eq hheaders
  · intro key
    rw [getHeaderEntry]
    cases (calls.foldl apply rsp).headers.find? key <;> rfl
  · intro key
    rfl

end HttpResponse

/-- Headers are a finite map whose keys are names without their case. -/
theorem headers_case_insensitive :
    OrdersKeys caseInsensitiveLess caseInsensitiveEq ∧
      (∀ a b, caseInsensitiveLess a b = false ∧ caseInsensitiveLess b a = false ↔
        strcasecmp a b = 0) ∧
      (∀ (req : HttpRequest) (calls : List HeaderCall),
        let after := calls.foldl HttpRequest.apply { req with headers := .empty }
        HeadersHold calls after.headers after.getHeaderEntry after.HasHeaderEntry) ∧
      ∀ (rsp : HttpResponse) (calls : List HeaderCall),
        let after := calls.foldl HttpResponse.apply { rsp with headers := .empty }
        HeadersHold calls after.headers after.getHeaderEntry after.HasHeaderEntry := by
  refine ⟨caseInsensitive_ordersKeys, fun a b => ?_, fun req calls => ?_, fun rsp calls => ?_⟩
  · have heq : strcasecmp a b = 0 ↔ caseInsensitiveEq a b = true := by
      rw [caseInsensitiveEq, decide_eq_true_eq]
    rw [heq]
    rcases caseInsensitive_ordersKeys.exactlyOne a b with ⟨h, h', -⟩ | ⟨h, h', h''⟩ | ⟨-, h', h⟩
    · simp [h, h']
    · simp [h, h', h'']
    · simp [h, h']
  · exact HttpRequest.headersHold _ calls rfl
  · exact HttpResponse.headersHold _ calls rfl

end Qslary.Http

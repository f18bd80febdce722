import Qslary.Http.RequestRuns

/-!
# Recognising methods

A name of the table is compared with as many bytes of the token as the name has, so that
every token that a name begins is taken for the method of that name.
-/

namespace Qslary.Http

open Qslary.Foundation
open Request (charsToHttpMethod_space)

/-- The name is compared with the C string, and neither has a NUL where they agree. -/
def stringToHttpMethod (method : Bytes) : HttpMethod :=
  match httpMethodMap.find? fun entry => (ascii entry.2).isPrefixOf method with
  | some entry => entry.1
  | none => .UNKNOW

/-- The method in the table that is written like the token. -/
def methodNamed (token : Bytes) : Option HttpMethod :=
  (httpMethodMap.find? fun entry => httpMethodToString entry.1 = token).map Prod.fst

def Parsed.withMethod (parsed : Parsed) : Option HttpMethod → Parsed
  | some method => { parsed with data := { parsed.data with method := method } }
  | none => { parsed with error := 1000 }

/-- The callback and the conversion of a string tell the method of the token. -/
structure Recognised (parsed : Parsed) (token rest : Bytes) : Prop where
  callback : parsed.onRequestMethod (token ++ 32 :: rest) = parsed.withMethod (methodNamed token)
  converted : stringToHttpMethod token = (methodNamed token).getD .UNKNOW

theorem httpMethodToString_of_mem :
    ∀ entry ∈ httpMethodMap, httpMethodToString entry.1 = ascii entry.2 := by
  decide +kernel

theorem ne_unknow_of_mem : ∀ entry ∈ httpMethodMap, entry.1 ≠ .UNKNOW := by
  decide

theorem names_prefix_free : ∀ entry ∈ httpMethodMap, ∀ other ∈ httpMethodMap,
    ascii entry.2 <+: ascii other.2 → ascii entry.2 = ascii other.2 := by
  decide +kernel

variable {token : Bytes}

theorem methodNamed_eq_some {method : HttpMethod} (h : methodNamed token = some method) :
    ∃ entry ∈ httpMethodMap, entry.1 = method ∧ ascii entry.2 = token := by
  obtain ⟨entry, hfind, hmethod⟩ := Option.map_eq_some_iff.mp h
  have hmem := List.mem_of_find?_eq_some hfind
  have hname := List.find?_some hfind
  rw [decide_eq_true_eq, httpMethodToString_of_mem entry hmem] at hname
  exact ⟨entry, hmem, hmethod, hname⟩

/-- With no name in front of the rest of the token, the comparison is an equality. -/
theorem stringToHttpMethod_eq
    (h : ∀ entry ∈ httpMethodMap, ascii entry.2 <+: token → ascii entry.2 = token) :
    stringToHttpMethod token = (methodNamed token).getD .UNKNOW := by
  have hfind : httpMethodMap.find? (fun entry => (ascii entry.2).isPrefixOf token) =
      httpMethodMap.find? fun entry => httpMethodToString entry.1 = token := by
    refine List.find?_congr fun entry hentry => ?_
    rw [Bool.eq_iff_iff, List.isPrefixOf_iff_prefix, decide_eq_true_eq,
      httpMethodToString_of_mem entry hentry]
    exact ⟨h entry hentry, fun heq => heq ▸ List.prefix_rfl⟩
  rw [stringToHttpMethod, methodNamed, hfind]
  cases httpMethodMap.find? fun entry => httpMethodToString entry.1 = token <;> rfl

/-- A name in front of the token is taken for it. -/
theorem stringToHttpMethod_ne_unknow {entry : HttpMethod × String} (hentry : entry ∈ httpMethodMap)
    (h : ascii entry.2 <+: token) : stringToHttpMethod token ≠ .UNKNOW := by
  rw [stringToHttpMethod]
  split
  · rename_i found hfind
    exact ne_unknow_of_mem found (List.mem_of_find?_eq_some hfind)
  · rename_i hnone
    have hnot := List.find?_eq_none.mp hnone entry hentry
    exact absurd (List.isPrefixOf_iff_prefix.mpr h) hnot

theorem onRequestMethod_eq (parsed : Parsed) (rest : Bytes)
    (h : stringToHttpMethod token = (methodNamed token).getD .UNKNOW) :
    parsed.onRequestMethod (token ++ 32 :: rest) = parsed.withMethod (methodNamed token) := by
  have hsame : charsToHttpMethod token = stringToHttpMethod token := rfl
  simp only [Parsed.onRequestMethod, charsToHttpMethod_space, hsame, h]
  cases hnamed : methodNamed token with
  | none => rfl
  | some method =>
      obtain ⟨entry, hentry, hmethod, -⟩ := methodNamed_eq_some hnamed
      have hne : method ≠ .UNKNOW := hmethod ▸ ne_unknow_of_mem entry hentry
      simp [Parsed.withMethod, hne]

/-- A token is recognised exactly when no name stands in front of more of it. -/
theorem recognised_iff (parsed : Parsed) (token rest : Bytes) :
    Recognised parsed token rest ↔
      ∀ entry ∈ httpMethodMap, ascii entry.2 <+: token → ascii entry.2 = token := by
  constructor
  · intro h entry hentry hprefix
    have hne := stringToHttpMethod_ne_unknow hentry hprefix
    rw [h.converted] at hne
    cases hnamed : methodNamed token with
    | none =>
        rw [hnamed] at hne
        exact absurd rfl hne
    | some method =>
        obtain ⟨other, hother, -, htoken⟩ := methodNamed_eq_some hnamed
        rw [← htoken] at hprefix ⊢
        exact names_prefix_free entry hentry other hother hprefix
  · intro h
    have hconverted := stringToHttpMethod_eq h
    exact ⟨onRequestMethod_eq parsed rest hconverted, hconverted⟩

/-- `GETX` is no method, and is taken for GET. -/
theorem recognised_getx : ¬ Recognised ⟨0, .new⟩ (ascii "GETX") (ascii "/ HTTP/1.1") := by
  intro h
  cases h.converted

end Qslary.Http

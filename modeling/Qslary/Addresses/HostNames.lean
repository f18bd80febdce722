import Qslary.Addresses.Model

/-!
# Host names

`IPAddress::HostNameToAddress` cuts a host name into the node and the service that it asks
`getaddrinfo` for.  Two scanners share both variables: the one for an address in brackets,
and the one for a colon, which runs when the first has left no node.  The second keeps a
pointer to the first colon when there is another one behind it.
-/

namespace Qslary.Addresses

open Qslary.Foundation

/-! ## Strings in memory -/

/-- `memchr(memory + p, c, n)` as an offset into the memory. -/
def memchr (memory : Bytes) (p : Nat) (c : UInt8) (n : Nat) : Option Nat :=
  let text := (memory.drop p).take n
  if c ∈ text then some (p + text.idxOf c) else none

/-- The C string at an address. -/
def cString (memory : Bytes) (p : Nat) : Bytes := (memory.drop p).takeWhile (· ≠ 0)

theorem memchr_eq_some {before text rest : Bytes} {c : UInt8} {p n : Nat} (hp : before.length = p)
    (hc : c ∉ text) (hn : text.length < n) :
    memchr (before ++ text ++ c :: rest) p c n = some (p + text.length) := by
  subst hp
  obtain ⟨k, rfl⟩ := Nat.exists_eq_add_of_lt hn
  have htake : ((before ++ text ++ c :: rest).drop before.length).take (text.length + k + 1) =
      text ++ c :: rest.take k := by
    rw [List.append_assoc, List.drop_left, Nat.add_assoc, List.take_length_add_append]
    rfl
  simp only [memchr, htake]
  rw [if_pos (by simp), List.idxOf_append_of_notMem hc, List.idxOf_cons_self, Nat.add_zero]

theorem memchr_eq_none {memory : Bytes} {p n : Nat} {c : UInt8}
    (hc : c ∉ (memory.drop p).take n) : memchr memory p c n = none :=
  if_neg hc

theorem cString_append {text : Bytes} (h : 0 ∉ text) (before : Bytes) :
    cString (before ++ text ++ [0]) before.length = text := by
  rw [cString, List.append_assoc, List.drop_left, List.takeWhile_append_of_pos]
  · simp
  · intro x hx
    have hne : x ≠ 0 := fun hzero => h (hzero ▸ hx)
    simpa using hne

/-! ## The two scanners -/

/-- The address in brackets, and the offset of the service behind it. -/
def bracketScan (hostname : Bytes) : Bytes × Option Nat :=
  let memory := hostname ++ [0]
  if hostname[0]? = some 91 then
    match memchr memory 1 93 (hostname.length - 1) with
    | some endipv6 =>
        ((hostname.drop 1).take (endipv6 - 1),
          if memory[endipv6 + 1]? = some 58 then some (endipv6 + 2) else none)
    | none => ([], none)
  else ([], none)

/-- The node in front of a colon, if there is no other colon, and the offset of the service. -/
def colonScan (hostname node : Bytes) : Bytes × Option Nat :=
  let memory := hostname ++ [0]
  match memchr memory 0 58 hostname.length with
  | some service =>
      if memchr memory (service + 1) 58 (hostname.length - service - 1) = none then
        (hostname.take service, some (service + 1))
      else (node, some service)
  | none => (node, none)

/-- What `HostNameToAddress` passes to `getaddrinfo`; there is no call for an empty name. -/
def query (hostname : Bytes) : Option (Bytes × Option Bytes) :=
  if hostname = [] then none
  else
    let (node, service) := bracketScan hostname
    let (node, service) := if node = [] then colonScan hostname node else (node, service)
    let node := if node = [] then hostname else node
    some (cString (node ++ [0]) 0, service.map (cString (hostname ++ [0])))

structure Hints where
  flags : Int
  family : Int
  socktype : Int
  protocol : Int

/-- An entry of the list that `getaddrinfo` returns. -/
inductive Addrinfo where
  | inet (addr : IPv4Address)
  | inet6 (addr : IPv6Address)
  | other

/-- The loop over the results; any other family is an assertion. -/
def createAll : List Addrinfo → Option (List Address)
  | [] => some []
  | .inet addr :: next => (createAll next).map (.ipv4 addr :: ·)
  | .inet6 addr :: next => (createAll next).map (.ipv6 addr :: ·)
  | .other :: _ => none

/-- `none` where an assertion fails; `getaddrinfo` gives no list for an error. -/
def HostNameToAddress (getaddrinfo : Bytes → Option Bytes → Hints → Option (List Addrinfo))
    (hostname : Bytes) (family protocol : Int) : Option (List Address) := do
  let (node, service) ← query hostname
  let results ← getaddrinfo node service ⟨0, family, 0, protocol⟩
  createAll results

/-! ## How a name is to be split -/

/-- The name begins with a text in brackets that is not empty. -/
def Bracketed (hostname : Bytes) : Prop :=
  ∃ text rest, hostname = 91 :: text ++ 93 :: rest ∧ 93 ∉ text ∧ text ≠ []

structure SplitAs (hostname : Bytes) (pair : Bytes × Option Bytes) : Prop where
  brackets : ∀ text rest, hostname = 91 :: text ++ 93 :: rest → 93 ∉ text → text ≠ [] →
    pair = (text, if rest.head? = some 58 then some rest.tail else none)
  colon : ¬ Bracketed hostname → ∀ front back, hostname = front ++ 58 :: back → front ≠ [] →
    58 ∉ front → 58 ∉ back → pair = (front, some back)
  plain : ¬ Bracketed hostname → hostname.count 58 ≠ 1 → pair = (hostname, none)

/-! ## What the scanners find -/

variable {hostname : Bytes}

theorem bracketScan_eq {text : Bytes} (hclose : 93 ∉ text) (rest : Bytes) :
    bracketScan (91 :: text ++ 93 :: rest) =
      (text, if rest.head? = some 58 then some (text.length + 3) else none) := by
  have hmemory : 91 :: text ++ 93 :: rest ++ [0] = [91] ++ text ++ 93 :: (rest ++ [0]) := by simp
  have hfound : memchr (91 :: text ++ 93 :: rest ++ [0]) 1 93
      ((91 :: text ++ 93 :: rest).length - 1) = some (1 + text.length) := by
    rw [hmemory]
    exact memchr_eq_some rfl hclose (by simp)
  have hnext : (91 :: text ++ 93 :: rest ++ [0])[1 + text.length + 1]? = (rest ++ [0]).head? := by
    have hindex : 1 + text.length + 1 - ([91] ++ text).length = 1 := by simp
    rw [hmemory, List.getElem?_append_right (by simp), hindex]
    cases rest <;> rfl
  have hhead : (rest ++ [0]).head? = some 58 ↔ rest.head? = some 58 := by
    cases rest <;> simp
  have htext : ((91 :: text ++ 93 :: rest).drop 1).take (1 + text.length - 1) = text := by
    rw [Nat.add_sub_cancel_left]
    exact List.take_left
  have hopen : (91 :: text ++ 93 :: rest)[0]? = some 91 := rfl
  simp only [bracketScan]
  rw [if_pos hopen, hfound]
  simp only [htext, hnext, hhead]
  split
  · exact congrArg (fun p => (text, some p)) (by omega)
  · rfl

theorem bracketScan_fst (h : ¬ Bracketed hostname) : (bracketScan hostname).1 = [] := by
  cases hostname with
  | nil => rfl
  | cons x name =>
      by_cases hopen : x = 91
      · subst hopen
        by_cases hclose : 93 ∈ name
        · obtain ⟨text, rest, rfl, htext⟩ := List.eq_append_cons_of_mem hclose
          have hscan := bracketScan_eq htext rest
          rw [List.cons_append] at hscan
          rw [hscan]
          by_contra hne
          exact h ⟨text, rest, rfl, htext, hne⟩
        · have hnone : memchr (91 :: name ++ [0]) 1 93 ((91 :: name).length - 1) = none := by
            apply memchr_eq_none
            simpa using hclose
          have hopen : (91 :: name)[0]? = some 91 := rfl
          simp only [bracketScan]
          rw [if_pos hopen, hnone]
      · simp [bracketScan, hopen]

theorem colonScan_eq {front back : Bytes} (node : Bytes) (hfront : 58 ∉ front) :
    colonScan (front ++ 58 :: back) node =
      if 58 ∈ back then (node, some front.length) else (front, some (front.length + 1)) := by
  have hmemory : front ++ 58 :: back ++ [0] = [] ++ front ++ 58 :: (back ++ [0]) := by simp
  have hfound : memchr (front ++ 58 :: back ++ [0]) 0 58 (front ++ 58 :: back).length =
      some front.length := by
    rw [hmemory, memchr_eq_some (p := 0) rfl hfront (by simp), Nat.zero_add]
  have hrest : (((front ++ 58 :: back ++ [0]).drop (front.length + 1)).take
      ((front ++ 58 :: back).length - front.length - 1)) = back := by
    have hdrop : (front ++ 58 :: back ++ [0]).drop (front.length + 1) = back ++ [0] := by
      rw [← List.drop_drop, List.append_assoc, List.drop_left]
      rfl
    have hlength : (front ++ 58 :: back).length - front.length - 1 = back.length := by
      simp
    rw [hdrop, hlength]
    exact List.take_left
  have hsecond : memchr (front ++ 58 :: back ++ [0]) (front.length + 1) 58
      ((front ++ 58 :: back).length - front.length - 1) = none ↔ 58 ∉ back := by
    simp only [memchr, hrest]
    by_cases hback : 58 ∈ back <;> simp [hback]
  simp only [colonScan, hfound, hsecond]
  by_cases hback : 58 ∈ back <;> simp [hback]

theorem colonScan_none (node : Bytes) (h : 58 ∉ hostname) :
    colonScan hostname node = (node, none) := by
  have hnone : memchr (hostname ++ [0]) 0 58 hostname.length = none := by
    apply memchr_eq_none
    simpa using h
  simp only [colonScan, hnone]

theorem query_of_node (hnode : (bracketScan hostname).1 ≠ []) :
    query hostname = some (cString ((bracketScan hostname).1 ++ [0]) 0,
      (bracketScan hostname).2.map (cString (hostname ++ [0]))) := by
  have hne : hostname ≠ [] := by
    rintro rfl
    exact hnode rfl
  simp [query, hne, hnode]

theorem query_bracketed {text rest : Bytes} (hclose : 93 ∉ text) (hne : text ≠ [])
    (hnul : 0 ∉ 91 :: text ++ 93 :: rest) :
    query (91 :: text ++ 93 :: rest) =
      some (text, if rest.head? = some 58 then some rest.tail else none) := by
  have hscan := bracketScan_eq hclose rest
  have htext : cString (text ++ [0]) 0 = text := cString_append (fun h => hnul (by simp [h])) []
  rw [query_of_node (by rwa [hscan]), hscan, htext]
  cases rest with
  | nil => rfl
  | cons x service =>
      by_cases hcolon : x = 58
      · have hservice : 0 ∉ service := fun h => hnul (by simp [h])
        have hstring := cString_append hservice (91 :: text ++ [93, x])
        simp at hstring
        simp [hcolon ▸ hstring, hcolon]
      · simp [hcolon]

theorem query_unbracketed (hne : hostname ≠ []) (h : ¬ Bracketed hostname) :
    query hostname =
      some (cString ((if (colonScan hostname []).1 = [] then hostname
          else (colonScan hostname []).1) ++ [0]) 0,
        (colonScan hostname []).2.map (cString (hostname ++ [0]))) := by
  have hscan := bracketScan_fst h
  simp [query, hne, hscan]

theorem query_plain (hne : hostname ≠ []) (h : ¬ Bracketed hostname) (hnul : 0 ∉ hostname)
    (hcolon : 58 ∉ hostname) : query hostname = some (hostname, none) := by
  have hnode : cString (hostname ++ [0]) 0 = hostname := cString_append hnul []
  rw [query_unbracketed hne h, colonScan_none [] hcolon]
  simp [hnode]

theorem query_colon {front back : Bytes} (h : ¬ Bracketed (front ++ 58 :: back))
    (hnul : 0 ∉ front ++ 58 :: back) (hfront : 58 ∉ front) (hne : front ≠ []) (hback : 58 ∉ back) :
    query (front ++ 58 :: back) = some (front, some back) := by
  have hnode : cString (front ++ [0]) 0 = front :=
    cString_append (fun h => hnul (by simp [h])) []
  have hrest : 0 ∉ back := fun h => hnul (by simp [h])
  have hservice := cString_append hrest (front ++ [58])
  simp at hservice
  rw [query_unbracketed (by simp) h, colonScan_eq [] hfront, if_neg hback]
  simp [hne, hnode, hservice]

/-- With a second colon, the service is left at the first one. -/
theorem query_colons {front back : Bytes} (h : ¬ Bracketed (front ++ 58 :: back))
    (hnul : 0 ∉ front ++ 58 :: back) (hfront : 58 ∉ front) (hback : 58 ∈ back) :
    query (front ++ 58 :: back) = some (front ++ 58 :: back, some (58 :: back)) := by
  have hnode : cString (front ++ 58 :: back ++ [0]) 0 = front ++ 58 :: back :=
    cString_append hnul []
  have hrest : 0 ∉ 58 :: back := fun h => hnul (List.mem_append_right _ h)
  have hservice := cString_append hrest front
  rw [query_unbracketed (by simp) h, colonScan_eq [] hfront, if_pos hback]
  simp only [if_true, hnode, Option.map_some, hservice]

/-! ## When the name is split right -/

theorem bracketed_unique {text rest text' rest' : Bytes} (hclose : 93 ∉ text)
    (hclose' : 93 ∉ text') (h : 91 :: text ++ 93 :: rest = 91 :: text' ++ 93 :: rest') :
    text = text' ∧ rest = rest' :=
  (append_cons_inj hclose hclose').mp (List.cons.inj h).2

theorem splitAs_bracketed {text rest : Bytes} (hclose : 93 ∉ text) (hne : text ≠ []) :
    SplitAs (91 :: text ++ 93 :: rest)
      (text, if rest.head? = some 58 then some rest.tail else none) := by
  have hbracketed : Bracketed (91 :: text ++ 93 :: rest) := ⟨text, rest, rfl, hclose, hne⟩
  refine ⟨?_, fun h => absurd hbracketed h, fun h => absurd hbracketed h⟩
  intro text' rest' heq hclose' _
  obtain ⟨rfl, rfl⟩ := bracketed_unique hclose hclose' heq
  rfl

theorem splitAs_plain (h : 58 ∉ hostname) (hbracketed : ¬ Bracketed hostname) :
    SplitAs hostname (hostname, none) := by
  refine ⟨?_, ?_, fun _ _ => rfl⟩
  · intro text rest heq hclose hne
    exact absurd ⟨text, rest, heq, hclose, hne⟩ hbracketed
  · rintro - front back rfl
    exact absurd (by simp) h

theorem splitAs_colon {front back : Bytes} (hfront : 58 ∉ front) (hback : 58 ∉ back)
    (hbracketed : ¬ Bracketed (front ++ 58 :: back)) {pair : Bytes × Option Bytes}
    (hpair : front ≠ [] → pair = (front, some back)) : SplitAs (front ++ 58 :: back) pair := by
  refine ⟨?_, ?_, ?_⟩
  · intro text rest heq hclose hne
    exact absurd ⟨text, rest, heq, hclose, hne⟩ hbracketed
  · intro _ front' back' heq hne hfront' _
    obtain ⟨rfl, rfl⟩ := (append_cons_inj hfront hfront').mp heq
    exact hpair hne
  · intro _ hcount
    simp [List.count_append, List.count_eq_zero_of_not_mem hfront,
      List.count_eq_zero_of_not_mem hback] at hcount

/-- A name is split right exactly when it is in brackets or has no second colon. -/
theorem split_iff (hne : hostname ≠ []) (hnul : 0 ∉ hostname) :
    (∃ pair, query hostname = some pair ∧ SplitAs hostname pair) ↔
      Bracketed hostname ∨ hostname.count 58 ≤ 1 := by
  by_cases hbracketed : Bracketed hostname
  · obtain ⟨text, rest, rfl, hclose, htext⟩ := hbracketed
    refine iff_of_true ?_ (Or.inl ⟨text, rest, rfl, hclose, htext⟩)
    exact ⟨_, query_bracketed hclose htext hnul, splitAs_bracketed hclose htext⟩
  · by_cases hcolon : 58 ∈ hostname
    · obtain ⟨front, back, rfl, hfront⟩ := List.eq_append_cons_of_mem hcolon
      have hcount : (front ++ 58 :: back).count 58 = back.count 58 + 1 := by
        rw [List.count_append, List.count_eq_zero_of_not_mem hfront, List.count_cons_self,
          Nat.zero_add]
      by_cases hback : 58 ∈ back
      · have htwo : 0 < back.count 58 := List.count_pos_iff.mpr hback
        refine iff_of_false ?_ ?_
        · rintro ⟨pair, hquery, hsplit⟩
          rw [query_colons hbracketed hnul hfront hback] at hquery
          have hplain := hsplit.plain hbracketed (by omega)
          rw [← Option.some.inj hquery] at hplain
          cases hplain
        · rintro (h | h)
          · exact hbracketed h
          · omega
      · refine iff_of_true ?_ (Or.inr ?_)
        · by_cases hfirst : front = []
          · refine ⟨_, query_unbracketed hne hbracketed, splitAs_colon hfront hback hbracketed ?_⟩
            exact fun h => absurd hfirst h
          · exact ⟨_, query_colon hbracketed hnul hfront hfirst hback,
              splitAs_colon hfront hback hbracketed fun _ => rfl⟩
        · rw [hcount, List.count_eq_zero_of_not_mem hback]
    · refine iff_of_true ?_ (Or.inr ?_)
      · exact ⟨_, query_plain hne hbracketed hnul hcolon, splitAs_plain hcolon hbracketed⟩
      · rw [List.count_eq_zero_of_not_mem hcolon]
        exact Nat.zero_le 1

theorem split_port :
    (∃ pair, query (ascii "[::1]:80") = some pair ∧ SplitAs (ascii "[::1]:80") pair) ↔
      Bracketed (ascii "[::1]:80") ∨ (ascii "[::1]:80").count 58 ≤ 1 :=
  split_iff (by decide) (by decide)

/-- An IPv6 address without brackets is asked for with itself as the service. -/
theorem split_leaks :
    query (ascii "::1") = some (ascii "::1", some (ascii "::1")) ∧
      ¬ ∃ pair, query (ascii "::1") = some pair ∧ SplitAs (ascii "::1") pair := by
  have hquery : query (ascii "::1") = some (ascii "::1", some (ascii "::1")) := by decide
  refine ⟨hquery, ?_⟩
  rintro ⟨pair, hpair, hsplit⟩
  obtain rfl := Option.some.inj (hquery.symm.trans hpair)
  have hbracketed : ¬ Bracketed (ascii "::1") := by
    rintro ⟨text, rest, heq, -, -⟩
    cases heq
  cases hsplit.plain hbracketed (by decide)

end Qslary.Addresses

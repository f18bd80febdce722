import Qslary.Http.HeaderReads

/-!
# Behind a header that is not final

Three empty fields at the end of a header lead to states from which the parser does not finish,
and the loop takes what is behind the header for more of it.  If it gets through after all,
then at the end of a line.
-/

namespace Qslary.Http

open Qslary.Foundation Response

/-- The edges that stop, and those into the final state. -/
theorem stop_checks :
    ((List.range 124).all fun q => (row q).all fun arc =>
      (!arc.actions.contains .headerDone || decide (arc.bytes = [(10, 10)])) &&
        (decide (arc.target ≠ 120) || arc.actions.contains .headerDone)) = true := by
  decide +kernel

theorem lineEnd_of_stops {q : Nat} {x : UInt8} {edge : Edge Nat Action}
    (hnext : next q x = some edge) :
    (edge.stops = true → x = 10) ∧ (edge.stops = false → edge.target ≠ 120) := by
  unfold next at hnext
  obtain ⟨arc, harc, hbyte, rfl⟩ := mem_of_follow hnext
  have hlt : q < 124 := by
    by_contra hge
    have hnone : table[q]? = none := List.getElem?_eq_none (Nat.not_lt.mp hge)
    rw [row, hnone] at harc
    cases harc
  have hcheck := List.all_eq_true.mp
    (List.all_eq_true.mp stop_checks q (List.mem_range.mpr hlt)) arc harc
  simp only [Bool.and_eq_true, Bool.or_eq_true, Bool.not_eq_true', decide_eq_true_eq] at hcheck
  refine ⟨fun hstops => ?_, fun hstops => ?_⟩
  · have hdone : arc.actions.contains .headerDone = true := hstops
    have hbytes := hcheck.1.resolve_left (by rw [hdone]; decide)
    simp only [hbytes, within, List.any_cons, List.any_nil, Bool.or_false, Bool.and_eq_true,
      decide_eq_true_eq] at hbyte
    exact UInt8.toNat_inj.mp (Nat.le_antisymm hbyte.2 hbyte.1)
  · have hdone : arc.actions.contains .headerDone = false := hstops
    exact hcheck.2.resolve_right (by rw [hdone]; decide)

theorem take_succ_of_split {data xs : Bytes} {p : Nat} {x : UInt8}
    (hsplit : data.take p ++ x :: xs = data) (hlength : p + (x :: xs).length = data.length) :
    data.take (p + 1) = data.take p ++ [x] := by
  have hp : (data.take p).length = p := List.length_take_of_le (by omega)
  have htake := congrArg (List.take (p + 1)) hsplit
  rw [List.take_append, hp, List.take_take, Nat.min_eq_right (Nat.le_succ p),
    Nat.add_sub_cancel_left] at htake
  exact htake.symm

namespace HttpResponseParser

variable {buffer data : Bytes} {p n : Nat} {parser start after : HttpResponseParser}
  {action : Action}

theorem chunked_perform (h : parser.perform buffer p action = .ok after)
    (hchunked : parser.parser.chunked = true) : after.parser.chunked = true := by
  cases action with
  | chunkSize | chunked =>
      cases h
      rfl
  | mark | fieldStart | fieldLen | contentLen | connClose | statusCode | headerDone =>
      cases h
      exact hchunked
  | httpVersion =>
      simp only [perform, onResponseVersion, Except.ok.injEq] at h
      subst h
      split
      · exact hchunked
      · exact hchunked
  | reasonPhrase =>
      obtain ⟨text, -, h⟩ := bind_eq_ok.mp h
      cases h
      exact hchunked
  | httpField =>
      simp only [perform, onResponseHttpField] at h
      split at h
      · cases h
        exact hchunked
      · obtain ⟨key, -, h⟩ := bind_eq_ok.mp h
        obtain ⟨text, -, h⟩ := bind_eq_ok.mp h
        cases h
        exact hchunked

theorem nparse_le {chunck : Bool} (h : start.execute data chunck = .ok (after, n)) :
    n ≤ data.length := by
  obtain ⟨parser, hstate, -, -, hn⟩ := execute_cases h
  generalize (if chunck then start.set .init else start) = first at hstate hn
  have hseen := (position_of_halt next (act data) first.parser.cs 0 data
    (.ok (first.set first.parser.rewind))).1
  rw [Nat.zero_add] at hseen
  rw [hn, nread_run hstate, Nat.zero_add]
  exact hseen

/-- A call that finishes has taken the bytes up to the end of a line. -/
theorem exists_of_finished (hdata : data ≠ []) (h : start.execute data false = .ok (after, n))
    (hfinal : after.parser.cs = 120) : ∃ front, data.take n = front ++ [10] := by
  obtain ⟨parser, hstate, -, hcs, hn⟩ := execute_cases h
  rw [if_neg (by decide)] at hstate hcs hn
  rw [nread_run hstate, Nat.zero_add] at hn
  have hscan := scan_invariant next (act data)
    (fun q p rest _ => data.take p ++ rest = data ∧ p + rest.length = data.length ∧
      (q = 120 → rest ≠ []))
    (fun halt p _ => HttpParser.haltState halt = 120 → ∃ front, data.take p = front ++ [10])
  rw [hn]
  refine hscan ?_ ?_ ?_ ?_ ⟨rfl, Nat.zero_add _, fun _ => hdata⟩ (hcs.symm.trans hfinal)
  · exact fun q p state hall hq => absurd rfl (hall.2.2 hq)
  · exact fun q p x xs state _ _ => nofun
  · intro q p x xs edge state hnext hstops hall _
    refine ⟨data.take p, ?_⟩
    rw [← (lineEnd_of_stops hnext).1 hstops]
    exact take_succ_of_split hall.1 hall.2.1
  · intro q p x xs edge state hnext hstops hall
    have htake := take_succ_of_split hall.1 hall.2.1
    have hlength := hall.2.1
    rw [List.length_cons] at hlength
    refine ⟨?_, by omega, fun hq => absurd hq ((lineEnd_of_stops hnext).2 hstops)⟩
    rw [htake, List.append_assoc]
    exact hall.1

theorem chunked_run (hchunked : start.parser.chunked = true)
    (h : (start.run data).state = .ok parser) : parser.parser.chunked = true := by
  refine scan_kept (I := fun _ => True) (P := fun state => state.parser.chunked = true) ?_ trivial
    ?_ h
  · exact fun q x edge _ _ =>
      ⟨trivial, fun action _ p before after hperform => chunked_perform hperform⟩
  · exact hchunked

theorem chunked_execute (h : start.execute data false = .ok (after, n))
    (hchunked : start.parser.chunked = true) : after.parser.chunked = true := by
  rw [execute, if_neg (by decide : ¬ false = true)] at h
  split at h
  · cases h
  · obtain ⟨parser, hstate, h⟩ := bind_eq_ok.mp h
    dsimp only at h
    split at h
    · cases h
      have hkept := chunked_run hchunked hstate
      exact hkept
    · cases h

end HttpResponseParser

namespace HttpConnection

variable {parser parser' : HttpResponseParser} {text data data' : Bytes} {held fuel : Nat}
  {a : Arrivals} {s s' : Pieces}

/-- A read behind what the buffer holds. -/
theorem stands_read (hstands : Pieces.Stands text held a data s) {x : UInt8} {bytes : Bytes}
    (hread : s.read (buffSize - data.length) = (x :: bytes, s')) :
    Pieces.Stands text (data ++ x :: bytes).length s'.arrivals (data ++ x :: bytes) s' := by
  obtain ⟨hbytes, -, -, hconnected, hfits⟩ := hstands
  have hle := Arrivals.reach_le s.ends (buffSize - data.length) s.input.length
  change s.arrivals.read (buffSize - data.length) ≤ _ ∧ _ at hle
  rw [Pieces.read_eq hconnected] at hread
  obtain ⟨htake, rfl⟩ := Prod.mk.inj hread
  refine ⟨?_, rfl, rfl, hconnected, ?_⟩
  · rw [← htake, List.append_assoc, Pieces.after, List.take_append_drop]
    exact hbytes
  · rw [← htake, List.length_append, List.length_take]
    omega

/-- Wherever the loop goes on, it gets through at the end of a line. -/
theorem recvHeader_overrun (hstands : Pieces.Stands text held a data s)
    (hchunked : parser.parser.chunked = true)
    (h : recvHeader fuel parser data s = .ok (some (parser', data'), s')) :
    parser'.parser.chunked = true ∧ parser'.error = 0 ∧
      ∃ front rest, text = front ++ 10 :: rest ∧
        Pieces.Stands rest data'.length s'.arrivals data' s' := by
  induction fuel generalizing parser text held a data s with
  | zero => cases h
  | succ fuel ih =>
      rw [recvHeader] at h
      cases hread : s.read (buffSize - data.length) with
      | mk bytes s₁ =>
          rw [hread] at h
          cases bytes with
          | nil => cases h
          | cons x bytes =>
              have hthere := stands_read hstands hread
              obtain ⟨⟨after, n⟩, hmapped, h⟩ := bind_eq_ok.mp h
              have hexecute := execute_of_mapError hmapped
              have hkept := HttpResponseParser.chunked_execute hexecute hchunked
              have hn := HttpResponseParser.nparse_le hexecute
              dsimp only at h
              split at h
              · cases h
              rename_i hsound
              split at h
              · cases h
              split at h
              · rename_i hfinished
                cases h
                have hfinal := (isFinished_ne_zero_iff hsound).2.mp hfinished
                obtain ⟨front, hfront⟩ :=
                  HttpResponseParser.exists_of_finished (by simp) hexecute hfinal
                have hdrop := hthere.drop hn
                rw [← List.length_drop] at hdrop
                refine ⟨hkept, ?_, front, text.drop n, ?_, hdrop⟩
                · by_contra herror
                  exact hsound ((hasError_iff _).mpr (Or.inl herror))
                · have htake : text.take n = front ++ [10] := by
                    rw [← hthere.bytes, List.take_append_of_le_length hn, hfront]
                  have hsplit := List.take_append_drop n text
                  rw [htake, List.append_assoc] at hsplit
                  exact hsplit.symm
              · obtain ⟨hchunked', herror', front, rest, hrest, hstands'⟩ :=
                  ih (hthere.drop hn) hkept h
                refine ⟨hchunked', herror', text.take n ++ front, rest, ?_, hstands'⟩
                rw [List.append_assoc, ← hrest, List.take_append_drop]

end HttpConnection

end Qslary.Http

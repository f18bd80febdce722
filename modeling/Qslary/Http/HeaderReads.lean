import Qslary.Http.Arrivals
import Qslary.Http.HeaderCalls

/-!
# Reading a header

The loop calls the parser on what every read returns.  It gets through a header that
announces chunks if the call with the space behind the version has all of the version, or
none of it.
-/

namespace Qslary.Http

open Qslary.Foundation Response

namespace HttpConnection

variable {parser : HttpResponseParser} {version behind rest data text : Bytes} {fuel j last : Nat}
  {a : Arrivals} {s : Pieces} {w : Watch}

/-! ## Behind the version -/

/-- The loop behind a header, after a call that ends in the state `last`, and what of the stream is
left. -/
def HeaderDone (last : Nat) (rest : Bytes) (l : Line)
    (result : Except Crash (Option (HttpResponseParser × Bytes) × Pieces)) : Prop :=
  ∃ fuel parser data s, result = settled (recvHeader fuel) parser data s ∧
    parser.parser.cs = last ∧ parser.parser.chunked = true ∧ parser.error = 0 ∧
    Pieces.Stands rest l.held l.arrivals data s

/-- The call with the last of a header. -/
theorem headerDone_of_settled
    (hstands : Pieces.Stands (text ++ rest) data.length s.arrivals data s)
    (hle : text.length ≤ data.length) (herror : parser.error = 0) (hcs : parser.parser.cs = last)
    (hchunked : parser.parser.chunked = true) :
    HeaderDone last rest (Arrivals.line text.length 0 data.length s.arrivals)
      (settled (recvHeader fuel) parser (data.drop text.length) s) := by
  refine ⟨fuel, parser, data.drop text.length, s, rfl, hcs, hchunked, herror, ?_⟩
  have hdrop := hstands.drop hle
  rw [List.drop_left] at hdrop
  rw [Arrivals.line_of_le hle]
  exact hdrop

/-- The loop from behind the version on. -/
theorem recvHeader_behind (hversion : HttpResponseParser.behindVersion parser.parser.cs = true)
    (herror : parser.error = 0) (hbody : parser.parser.bodyStart = 0)
    (hchunked : parser.parser.chunked = w.announced) (h : w.Completes parser.parser.cs text last)
    (hstands : Pieces.Stands (text ++ rest) 0 a [] s) (hfuel : text.length ≤ fuel) :
    HeaderDone last rest (Arrivals.line text.length 0 0 a) (recvHeader fuel parser [] s) := by
  induction fuel generalizing parser w text a s with
  | zero => exact absurd (List.eq_nil_of_length_eq_zero (Nat.le_zero.mp hfuel)) h.ne_nil
  | succ fuel ih =>
      have hlength := List.length_pos_iff.mpr h.ne_nil
      have hne : text ++ rest ≠ [] := by
        rw [ne_eq, List.append_eq_nil_iff, not_and_or]
        exact Or.inl h.ne_nil
      obtain ⟨data, s', hfill, hdata, hthere, hline⟩ := hstands.fill hne false (Or.inr rfl)
      have hpos := List.length_pos_iff.mpr hdata
      have hbuff : buffSize = 65532 := rfl
      have hfits := hthere.fits
      rw [hline _ hlength]
      rcases Nat.lt_or_ge data.length text.length with hlt | hge
      · -- The call takes all that is there.
        obtain ⟨back, rfl⟩ : ∃ back, text = data ++ back := by
          have hprefix : data <+: text ++ rest := ⟨s'.input, hthere.bytes⟩
          exact (List.prefix_of_prefix_length_le hprefix (List.prefix_append text rest) hlt.le).imp
            fun _ h => h.symm
        rw [List.length_append] at hlt hfuel
        have hback : back ≠ [] := List.length_pos_iff.mp (by omega)
        obtain ⟨mid, after, w', hstate, hhalt, hexecute, hsame, hbody', hchunked', hrest⟩ :=
          HttpResponseParser.execute_front hdata hback (by omega) hbody hchunked h
        have herror' : after.error = 0 := by
          rw [hsame, HttpResponseParser.error_behindVersion hversion hstate]
          exact herror
        have hopen := hrest.open_state
        have hnext := hthere.drop (Nat.le_refl data.length)
        rw [List.drop_length, List.append_assoc, List.drop_left, Nat.sub_self] at hnext
        rw [recvHeader_onward hfill hexecute herror' hopen, List.length_append,
          Arrivals.line_of_lt (by omega), Nat.add_sub_cancel_left]
        exact ih (HttpResponseParser.behindVersion_of_ended hversion hhalt) herror' hbody' hchunked'
          hrest hnext (by omega)
      · obtain ⟨tail, rfl⟩ : ∃ tail, data = text ++ tail := by
          have hprefix : data <+: text ++ rest := ⟨s'.input, hthere.bytes⟩
          exact (List.prefix_of_prefix_length_le (List.prefix_append text rest) hprefix hge).imp
            fun _ h => h.symm
        obtain ⟨mid, after, hstate, hexecute, hsame, hcs, hannounced⟩ :=
          @HttpResponseParser.execute_last parser w last text tail (by omega) hbody hchunked h
        have herror' : after.error = 0 := by
          rw [hsame, HttpResponseParser.error_behindVersion hversion hstate]
          exact herror
        have hdrop : ((text ++ tail).drop text.length).length < buffSize := by
          rw [List.length_drop]
          omega
        rw [recvHeader_turn hfill hexecute hdrop]
        exact headerDone_of_settled hthere hge herror' hcs hannounced

/-! ## The version -/

/-- A turn of the loop with all that is left of the version and the space behind it. -/
theorem recvHeader_space {tail : Bytes} {s' : Pieces}
    (hversion : version ∈ HttpResponseParser.versions)
    (hj : j ≤ 8) (hcs : parser.parser.cs = HttpResponseParser.versionStates.getD j 0)
    (herror : parser.error = 0) (hbody : parser.parser.bodyStart = 0)
    (hchunked : parser.parser.chunked = w.announced)
    (h : w.Completes parser.parser.cs (version.drop j ++ 32 :: behind) last)
    (hfill : fill false [] s = (some (version.drop j ++ 32 :: tail), s'))
    (hstands : Pieces.Stands ((version.drop j ++ 32 :: behind) ++ rest)
      (version.drop j ++ 32 :: tail).length s'.arrivals (version.drop j ++ 32 :: tail) s')
    (hfuel : (version.drop j ++ 32 :: behind).length ≤ fuel + 1) :
    if j = 0 ∨ j = 8 then
      HeaderDone last rest (Arrivals.line (version.drop j ++ 32 :: behind).length 0
        (version.drop j ++ 32 :: tail).length s'.arrivals) (recvHeader (fuel + 1) parser [] s)
    else ∃ s', recvHeader (fuel + 1) parser [] s = .ok (none, s') := by
  have hbuff : buffSize = 65532 := rfl
  have hfits := hstands.fits
  have hrun := HttpResponseParser.run_version hversion hj hcs tail
  have hfound : ∀ mid, (parser.run (version.drop j ++ 32 :: tail)).state = .ok mid →
      (mid.error = 0 ↔ j = 0 ∨ j = 8) :=
    fun mid hmid => HttpResponseParser.error_of_version hversion hj hcs herror hmid
  have hdata : version.drop j ++ 32 :: tail ≠ [] := by simp
  generalize version.drop j ++ 32 :: tail = data at *
  generalize version.drop j ++ 32 :: behind = text at *
  have hpos := List.length_pos_iff.mpr hdata
  have hdrop : ∀ n, 0 < n → (data.drop n).length < buffSize := by
    intro n hn
    rw [List.length_drop]
    omega
  rcases Nat.lt_or_ge data.length text.length with hlt | hge
  · obtain ⟨back, rfl⟩ := append_of_prefix_le hstands.bytes hlt.le
    rw [List.length_append] at hlt hfuel
    have hback : back ≠ [] := List.length_pos_iff.mp (by omega)
    obtain ⟨mid, after, w', hstate, hhalt, hexecute, hsame, hbody', hchunked', hrest⟩ :=
      HttpResponseParser.execute_front hdata hback (by omega) hbody hchunked h
    split
    · rename_i hgood
      have herror' : after.error = 0 := hsame.trans ((hfound mid hstate).mpr hgood)
      have hbehind : HttpResponseParser.behindVersion after.parser.cs = true := by
        rw [hrun] at hhalt
        exact HttpResponseParser.behindVersion_of_ended rfl hhalt
      have hopen := hrest.open_state
      have hnext := hstands.drop (Nat.le_refl data.length)
      rw [List.drop_length, List.append_assoc, List.drop_left, Nat.sub_self] at hnext
      rw [recvHeader_onward hfill hexecute herror' hopen, List.length_append,
        Arrivals.line_of_lt (by omega), Nat.add_sub_cancel_left]
      exact recvHeader_behind hbehind herror' hbody' hchunked' hrest hnext (by omega)
    · rename_i hbad
      have herror' : after.error ≠ 0 := by
        rw [hsame]
        exact fun hzero => hbad ((hfound mid hstate).mp hzero)
      rw [recvHeader_turn hfill hexecute (hdrop _ hpos)]
      exact ⟨_, settled_error (Or.inl herror')⟩
  · obtain ⟨between, rfl⟩ := append_of_prefix_le hstands.bytes.symm hge
    obtain ⟨mid, after, hstate, hexecute, hsame, hcs', hannounced⟩ :=
      @HttpResponseParser.execute_last parser w last text between (by omega) hbody hchunked h
    rw [recvHeader_turn hfill hexecute (hdrop _ (List.length_pos_iff.mpr h.ne_nil))]
    split
    · rename_i hgood
      have herror' : after.error = 0 := hsame.trans ((hfound mid hstate).mpr hgood)
      exact headerDone_of_settled hstands hge herror' hcs' hannounced
    · rename_i hbad
      have herror' : after.error ≠ 0 := by
        rw [hsame]
        exact fun hzero => hbad ((hfound mid hstate).mp hzero)
      exact ⟨_, settled_error (Or.inl herror')⟩

/-- The loop from byte `j` of the version on. -/
theorem recvHeader_version (hversion : version ∈ HttpResponseParser.versions)
    (hj : j ≤ 8) (hcs : parser.parser.cs = HttpResponseParser.versionStates.getD j 0)
    (herror : parser.error = 0) (hbody : parser.parser.bodyStart = 0)
    (hchunked : parser.parser.chunked = w.announced)
    (h : w.Completes parser.parser.cs (version.drop j ++ 32 :: behind) last)
    (hstands : Pieces.Stands ((version.drop j ++ 32 :: behind) ++ rest) 0 a [] s)
    (hfuel : (version.drop j ++ 32 :: behind).length ≤ fuel) :
    if (Arrivals.line (9 - j) 0 0 a).seen ∈ [1, 9] then
      HeaderDone last rest (Arrivals.line (version.drop j ++ 32 :: behind).length 0 0 a)
        (recvHeader fuel parser [] s)
    else ∃ s', recvHeader fuel parser [] s = .ok (none, s') := by
  induction fuel generalizing parser j w a s with
  | zero => exact absurd (List.eq_nil_of_length_eq_zero (Nat.le_zero.mp hfuel)) h.ne_nil
  | succ fuel ih =>
      have hlength := HttpResponseParser.length_version hversion
      have hleft : (version.drop j).length = 8 - j := by rw [List.length_drop, hlength]
      have hbuff : buffSize = 65532 := rfl
      have hne : (version.drop j ++ 32 :: behind) ++ rest ≠ [] := by simp
      obtain ⟨data, s', hfill, hdata, hthere, hline⟩ := hstands.fill hne false (Or.inr rfl)
      have hpos := List.length_pos_iff.mpr hdata
      have hfits := hthere.fits
      have hbytes := hthere.bytes
      rw [List.append_assoc] at hbytes
      rw [hline (9 - j) (by omega), hline _ (List.length_pos_iff.mpr h.ne_nil)]
      rcases Nat.lt_or_ge data.length (9 - j) with hlt | hge
      · -- The version goes on behind the call.
        obtain ⟨back, hback⟩ := append_of_prefix_le hbytes (by omega)
        have hsplit : data = (version.drop j).take data.length := by
          rw [hback, List.take_left]
        have hrest : back = version.drop (j + data.length) := by
          rw [← List.drop_drop, hback, List.drop_left]
        have hgoes : (w.Completes parser.parser.cs (data ++ (back ++ 32 :: behind)) last) := by
          rw [← List.append_assoc, ← hback]
          exact h
        obtain ⟨mid, after, w', hstate, hhalt, hexecute, hsame, hbody', hchunked', hcompletes⟩ :=
          HttpResponseParser.execute_front hdata (by simp) (by omega) hbody hchunked hgoes
        have hrun : parser.run data = ⟨.ended (HttpResponseParser.versionStates.getD
            (j + data.length) 0), data.length, .ok (parser.set parser.parser.rewind)⟩ := by
          have hscan := HttpResponseParser.scan_version (parser.set parser.parser.rewind) data
            hversion rfl (by omega : j + data.length ≤ 8)
          rw [← hsplit, ← hcs] at hscan
          exact hscan
        rw [hrun] at hstate hhalt
        cases hstate
        have hcs' : after.parser.cs = _ := (Halt.ended.inj hhalt).symm
        have herror' : after.error = 0 := hsame.trans herror
        have hopen := hcompletes.open_state
        have hnext := hthere.drop (Nat.le_refl data.length)
        rw [List.drop_length, hback, List.append_assoc, List.append_assoc, List.drop_left,
          Nat.sub_self, ← List.append_assoc, hrest] at hnext
        rw [hrest] at hcompletes
        have hlonger : data.length < (version.drop j ++ 32 :: behind).length := by
          rw [List.length_append, List.length_cons]
          omega
        have hminus : 9 - j - data.length = 9 - (j + data.length) := by omega
        have hlen : (version.drop j ++ 32 :: behind).length - data.length =
            (version.drop (j + data.length) ++ 32 :: behind).length := by
          rw [List.length_append, List.length_append, List.length_drop, List.length_drop]
          omega
        rw [recvHeader_onward hfill hexecute herror' hopen, Arrivals.line_of_lt hlt, hminus,
          Arrivals.line_of_lt hlonger, hlen]
        refine ih (by omega) hcs' herror' hbody' hchunked' hcompletes hnext ?_
        rw [← hlen]
        omega
      · obtain ⟨tail, rfl⟩ : ∃ tail, data = version.drop j ++ 32 :: tail := by
          obtain ⟨between, rfl⟩ := append_of_prefix_le hbytes.symm (by omega)
          rw [List.append_assoc, List.append_cancel_left_eq] at hbytes
          rw [List.length_append] at hge
          cases between with
          | nil => exact absurd hge (by simp [hleft]; omega)
          | cons x tail =>
              obtain ⟨rfl, -⟩ := List.cons.inj hbytes
              exact ⟨tail, rfl⟩
        have hspace := recvHeader_space hversion hj hcs herror hbody hchunked h hfill hthere hfuel
        have hseen : (Arrivals.line (9 - j) 0 (version.drop j ++ 32 :: tail).length
            s'.arrivals).seen = 9 - j := by
          rw [Arrivals.line_of_le hge, Nat.zero_add]
        have hiff : 9 - j ∈ [1, 9] ↔ j = 0 ∨ j = 8 := by
          simp only [List.mem_cons, List.not_mem_nil, or_false]
          omega
        rw [hseen]
        simp only [hiff]
        exact hspace

end HttpConnection

end Qslary.Http

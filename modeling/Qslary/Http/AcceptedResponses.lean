import Qslary.Http.AcceptedRequests
import Qslary.Http.Receiving

/-!
# Responses that are accepted

Of a response that is handed on, no value and no reason goes on behind a line end.  A name
may: a register can be left over from another field.
-/

namespace Qslary.Http

open Qslary.Foundation

namespace Response

def lineEnd : List (Nat × Nat) := [(10, 10), (13, 13)]

def newline : List (Nat × Nat) := [(10, 10)]

/-- The parts that end at the current byte, in front of any line end. -/
structure Kept where
  value : Bool
  reason : Bool

namespace Kept

def perform (k : Kept) : Action → Option Kept
  | .mark => some ⟨true, true⟩
  | .httpField => if k.value then some k else none
  | .reasonPhrase => if k.reason then some k else none
  | .fieldStart | .fieldLen | .contentLen | .connClose | .statusCode | .httpVersion | .chunkSize
  | .chunked | .headerDone => some k

def pass (k : Kept) (byte : UInt8) : Kept where
  value := k.value && Outside lineEnd byte
  reason := k.reason && Outside newline byte

def le (k l : Kept) : Bool := (!k.value || l.value) && (!k.reason || l.reason)

end Kept

def kept (cs : Nat) : Kept where
  value := within [(7, 7), (23, 23), (64, 70), (73, 79), (81, 87), (96, 100), (115, 115),
    (117, 117), (119, 119)] cs
  reason := cs = 19

def keeps (arc : Arc Action) (cs : Nat) : Bool :=
  match arc.actions.foldlM Kept.perform (kept cs) with
  | none => false
  | some k => arc.actions.contains .headerDone || (kept arc.target).le k

/-- An edge for a line end leads away from the parts that it is not in. -/
def leaves (cs : Nat) : Bool :=
  everyByte lineEnd fun byte =>
    match next cs byte with
    | none => true
    | some edge =>
        edge.stops || (kept edge.target).le ⟨Outside lineEnd byte, Outside newline byte⟩

theorem table_keeps : (table.zipIdx.all fun row =>
    leaves row.2 && row.1.all fun arc => keeps arc row.2) = true := by
  decide +kernel

theorem disciplined_kept {cs : Nat} {byte : UInt8} {edge : Edge Nat Action}
    (h : next cs byte = some edge) :
    ∃ k, edge.actions.foldlM Kept.perform (kept cs) = some k ∧
      (edge.stops = false → (kept edge.target).le (k.pass byte) = true) := by
  have hnext := h
  unfold next row at h
  obtain ⟨arc, hmem, -, rfl⟩ := mem_of_follow h
  cases hrow : table[cs]? with
  | none =>
      rw [hrow] at hmem
      cases hmem
  | some row =>
      rw [hrow, Option.getD_some] at hmem
      have hrows := List.all_eq_true.mp table_keeps (row, cs) (List.mem_zipIdx_iff_getElem?.mpr hrow)
      obtain ⟨hleaves, harcs⟩ := Bool.and_eq_true_iff.mp hrows
      have hkeeps := List.all_eq_true.mp harcs arc hmem
      unfold keeps at hkeeps
      cases hfold : arc.actions.foldlM Kept.perform (kept cs) with
      | none => simp [hfold] at hkeeps
      | some k =>
          refine ⟨k, rfl, fun hstops => ?_⟩
          dsimp only at hstops
          have hout : (kept arc.target).le ⟨Outside lineEnd byte, Outside newline byte⟩ = true := by
            by_cases hend : within lineEnd byte.toNat = true
            · have hleave := of_everyByte hleaves hend
              simpa only [hnext, hstops, Bool.false_or] using hleave
            · have hline : Outside lineEnd byte := Bool.eq_false_of_not_eq_true hend
              have hnew : Outside newline byte := by
                simp only [Outside, within, lineEnd, newline, List.any_cons, List.any_nil,
                  Bool.or_false, Bool.or_eq_false_iff] at hline ⊢
                exact hline.1
              simp [Kept.le, hline, hnew]
          simp only [hfold, Kept.le, Bool.and_eq_true, Bool.or_eq_true, hstops] at hkeeps hout
          simp only [Kept.le, Kept.pass, Bool.and_eq_true, Bool.or_eq_true]
          grind

def facts : Facts next Kept where
  known := kept
  perform := Kept.perform
  pass := Kept.pass
  le k l := k.le l = true
  disciplined := disciplined_kept

end Response

structure HttpResponse.WellFormed (rsp : HttpResponse) : Prop where
  version : rsp.version ∈ [0, 0x10, 0x11]
  reason : Free Response.newline rsp.reason
  headers : ∀ entry ∈ rsp.headers.entries, Free Response.lineEnd entry.2

/-- What the mark cuts out in front of the byte at `p`. -/
structure Response.Kept.Holds (buffer : Bytes) (k : Kept) (p : Nat) (s : HttpResponseParser) :
    Prop where
  value : k.value = true → Over (Outside lineEnd) buffer s.parser.mark p
  reason : k.reason = true → Over (Outside newline) buffer s.parser.mark p
  data : s.data.WellFormed

section

open Response

variable {buffer : Bytes} {p : Nat} {s t : HttpResponseParser} {k l : Response.Kept}

theorem HttpResponse.wellFormed_new : HttpResponse.new.WellFormed :=
  ⟨by decide, nofun, nofun⟩

theorem Response.Kept.Holds.perform (hshort : buffer.length < 2 ^ 31) {action : Response.Action}
    (hl : k.perform action = some l) (h : k.Holds buffer p s)
    (ht : s.perform buffer p action = .ok t) : l.Holds buffer p t := by
  have hhere : ∀ bytes, Over (Outside bytes) buffer p p := fun bytes => over_of_le (Nat.le_refl p)
  cases action with
  | mark =>
      cases hl
      cases ht
      exact ⟨fun _ => hhere _, fun _ => hhere _, h.data⟩
  | httpField =>
      obtain ⟨hflag, hl⟩ := Option.ite_none_right_eq_some.mp hl
      cases hl
      simp only [HttpResponseParser.perform, HttpResponseParser.onResponseHttpField] at ht
      split at ht
      · cases ht
        exact h
      · obtain ⟨key, -, ht⟩ := bind_eq_ok.mp ht
        obtain ⟨text, htext, ht⟩ := bind_eq_ok.mp ht
        cases ht
        have hvalue := cut_len hshort (h.value hflag) text htext
        refine ⟨h.value, h.reason, { h.data with headers := fun entry hentry => ?_ }⟩
        exact (RankedMap.forall_assign (P := fun _ => True) (fun old hold =>
          ⟨trivial, h.data.headers old hold⟩) trivial hvalue entry hentry).2
  | reasonPhrase =>
      obtain ⟨hflag, hl⟩ := Option.ite_none_right_eq_some.mp hl
      cases hl
      obtain ⟨text, htext, ht⟩ := bind_eq_ok.mp ht
      cases ht
      exact ⟨h.value, h.reason,
        { h.data with reason := cut_len hshort (h.reason hflag) text htext }⟩
  | httpVersion =>
      cases hl
      cases ht
      unfold HttpResponseParser.onResponseVersion
      split
      · rename_i version hversion
        refine ⟨h.value, h.reason, { h.data with version := ?_ }⟩
        unfold versionOf at hversion
        grind
      · exact ⟨h.value, h.reason, h.data⟩
  | statusCode =>
      cases hl
      cases ht
      exact ⟨h.value, h.reason, { h.data with }⟩
  | fieldStart | fieldLen | contentLen | connClose | chunkSize | chunked | headerDone =>
      cases hl
      cases ht
      exact ⟨h.value, h.reason, h.data⟩

theorem Response.facts_sound (hshort : buffer.length < 2 ^ 31) :
    facts.Sound (HttpResponseParser.act buffer) buffer
      (fun k p state => ∀ s, state = .ok s → k.Holds buffer p s) where
  perform := by
    intro k l p state action _ hl h t ht
    obtain ⟨s, hs, hperform⟩ := bind_eq_ok.mp ht
    exact (h s hs).perform hshort hl hperform
  pass := by
    intro k p state byte hbyte h s hs
    obtain ⟨hvalue, hreason, hdata⟩ := h s hs
    refine ⟨fun hflag => ?_, fun hflag => ?_, hdata⟩
    · obtain ⟨hk, hout⟩ := Bool.and_eq_true_iff.mp hflag
      exact (hvalue hk).succ hbyte (of_decide_eq_true hout)
    · obtain ⟨hk, hout⟩ := Bool.and_eq_true_iff.mp hflag
      exact (hreason hk).succ hbyte (of_decide_eq_true hout)
  weaken := by
    intro k l p state hle h s hs
    obtain ⟨hvalue, hreason, hdata⟩ := h s hs
    simp only [facts, Kept.le, Bool.and_eq_true, Bool.or_eq_true, Bool.not_eq_true'] at hle
    exact ⟨by grind, by grind, hdata⟩

namespace HttpResponseParser

theorem execute_wellFormed {start parser : HttpResponseParser} {data : Bytes} {chunck : Bool}
    {nparse : Nat} (hexecute : start.execute data chunck = .ok (parser, nparse))
    (h : start.data.WellFormed) : parser.data.WellFormed := by
  unfold execute at hexecute
  split at hexecute
  · cases hexecute
  · rename_i hlong
    obtain ⟨scanned, hscanned, hexecute⟩ := bind_eq_ok.mp hexecute
    dsimp only at hexecute
    generalize hfirst : (if chunck then start.set .init else start) = first at hscanned hexecute
    have hdata : first.data.WellFormed := by
      rw [← hfirst]
      split <;> exact h
    split at hexecute
    · cases hexecute
      have hstart : ∀ s, (.ok (first.set first.parser.rewind) : Except Fault _) = .ok s →
          (kept first.parser.cs).Holds data 0 s := by
        rintro s ⟨⟩
        exact ⟨fun _ => over_of_le (Nat.zero_le _), fun _ => over_of_le (Nat.zero_le _), hdata⟩
      obtain ⟨k, p, hholds⟩ := (facts_sound (Nat.not_le.mp hlong)).scan hstart
      exact (hholds scanned hscanned).data
    · cases hexecute

theorem execute_of_mapError {start parser : HttpResponseParser} {data : Bytes} {chunck : Bool}
    {nparse : Nat}
    (hexecute : (start.execute data chunck).mapError HttpConnection.Crash.parser =
      .ok (parser, nparse))
    (h : start.data.WellFormed) : parser.data.WellFormed := by
  cases hresult : start.execute data chunck with
  | error fault =>
      rw [hresult] at hexecute
      cases hexecute
  | ok result =>
      rw [hresult] at hexecute
      cases hexecute
      exact execute_wellFormed hresult h

end HttpResponseParser

namespace HttpConnection

open HttpResponseParser

theorem recvHeader_wellFormed {fuel : Nat} {start parser : HttpResponseParser}
    {data rest : Bytes} {s s' : Pieces}
    (hrecv : recvHeader fuel start data s = .ok (some (parser, rest), s'))
    (h : start.data.WellFormed) : parser.data.WellFormed := by
  induction fuel generalizing start data s with
  | zero => cases hrecv
  | succ fuel ih =>
      unfold recvHeader at hrecv
      split at hrecv
      · cases hrecv
      · obtain ⟨⟨next, nparse⟩, hexecute, hrecv⟩ := bind_eq_ok.mp hrecv
        have hnext := execute_of_mapError hexecute h
        dsimp only at hrecv
        split at hrecv
        · cases hrecv
        · split at hrecv
          · cases hrecv
          · split at hrecv
            · cases hrecv
              exact hnext
            · exact ih hrecv hnext

theorem recvSize_wellFormed {fuel : Nat} {begin : Bool} {start parser : HttpResponseParser}
    {data rest : Bytes} {s s' : Pieces}
    (hrecv : recvSize fuel begin start data s = .ok (some (parser, rest), s'))
    (h : start.data.WellFormed) : parser.data.WellFormed := by
  induction fuel generalizing begin start data s with
  | zero => cases hrecv
  | succ fuel ih =>
      unfold recvSize at hrecv
      split at hrecv
      · cases hrecv
      · obtain ⟨⟨next, nparse⟩, hexecute, hrecv⟩ := bind_eq_ok.mp hrecv
        have hnext := execute_of_mapError hexecute h
        dsimp only at hrecv
        split at hrecv
        · cases hrecv
        · split at hrecv
          · cases hrecv
          · split at hrecv
            · cases hrecv
              exact hnext
            · exact ih hrecv hnext

theorem recvChunks_wellFormed {fuel : Nat} {start parser : HttpResponseParser}
    {body body' data : Bytes} {s s' : Pieces}
    (hrecv : recvChunks fuel start body data s = .ok (some (parser, body'), s'))
    (h : start.data.WellFormed) : parser.data.WellFormed := by
  induction fuel generalizing start body data s with
  | zero => cases hrecv
  | succ fuel ih =>
      unfold recvChunks at hrecv
      obtain ⟨⟨sized, s₁⟩, hsize, hrecv⟩ := bind_eq_ok.mp hrecv
      cases sized with
      | none => cases hrecv
      | some sized =>
          obtain ⟨next, rest⟩ := sized
          have hnext := recvSize_wellFormed hsize h
          obtain ⟨⟨taken, s₂⟩, -, hrecv⟩ := bind_eq_ok.mp hrecv
          cases taken with
          | none => cases hrecv
          | some taken =>
              dsimp only at hrecv
              split at hrecv
              · cases hrecv
                exact hnext
              · exact ih hrecv hnext

end HttpConnection

end

/-- However a response arrives, only a well-formed one is handed on. -/
theorem recvResponse_wellFormed {s rest : Pieces} {rsp : HttpResponse}
    (h : HttpConnection.recvResponse s = .ok (some rsp, rest)) : rsp.WellFormed := by
  unfold HttpConnection.recvResponse at h
  obtain ⟨⟨received, s₁⟩, hheader, hbody⟩ := bind_eq_ok.mp h
  cases received with
  | none => cases hbody
  | some received =>
      obtain ⟨parser, data⟩ := received
      have hparser := HttpConnection.recvHeader_wellFormed hheader HttpResponse.wellFormed_new
      dsimp only at hbody
      split at hbody
      · obtain ⟨⟨chunks, s₂⟩, hchunks, hbody⟩ := bind_eq_ok.mp hbody
        cases chunks with
        | none => cases hbody
        | some chunks =>
            cases hbody
            exact { HttpConnection.recvChunks_wellFormed hchunks hparser with }
      · split at hbody
        · cases hbody
        · cases hbody
          exact { hparser with }

theorem recvResponse_wellFormed_host :
    ∃ rsp rest, HttpConnection.recvResponse
        ⟨ascii "HTTP/1.1 200 OK\r\nServer: q\r\n\r\n", fun i => i = 20, true⟩ =
          .ok (some rsp, rest) ∧ rsp.WellFormed := by
  have hsome : ((HttpConnection.recvResponse
      ⟨ascii "HTTP/1.1 200 OK\r\nServer: q\r\n\r\n", fun i => i = 20, true⟩).toOption.bind
        Prod.fst).isSome = true := by
    decide +kernel
  cases hrecv : HttpConnection.recvResponse
      ⟨ascii "HTTP/1.1 200 OK\r\nServer: q\r\n\r\n", fun i => i = 20, true⟩ with
  | error fault =>
      rw [hrecv] at hsome
      cases hsome
  | ok result =>
      obtain ⟨_ | rsp, rest⟩ := result
      · rw [hrecv] at hsome
        cases hsome
      · exact ⟨rsp, rest, rfl, recvResponse_wellFormed hrecv⟩

end Qslary.Http

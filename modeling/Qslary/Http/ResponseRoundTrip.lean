import Qslary.Http.Arrivals
import Qslary.Http.Bodies
import Qslary.Http.RequestRoundTrip
import Qslary.Http.ResponseText

/-!
# Responses written and received

A response whose header arrives in one piece is received as it was dumped, with the reason
that is written for its status and with the headers that `dump` adds, however its body
arrives.
-/

namespace Qslary.Http

open Qslary.Foundation Response

/-! ## Responses that can be written -/

namespace HttpResponse

/-- The reason that is written. -/
def reasonText (rsp : HttpResponse) : Bytes :=
  if rsp.reason = [] then httpStatusToString rsp.status else rsp.reason

structure Sendable (rsp : HttpResponse) : Prop where
  version : rsp.version = 0x10 ∨ rsp.version = 0x11
  status : rsp.status.toNat < 2 ^ 31
  reason : rsp.reason = [] ∨ ReasonText rsp.reason
  fields : ∀ header ∈ writtenHeaders rsp.headers, NameText header.1 ∧ ValueText header.2
  body : rsp.body.length < 2 ^ 31

def header (rsp : HttpResponse) : Bytes :=
  writeLines (rsp.statusLine :: rsp.fields.map headerLine) ++ crlf

/-- The headers that are written, and those that `dump` adds. -/
def sentHeaders (rsp : HttpResponse) : Headers :=
  let written : Headers := ⟨writtenHeaders rsp.headers, rsp.headers.sorted.filter _⟩
  let connected := written.insert (ascii "connection")
    (if rsp.close then ascii "close" else ascii "keep-alive")
  if rsp.body = [] then connected
  else connected.insert (ascii "content-length") (decimal rsp.body.length)

/-- What the parser makes of the header. -/
def parsedAs (rsp : HttpResponse) : HttpResponse :=
  { HttpResponse.new with
    status := rsp.status, version := rsp.version, reason := rsp.reasonText
    headers := rsp.sentHeaders }

/-- What a client gets. -/
def receivedAs (rsp : HttpResponse) : HttpResponse := { rsp.parsedAs with body := rsp.body }

end HttpResponse

/-! ## The header -/

section

variable {rsp : HttpResponse}

def isReasonText : Bytes → Bool
  | [] => false
  | x :: rest => within reasonByte x.toNat && rest.all fun y => within valueByte y.toNat

theorem reasonText_of_isReasonText {text : Bytes} (h : isReasonText text = true) :
    ReasonText text := by
  cases text with
  | nil => cases h
  | cons x rest =>
      obtain ⟨hx, hrest⟩ := Bool.and_eq_true_iff.mp h
      exact ⟨x, rest, rfl, hx, List.all_eq_true.mp hrest⟩

theorem reasonText_status (status : UInt32) : ReasonText (httpStatusToString status) := by
  have htexts : (httpStatusMap.all fun entry => isReasonText (ascii entry.2)) = true := by
    decide +kernel
  apply reasonText_of_isReasonText
  unfold httpStatusToString
  split
  · rename_i entry hentry
    exact List.all_eq_true.mp htexts entry (List.mem_of_find?_eq_some hentry)
  · decide

theorem HttpResponse.Sendable.reasonText (h : rsp.Sendable) : ReasonText rsp.reasonText := by
  unfold HttpResponse.reasonText
  split
  · exact reasonText_status rsp.status
  · rename_i hne
    exact h.reason.resolve_left hne

theorem piece_statusLine (h : rsp.Sendable) :
    Piece 1 (rsp.statusLine ++ crlf) (fun r => { r with
      version := rsp.version, status := rsp.status, reason := rsp.reasonText }) 20 := by
  have hspace : ascii " " = [32] := by decide
  have hline := ((piece_version h.version).append (piece_status h.status)).append
    (piece_reason h.reasonText)
  simpa [HttpResponse.statusLine, HttpResponse.reasonText, hspace] using hline

theorem foldl_setHeaderEntry_response (fields : List (Bytes × Bytes)) (r : HttpResponse) :
    fields.foldl (fun r header => r.setHeaderEntry header.1 header.2) r =
      { r with headers := fields.foldl (fun m header => m.insert header.1 header.2) r.headers } := by
  induction fields generalizing r with
  | nil => rfl
  | cons field fields ih => rw [List.foldl_cons, ih, List.foldl_cons]; rfl

/-- Up to the empty line; `close` is still to be noticed there. -/
theorem piece_lines (h : rsp.Sendable) :
    ∃ q, (q = 20 ∨ q = 43) ∧
      Piece 1 (writeLines (rsp.statusLine :: rsp.fields.map headerLine))
        (fun r => rsp.fields.foldl (fun r header => r.setHeaderEntry header.1 header.2)
          { r with
            version := rsp.version, status := rsp.status, reason := rsp.reasonText }) q := by
  have hwritten := Piece.flatMap (f := fun header r => r.setHeaderEntry header.1 header.2)
    fun header hheader => piece_field (h.fields header hheader).1 (h.fields header hheader).2
  have hlines := ((piece_statusLine h).append hwritten).append (piece_connection rsp.close)
  by_cases hbody : rsp.body = []
  · refine ⟨if rsp.close then 43 else 20, by cases rsp.close <;> simp, ?_⟩
    simpa [writeLines, HttpResponse.fields, lengthHeader, hbody, List.flatMap_map,
      List.foldl_append] using hlines
  · refine ⟨20, .inl rfl, ?_⟩
    simpa [writeLines, HttpResponse.fields, lengthHeader, hbody, List.flatMap_map,
      List.foldl_append] using hlines.append (piece_length rsp.close rsp.body.length)

theorem headers_sent_response (rsp : HttpResponse) :
    rsp.fields.foldl (fun m header => m.insert header.1 header.2) (.empty : Headers) =
      rsp.sentHeaders := by
  rw [HttpResponse.fields, List.foldl_append, List.foldl_append, foldl_written]
  by_cases hbody : rsp.body = []
  · simp [HttpResponse.sentHeaders, lengthHeader, hbody]
  · simp [HttpResponse.sentHeaders, lengthHeader, hbody]

/-- The header is taken in one call, and read as it was meant. -/
theorem execute_header (h : rsp.Sendable) (rest : Bytes)
    (hshort : (rsp.header ++ rest).length < 2 ^ 31) :
    ∃ machine : HttpclientParser, machine.cs = 120 ∧ machine.chunked = false ∧
      HttpResponseParser.new.execute (rsp.header ++ rest) false =
        .ok (⟨machine, rsp.parsedAs, 0⟩, rsp.header.length) := by
  obtain ⟨q, hq, hlines⟩ := piece_lines h
  obtain ⟨machine, hcs, hchunked, hexecute⟩ := Piece.execute hlines hq rest hshort
  refine ⟨machine, hcs, hchunked, hexecute.trans ?_⟩
  rw [foldl_setHeaderEntry_response]
  simp [HttpResponse.header, HttpResponse.parsedAs, HttpResponse.new, headers_sent_response]

/-! ## The length of the body -/

theorem caseKey_of_tokens {name : Bytes} (h : ∀ x ∈ name, within tokenByte x.toNat = true) :
    caseKey name = (lower name).map UInt8.toNat := by
  have hall : ∀ x ∈ name, decide (x ≠ 0) = true := by
    intro x hx
    refine decide_eq_true ?_
    rintro rfl
    exact absurd (h 0 hx) (by decide)
  rw [caseKey, List.takeWhile_eq_self_iff.mpr hall]

theorem find?_written (h : rsp.Sendable) {name : Bytes} (hname : name ∈ reserved) :
    (⟨writtenHeaders rsp.headers, rsp.headers.sorted.filter _⟩ : Headers).find? name = none := by
  have hreserved : ∀ name ∈ reserved, caseKey name = (lower name).map UInt8.toNat ∧
      lower name = name := by
    decide
  obtain ⟨hkey, hlower⟩ := hreserved name hname
  rw [RankedMap.find?, Option.map_eq_none_iff, List.find?_eq_none]
  intro header hheader
  obtain ⟨-, htokens, hother⟩ := (h.fields header hheader).1
  intro hfound
  have heq : caseKey header.1 = caseKey name := by simpa using hfound
  rw [caseKey_of_tokens htokens, hkey, hlower] at heq
  have hsame : lower header.1 = name := List.map_injective_iff.mpr (fun _ _ => UInt8.toNat_inj.mp) heq
  exact hother (hsame ▸ hname)

theorem getContentLength_parsedAs (h : rsp.Sendable) (machine : HttpclientParser) :
    HttpResponseParser.getContentLength ⟨machine, rsp.parsedAs, 0⟩ = rsp.body.length := by
  have hne : caseKey (ascii "connection") ≠ caseKey (ascii "content-length") := by decide
  by_cases hbody : rsp.body = []
  · simp [HttpResponseParser.getContentLength, HttpResponse.parsedAs, HttpResponse.sentHeaders,
      hbody, RankedMap.find?_insert, hne, find?_written h (show ascii "content-length" ∈ reserved by simp [reserved])]
  · have hlong := h.body
    simp [HttpResponseParser.getContentLength, HttpResponse.parsedAs, HttpResponse.sentHeaders,
      hbody, RankedMap.find?_insert, lexicalCast_decimal (show rsp.body.length < 2 ^ 64 by omega)]

/-! ## Receiving -/

namespace Pieces

/-- No piece ends within the first `n` bytes. -/
theorem length_arrived_ge {ends : Nat → Bool} {n length : Nat} {input : Bytes}
    (hends : ∀ i, i + 1 < n → ends i = false) (hlength : n ≤ length) (hinput : n ≤ input.length) :
    n ≤ (arrived ends length input).length := by
  induction length generalizing ends n input with
  | zero => exact hlength.trans (Nat.zero_le _)
  | succ length ih =>
      cases input with
      | nil => exact hinput.trans (Nat.zero_le _)
      | cons x rest =>
          rw [List.length_cons] at hinput
          unfold arrived
          split
          · rename_i hend
            have : ¬ 0 + 1 < n := fun h => by simp [hends 0 h] at hend
            rw [List.length_singleton]
            omega
          · have hopen : ∀ i, i + 1 < n - 1 → ends (i + 1) = false :=
              fun i hi => hends (i + 1) (by omega)
            have hshort : n - 1 ≤ length := by omega
            have hthere : n - 1 ≤ rest.length := by omega
            have hrest := ih hopen hshort hthere
            rw [List.length_cons]
            omega

end Pieces

/-- The header, with what arrives in the same piece. -/
theorem recvHeader_dump (h : rsp.Sendable) {ends : Nat → Bool} (later : Bytes)
    (hends : ∀ i, i + 1 < rsp.header.length → ends i = false)
    (hfits : rsp.header.length ≤ HttpConnection.buffSize) (fuel : Nat) :
    ∃ (machine : HttpclientParser) (buffered : Bytes) (s : Pieces),
      machine.chunked = false ∧ s.connected = true ∧ buffered ++ s.input = later ∧
      HttpConnection.recvHeader (fuel + 1) .new [] ⟨rsp.header ++ later, ends, true⟩ =
        .ok (some (⟨machine, rsp.parsedAs, 0⟩, buffered), s) := by
  have hfront := arrived_prefix ends HttpConnection.buffSize (rsp.header ++ later)
  have hlong := Pieces.length_arrived_ge hends hfits
    (show rsp.header.length ≤ (rsp.header ++ later).length by simp)
  have hbound := length_arrived_le ends HttpConnection.buffSize (rsp.header ++ later)
  have hread : (⟨rsp.header ++ later, ends, true⟩ : Pieces).read HttpConnection.buffSize =
      (Pieces.arrived ends HttpConnection.buffSize (rsp.header ++ later),
        (⟨rsp.header ++ later, ends, true⟩ : Pieces).after
          (Pieces.arrived ends HttpConnection.buffSize (rsp.header ++ later)).length) := rfl
  generalize Pieces.arrived ends HttpConnection.buffSize (rsp.header ++ later) = bytes at *
  obtain ⟨buffered, rfl⟩ : rsp.header <+: bytes :=
    List.prefix_of_prefix_length_le (List.prefix_append _ later) ⟨_, hfront⟩ hlong
  have hpos : 0 < rsp.header.length := by simp [HttpResponse.header]
  have hsmall : (rsp.header ++ buffered).length ≤ 65532 := hbound
  have hfill : HttpConnection.fill false [] ⟨rsp.header ++ later, ends, true⟩ =
      (some (rsp.header ++ buffered),
        (⟨rsp.header ++ later, ends, true⟩ : Pieces).after (rsp.header ++ buffered).length) := by
    simp only [HttpConnection.fill, Bool.not_false, Bool.true_or, if_true, List.length_nil,
      Nat.sub_zero, hread]
    cases hbytes : rsp.header ++ buffered with
    | nil => simp [(List.append_eq_nil_iff.mp hbytes).1] at hpos
    | cons x rest => rfl
  obtain ⟨machine, hcs, hchunked, hexecute⟩ := execute_header h buffered (by omega)
  refine ⟨machine, buffered,
    (⟨rsp.header ++ later, ends, true⟩ : Pieces).after (rsp.header ++ buffered).length, hchunked,
    rfl, ?_, ?_⟩
  · rw [List.append_assoc, List.append_cancel_left_eq] at hfront
    simpa [Pieces.after] using hfront
  · have hdrop : ((rsp.header ++ buffered).drop rsp.header.length).length <
        HttpConnection.buffSize := by
      rw [List.drop_left]
      rw [List.length_append] at hsmall
      simp only [HttpConnection.buffSize]
      omega
    rw [HttpConnection.recvHeader_turn hfill hexecute hdrop, HttpConnection.settled_done rfl hcs,
      List.drop_left]

/-- However the body arrives, the response is received as it was dumped. -/
theorem recvResponse_dump (h : rsp.Sendable) {ends : Nat → Bool} (later : Bytes)
    (hends : ∀ i, i + 1 < rsp.header.length → ends i = false)
    (hfits : rsp.header.length ≤ HttpConnection.buffSize) :
    ∃ s, HttpConnection.recvResponse ⟨rsp.dump ++ later, ends, true⟩ =
      .ok (some rsp.receivedAs, s) := by
  have hdump : rsp.dump ++ later = rsp.header ++ (rsp.tail ++ later) := by
    simp [HttpResponse.dump, HttpResponse.header, HttpResponse.tail]
  obtain ⟨machine, buffered, s, hchunked, hconnected, hinput, hheader⟩ :=
    recvHeader_dump h (rsp.tail ++ later) hends hfits (rsp.header ++ (rsp.tail ++ later)).length
  have hlength := getContentLength_parsedAs h machine
  have hshort := h.body
  rw [hdump]
  by_cases hbody : rsp.body = []
  · rw [hbody] at hlength
    refine ⟨s, ?_⟩
    simp only [HttpConnection.recvResponse, hheader, bind, Except.bind, hchunked, hlength,
      HttpResponse.receivedAs, hbody]
    rfl
  · have hpos : 0 < rsp.body.length := List.length_pos_iff.mpr hbody
    have htoInt : toInt64 (HttpResponseParser.getContentLength ⟨machine, rsp.parsedAs, 0⟩) =
        rsp.body.length := by
      rw [hlength]
      exact if_pos (by omega)
    have hassembled := Source.gatherBody_assembled rsp.body.length buffered s
    have hthere : buffered ++ Source.remaining s = rsp.body ++ (crlf ++ later) := by
      have hremaining : Source.remaining s = s.input := if_pos hconnected
      rw [hremaining, hinput]
      simp [HttpResponse.tail, hbody]
    have henough : rsp.body.length ≤ buffered.length + (Source.remaining s).length := by
      rw [← List.length_append, hthere, List.length_append]
      exact Nat.le_add_right _ _
    unfold Source.Assembled at hassembled
    rw [if_pos henough, hthere, List.take_left] at hassembled
    refine ⟨(Source.gatherBody rsp.body.length buffered s).2,
      (HttpConnection.recvResponse_eq hpos hshort hheader hchunked htoInt).trans ?_⟩
    rw [hassembled.1]
    rfl

end

end Qslary.Http

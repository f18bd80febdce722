import Qslary.Http.RequestText
import Qslary.Http.Session

/-!
# Requests written and received

A request whose URL is its target is received as it was dumped, with the headers that are
written and the length of its body.
-/

namespace Qslary.Http

open Qslary.Foundation Request
open Qslary.Uri (Encoded)

/-! ## Requests that can be written -/

namespace HttpRequest

structure Sendable (req : HttpRequest) : Prop where
  method : req.method ≠ .UNKNOW
  version : req.version = 0x10 ∨ req.version = 0x11
  url : req.url = req.target
  path : ∃ rest, req.path = 47 :: rest ∧ rest.head? ≠ some 47 ∧ Encoded pathByte rest
  query : Encoded queryByte req.query
  fragment : Encoded queryByte req.fragment
  fields : ∀ header ∈ writtenHeaders req.headers, NameText header.1 ∧ ValueText header.2

def header (req : HttpRequest) : Bytes :=
  writeLines (req.requestLine ::
    (writtenHeaders req.headers ++ lengthHeader req.body).map headerLine) ++ crlf

/-- The headers that are written, and a length that takes the place of another one. -/
def sentHeaders (req : HttpRequest) : Headers :=
  let written : Headers := ⟨writtenHeaders req.headers, req.headers.sorted.filter _⟩
  if req.body = [] then written
  else written.insert (ascii "content-length") (decimal req.body.length)

/-- What the parser makes of the header. -/
def parsedAs (req : HttpRequest) : HttpRequest :=
  { HttpRequest.new with
    method := req.method, version := req.version, path := req.path, query := req.query
    fragment := req.fragment, headers := req.sentHeaders }

/-- What is received. -/
def received (req : HttpRequest) : HttpRequest := { req.parsedAs with body := req.body }.init

end HttpRequest

/-! ## The header -/

section

variable {req : HttpRequest}

theorem piece_target (h : req.Sendable) (uriRelaxed : Bool) :
    Piece uriRelaxed 3 (req.target ++ [32]) (fun r => { r with
      path := req.path
      query := if req.query = [] then r.query else req.query
      fragment := if req.fragment = [] then r.fragment else req.fragment }) 4 := by
  have hmark : ascii "?" = [63] := by decide
  have hhash : ascii "#" = [35] := by decide
  by_cases hquery : req.query = []
  · by_cases hfragment : req.fragment = []
    · simpa [HttpRequest.target, hquery, hfragment] using
        piece_path h.path uriRelaxed 32 [.requestUri] 4 (by simp)
    · have hpath := piece_path h.path uriRelaxed 35 [.requestUri] 20 (by simp)
      simpa [HttpRequest.target, hquery, hfragment, hhash] using
        hpath.append (piece_fragment h.fragment hfragment uriRelaxed)
  · have hpath := piece_path h.path uriRelaxed 63 [] 29 (by simp)
    by_cases hfragment : req.fragment = []
    · simpa [HttpRequest.target, hquery, hfragment, hmark] using
        hpath.append (piece_query h.query hquery uriRelaxed 32 4 (by simp))
    · have hfront := hpath.append (piece_query h.query hquery uriRelaxed 35 20 (by simp))
      simpa [HttpRequest.target, hquery, hfragment, hmark, hhash] using
        hfront.append (piece_fragment h.fragment hfragment uriRelaxed)

theorem valueText_decimal (n : Nat) : ValueText (decimal n) := by
  cases htext : decimal n with
  | nil => exact .inl rfl
  | cons x rest =>
      have hdigits : ∀ y ∈ x :: rest, 48 ≤ y.toNat ∧ y.toNat ≤ 57 := by
        intro y hy
        have := isDigit_of_mem_decimal (htext ▸ hy)
        simpa [isDigit, UInt8.le_iff_toNat_le] using this
      refine .inr ⟨x, rest, rfl, ?_, fun y hy => ?_⟩
      · have := hdigits x List.mem_cons_self
        simp [within, valueFirst]
        omega
      · have := hdigits y (List.mem_cons_of_mem x hy)
        simp [within, valueByte]
        omega

theorem nameText_contentLength : NameText (ascii "content-length") :=
  ⟨99, ascii "ontent-length", by decide, by decide, List.all_eq_true.mp rfl⟩

theorem HttpRequest.Sendable.fieldTexts (h : req.Sendable) :
    ∀ header ∈ writtenHeaders req.headers ++ lengthHeader req.body,
      NameText header.1 ∧ ValueText header.2 := by
  intro header hheader
  rcases List.mem_append.mp hheader with hwritten | hlength
  · exact h.fields header hwritten
  · unfold lengthHeader at hlength
    split at hlength
    · cases hlength
    · rw [List.mem_singleton.mp hlength]
      exact ⟨nameText_contentLength, valueText_decimal _⟩

/-- Up to the empty line. -/
theorem piece_header (h : req.Sendable) (uriRelaxed : Bool) :
    Piece uriRelaxed 1 (writeLines (req.requestLine ::
      (writtenHeaders req.headers ++ lengthHeader req.body).map headerLine))
      (fun r => (writtenHeaders req.headers ++ lengthHeader req.body).foldl
        (fun r header => r.setHeaderEntry header.1 header.2)
        { r with
          method := req.method
          version := req.version
          path := req.path
          query := if req.query = [] then r.query else req.query
          fragment := if req.fragment = [] then r.fragment else req.fragment }) 13 := by
  have hspace : ascii " " = [32] := by decide
  have hfields := Piece.flatMap (f := fun header r => r.setHeaderEntry header.1 header.2)
    fun header hheader => piece_field (h.fieldTexts header hheader).1 (h.fieldTexts header hheader).2
      uriRelaxed
  have hline := ((piece_method h.method uriRelaxed).append (piece_target h uriRelaxed)).append
    (piece_version h.version uriRelaxed)
  simpa [writeLines, HttpRequest.requestLine, h.url, hspace, List.flatMap_map] using
    hline.append hfields

theorem foldl_setHeaderEntry (fields : List (Bytes × Bytes)) (r : HttpRequest) :
    fields.foldl (fun r header => r.setHeaderEntry header.1 header.2) r =
      { r with headers := fields.foldl (fun m header => m.insert header.1 header.2) r.headers } := by
  induction fields generalizing r with
  | nil => rfl
  | cons field fields ih => rw [List.foldl_cons, ih, List.foldl_cons]; rfl

theorem foldl_written (headers : Headers) :
    (writtenHeaders headers).foldl (fun m header => m.insert header.1 header.2) (.empty : Headers) =
      ⟨writtenHeaders headers, headers.sorted.filter _⟩ := by
  have hentries := RankedMap.foldl_insert_entries (.empty : Headers)
    (l := writtenHeaders headers) (headers.sorted.filter _)
  generalize (writtenHeaders headers).foldl _ _ = m at hentries
  cases m
  cases hentries
  rfl

theorem headers_sent (req : HttpRequest) :
    (writtenHeaders req.headers ++ lengthHeader req.body).foldl
      (fun m header => m.insert header.1 header.2) (.empty : Headers) = req.sentHeaders := by
  rw [List.foldl_append, foldl_written, HttpRequest.sentHeaders, lengthHeader]
  split <;> rfl

/-- The header is taken as a whole, and read as it was meant. -/
theorem run_header (h : req.Sendable) (memory : HttpParser) :
    (memory.init.run req.header).halt = .stopped 348 ∧
      (memory.init.run req.header).position = req.header.length ∧
      (memory.init.run req.header).state.2.foldlM Parsed.call ⟨0, .new⟩ =
        .ok ⟨0, req.parsedAs⟩ := by
  obtain ⟨hhalt, hposition, hcalls⟩ :=
    Piece.run (piece_header h memory.uriRelaxed) [] ⟨0, .new⟩
  rw [List.append_nil] at hhalt hposition hcalls
  refine ⟨hhalt, hposition, hcalls.trans ?_⟩
  have hquery : (if req.query = [] then HttpRequest.new.query else req.query) = req.query := by
    split <;> simp_all [HttpRequest.new]
  have hfragment : (if req.fragment = [] then HttpRequest.new.fragment else req.fragment) =
      req.fragment := by
    split <;> simp_all [HttpRequest.new]
  rw [foldl_setHeaderEntry, hquery, hfragment, HttpRequest.parsedAs, ← headers_sent]
  rfl

end

/-! ## The length of the body -/

theorem splitSign_of_digits {text : Bytes} (h : ∀ x ∈ text, isDigit x = true) :
    splitSign text = (false, text) := by
  unfold splitSign
  split
  · exact absurd (h 45 List.mem_cons_self) (by decide)
  · exact absurd (h 43 List.mem_cons_self) (by decide)
  · rfl

theorem lexicalCast_decimal {n : Nat} (h : n < 2 ^ 64) : lexicalCast (decimal n) = some n := by
  have hdigits := splitSign_of_digits fun x (hx : x ∈ decimal n) => isDigit_of_mem_decimal hx
  simp only [lexicalCast, hdigits, parseDecimal_decimal, if_pos h, Bool.false_eq_true, if_false]

namespace HttpRequest

/-- Without a body, no other length is written than zero. -/
def Measured (req : HttpRequest) : Prop :=
  if req.body = [] then req.parsedAs.getContentLength = 0 else req.body.length < 2 ^ 64

theorem Measured.length {req : HttpRequest} (h : req.Measured) :
    req.body.length = req.parsedAs.getContentLength := by
  unfold Measured at h
  split at h
  · rename_i hbody
    rw [h, hbody]
    rfl
  · rename_i hbody
    have hfind : req.parsedAs.headers.find? (ascii "content-length") =
        some (decimal req.body.length) := by
      simp [parsedAs, sentHeaders, hbody, RankedMap.find?_insert]
    simp [getContentLength, hfind, lexicalCast_decimal h]

theorem cs_after_header {req : HttpRequest} (h : req.Sendable) (memory : HttpParser) :
    (after memory.init req.header).cs = 348 := by
  rw [after_cs, (run_header h memory).1]
  rfl

/-- The request on its way, over a parser that is built in `memory`. -/
def onWire (req : HttpRequest) (hsend : req.Sendable) (hmeasured : req.Measured)
    (hshort : req.header.length < 2 ^ 31) (memory : HttpParser) : WireRequest where
  memory := memory
  header := req.header
  body := req.body
  parser := ⟨⟨0, req.parsedAs⟩, after memory.init req.header⟩
  parsed := by
    obtain ⟨-, hposition, hcalls⟩ := run_header hsend memory
    have hne : req.header ≠ [] := by simp [header]
    have hexecute := execute_of_calls hcalls hne hshort (Nat.zero_le _)
    rwa [hposition] at hexecute
  sound := by
    simp [HttpRequestParser.hasError, HttpParser.hasError, cs_after_header hsend]
  finished := by
    simp [HttpRequestParser.isFinished, HttpParser.finish, HttpParser.hasError,
      HttpParser.isFinished, cs_after_header hsend]
  length := hmeasured.length

theorem bytes_onWire {req : HttpRequest} (hsend : req.Sendable) (hmeasured : req.Measured)
    (hshort : req.header.length < 2 ^ 31) (memory : HttpParser) :
    (req.onWire hsend hmeasured hshort memory).bytes = req.dump := by
  simp [WireRequest.bytes, onWire, dump, header]

end HttpRequest

/-! ## A connection of dumped requests -/

/-- A request that is sent, and the parser and the reads that receive it. -/
structure Sending where
  request : HttpRequest
  sendable : request.Sendable
  measured : request.Measured
  memory : HttpParser
  sizes : Nat → Nat
  completes : request.header.length ≤ sizes 0 ∧ request.header.length ≤ HttpSession.buffSize

namespace Sending

theorem short (sending : Sending) : sending.request.header.length < 2 ^ 31 := by
  have := sending.completes.2
  simp only [HttpSession.buffSize] at this
  omega

def call (sending : Sending) : Call where
  toWireRequest :=
    sending.request.onWire sending.sendable sending.measured sending.short sending.memory
  sizes := sending.sizes

theorem call_bytes (sending : Sending) : sending.call.bytes = sending.request.dump :=
  HttpRequest.bytes_onWire sending.sendable sending.measured sending.short sending.memory

/-- What is on the wire. -/
def wire (sendings : List Sending) : Bytes := sendings.flatMap fun sending => sending.request.dump

/-- Every request is received, and in front of those that follow. -/
def received : List Sending → List (Option HttpRequest × Bytes)
  | [] => []
  | sending :: sendings => (some sending.request.received, wire sendings) :: received sendings

end Sending

/-- A request with a query, a field and a body. -/
def postedForm : HttpRequest :=
  { HttpRequest.new with
    method := .POST, version := 0x11, path := ascii "/f", query := ascii "a"
    url := ascii "/f?a", body := ascii "xy", headers := RankedMap.empty.insert (ascii "host") (ascii "q") }

theorem postedForm_sendable : postedForm.Sendable where
  method := by decide
  version := .inr rfl
  url := by decide
  path := ⟨ascii "f", by decide, by decide, .byte (by decide) .nil⟩
  query := .byte (by decide) .nil
  fragment := .nil
  fields := by
    intro header hheader
    have hwritten : writtenHeaders postedForm.headers = [(ascii "host", ascii "q")] := by
      decide +kernel
    rw [hwritten, List.mem_singleton] at hheader
    rw [hheader]
    exact ⟨⟨104, ascii "ost", by decide, by decide, List.all_eq_true.mp rfl⟩,
      .inr ⟨113, [], by decide, by decide, by simp⟩⟩

theorem postedForm_header : postedForm.header.length = 50 := by decide +kernel

theorem postedForm_dump : postedForm.dump.length = 52 := by decide +kernel

/-- The first read takes the request as a whole. -/
def postedFormSending : Sending where
  request := postedForm
  sendable := postedForm_sendable
  measured := by
    have : postedForm.body.length < 2 ^ 64 := by decide
    simpa [HttpRequest.Measured, show postedForm.body ≠ [] by decide] using this
  memory := ⟨0, 0, 0, 0, 0, 0, 0, 0, false, false, false⟩
  sizes := fun _ => 52
  completes := by simp [postedForm_header, HttpSession.buffSize]

end Qslary.Http

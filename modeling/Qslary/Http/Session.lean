import Qslary.Http.RequestRuns
import Qslary.Http.Stream

/-!
# Requests on a keep-alive connection

`recvRequest` reads into a buffer of its own and takes the body from what is left in it
after the header.  What is left beyond the body is dropped with the buffer, so a call
leaves the rest of the stream to the next one exactly if its first read stops short of
the next request.
-/

namespace Qslary.Http

open Qslary.Foundation

/-! ## Receiving -/

/-- Whether there is a minus, and what follows a sign. -/
def splitSign : Bytes → Bool × Bytes
  | 45 :: digits => (true, digits)
  | 43 :: digits => (false, digits)
  | digits => (false, digits)

/-- `boost::lexical_cast<uint64_t>`; a negative number wraps around. -/
def lexicalCast (text : Bytes) : Option Nat :=
  match parseDecimal (splitSign text).2 with
  | none => none
  | some value =>
      if value < 2 ^ 64 then
        some (if (splitSign text).1 then (2 ^ 64 - value) % 2 ^ 64 else value)
      else none

namespace HttpRequest

/-- `getContentLength`; a value that is not a number leaves the length at zero. -/
def getContentLength (req : HttpRequest) : Nat :=
  match req.headers.find? (ascii "content-length") with
  | none => 0
  | some value => (lexicalCast value).getD 0

def init (req : HttpRequest) : HttpRequest :=
  match req.headers.find? (ascii "connection") with
  | none => req
  | some conn =>
      if conn = [] then req
      else { req with close := !strcaseeq conn (ascii "keep-alive") }

end HttpRequest

/-- `(int64_t)length` -/
def toInt64 (length : Nat) : Int := if length < 2 ^ 63 then length else (length : Int) - 2 ^ 64

namespace HttpSession

def buffSize : Nat := 65532

/-- The loop of `recvRequest`, with the bytes that are left in the buffer. -/
def recvHeader : Nat → HttpRequestParser → Bytes → Stream →
    Except Fault (Option (HttpRequestParser × Bytes) × Stream)
  | 0, _, _, stream => .ok (none, stream)
  | fuel + 1, parser, data, stream =>
      match stream.read (buffSize - data.length) with
      | ([], stream) => .ok (none, stream.close)
      | (bytes, stream) => do
          let data := data ++ bytes
          let (parser, nparse) ← parser.execute data
          let data := data.drop nparse
          if parser.hasError then .ok (none, stream.close)
          else if data.length = buffSize then .ok (none, stream.close)
          else if parser.isFinished ≠ 0 then .ok (some (parser, data), stream)
          else recvHeader fuel parser data stream

/-- The body of a request: what the buffer still holds of it, and what has to be read. -/
def recvBody (length : Int) (data : Bytes) (stream : Stream) : Option Bytes × Stream :=
  let copied := if data.length ≤ length then data else data.take length.toNat
  let rest := length - data.length
  if 0 < rest then
    match stream.readFixSize rest.toNat with
    | (result, bytes, stream) =>
        if result ≤ 0 then (none, stream.close) else (some (copied ++ bytes), stream)
  else (some copied, stream)

/-- `recvRequest`, over a parser that is built in `memory`. -/
def recvRequest (memory : HttpParser) (stream : Stream) :
    Except Fault (Option HttpRequest × Stream) := do
  match ← recvHeader (stream.input.length + 1) (.new memory) [] stream with
  | (none, stream) => .ok (none, stream)
  | (some (parser, data), stream) =>
      let req := parser.data
      let length := toInt64 req.getContentLength
      if 0 < length then
        match recvBody length data stream with
        | (none, stream) => .ok (none, stream)
        | (some body, stream) => .ok (some { req with body := body }.init, stream)
      else .ok (some req.init, stream)

end HttpSession

/-! ## A header and what follows it -/

open Request

/-- A header on the wire, with the parser that has taken exactly it. -/
structure WireRequest where
  memory : HttpParser
  header : Bytes
  body : Bytes
  parser : HttpRequestParser
  parsed : (HttpRequestParser.new memory).execute header = .ok (parser, header.length)
  sound : parser.hasError = false
  finished : parser.isFinished = 1
  length : body.length = parser.data.getContentLength

namespace WireRequest

/-- The request with this header, if a parser takes exactly it. -/
def ofBytes? (memory : HttpParser) (header body : Bytes) : Option WireRequest :=
  match hparsed : (HttpRequestParser.new memory).execute header with
  | .error _ => none
  | .ok (parser, offset) =>
      if h : offset = header.length ∧ parser.hasError = false ∧ parser.isFinished = 1 ∧
          body.length = parser.data.getContentLength then
        some ⟨memory, header, body, parser, h.1 ▸ hparsed, h.2.1, h.2.2.1, h.2.2.2⟩
      else none

theorem bytes_of_ofBytes? {memory : HttpParser} {header body : Bytes} {req : WireRequest}
    (h : ofBytes? memory header body = some req) : req.header = header ∧ req.body = body := by
  unfold ofBytes? at h
  split at h
  · cases h
  · split at h
    · cases h
      exact ⟨rfl, rfl⟩
    · cases h

variable (req : WireRequest)

def bytes : Bytes := req.header ++ req.body

/-- The request that a caller should get. -/
def request : HttpRequest := HttpRequest.init { req.parser.data with body := req.body }

theorem header_ne_nil : req.header ≠ [] := by
  intro hnil
  have hparsed := req.parsed
  rw [hnil] at hparsed
  have hparser : HttpRequestParser.new req.memory = req.parser :=
    congrArg Prod.fst (Except.ok.inj hparsed)
  have hfinished := req.finished
  rw [← hparser] at hfinished
  cases hfinished

theorem header_short : req.header.length < 2 ^ 31 := by
  by_contra hlong
  have hne : req.header.length ≠ 0 := fun h => req.header_ne_nil (List.length_eq_zero_iff.mp h)
  have hparsed := req.parsed
  rw [HttpRequestParser.execute, HttpParser.execute, if_neg hne, if_pos (by omega)] at hparsed
  cases hparsed

/-- How the parser got there. -/
theorem run_header :
    (req.memory.init.run req.header).state.2.foldlM Parsed.call (HttpRequestParser.new
        req.memory).toParsed = .ok req.parser.toParsed ∧
      req.parser.parser = after req.memory.init req.header ∧
      (req.memory.init.run req.header).position = req.header.length := by
  have hparsed := req.parsed
  rw [HttpRequestParser.execute] at hparsed
  obtain ⟨_, hmachine, hparsed⟩ := bind_eq_ok.mp hparsed
  rw [show (HttpRequestParser.new req.memory).parser = req.memory.init from rfl,
    execute_eq req.header_ne_nil req.header_short (Nat.zero_le _)] at hmachine
  cases hmachine
  obtain ⟨parsed, hcalls, hparsed⟩ := bind_eq_ok.mp hparsed
  simp only [Except.ok.injEq, Prod.mk.injEq] at hparsed
  obtain ⟨hparser, hposition⟩ := hparsed
  rw [← hparser]
  exact ⟨hcalls, rfl, hposition⟩

/-- The header takes the automaton to the end, and not further. -/
theorem course_header :
    ∃ cs, course (next req.memory.uriRelaxed) 1 req.header = .stopped cs := by
  have hcourse : (req.memory.init.run req.header).halt =
      course (next req.memory.uriRelaxed) 1 req.header := halt_eq_course _ _ _ _ _
  have hcs : req.parser.parser.cs = HttpParser.haltState
      (course (next req.memory.uriRelaxed) 1 req.header) := by
    rw [req.run_header.2.1, after_cs, hcourse]
    rfl
  have hfinished := req.finished
  simp only [HttpRequestParser.isFinished, HttpParser.finish, HttpParser.hasError,
    HttpParser.isFinished, hcs, decide_eq_true_eq] at hfinished
  cases hhalt : course (next req.memory.uriRelaxed) 1 req.header with
  | failed => simp [hhalt, HttpParser.haltState] at hfinished
  | stopped cs => exact ⟨cs, rfl⟩
  | ended cs =>
      have hopen := lt_of_ended hhalt
      simp only [hhalt, HttpParser.haltState] at hfinished
      split at hfinished
      · cases hfinished
      · rw [if_neg (by omega)] at hfinished
        cases hfinished

/-- Bytes behind the header make no difference to what the parser takes. -/
theorem execute_followed {extra : Bytes} (hshort : (req.header ++ extra).length < 2 ^ 31) :
    ∃ machine : HttpParser, machine.cs = req.parser.parser.cs ∧
      (HttpRequestParser.new req.memory).execute (req.header ++ extra) =
        .ok (⟨req.parser.toParsed, machine⟩, req.header.length) := by
  obtain ⟨front, hfront, hhalt, hposition, -, halike⟩ := scan_front req.memory hshort
  obtain ⟨hcalls, hparser, hheader⟩ := req.run_header
  obtain ⟨cs, hcourse⟩ := req.course_header
  have hrun : req.memory.init.run (req.header ++ extra) = front := by
    rw [← hfront]
    refine scan_append_of_not_ended (fun r hended => ?_) extra
    rw [halt_eq_course] at hended
    cases hcourse.symm.trans hended
  obtain ⟨parsed, hwhole, hfirst⟩ :=
    foldlM_alike halike (HttpRequestParser.new req.memory).toParsed
  rw [hcalls] at hfirst
  cases hfirst
  rw [← hrun] at hwhole
  have hne : req.header ++ extra ≠ [] :=
    fun h => req.header_ne_nil (List.append_eq_nil_iff.mp h).1
  refine ⟨after req.memory.init (req.header ++ extra), ?_, ?_⟩
  · rw [hparser, after_cs, after_cs, hrun,
      hhalt]
  · have hexecute := execute_of_calls hwhole hne hshort (Nat.zero_le _)
    rw [hrun, hposition, hheader] at hexecute
    exact hexecute

end WireRequest

/-! ## One call -/

/-- A call with the sizes of its reads, and the request that is next on the wire. -/
structure Call extends WireRequest where
  sizes : Nat → Nat

namespace Call

variable {call : Call} {later : Bytes}

/-- The reads allow to parse the header at once. -/
def Completes (call : Call) : Prop :=
  call.header.length ≤ call.sizes 0 ∧ call.header.length ≤ HttpSession.buffSize

def stream (call : Call) (later : Bytes) : Stream := ⟨call.bytes ++ later, call.sizes, true⟩

/-- What the first read returns. -/
def firstRead (call : Call) (later : Bytes) : Nat :=
  (call.stream later).count HttpSession.buffSize

/--
The first read ends within the request, and what is left to read is nothing or a number
that stays positive in an `int`; the length fits into an `int64_t`.
-/
structure Exact (call : Call) (later : Bytes) : Prop where
  within : call.firstRead later ≤ call.bytes.length
  rest : call.firstRead later = call.bytes.length ∨
    0 < Stream.toInt (call.bytes.length - call.firstRead later)
  fits : call.body.length < 2 ^ 63

/-- What the buffer holds behind the header. -/
def extra (call : Call) (later : Bytes) : Bytes :=
  (call.body ++ later).take (call.firstRead later - call.header.length)

theorem header_le_firstRead (h : call.Completes) (later : Bytes) :
    call.header.length ≤ call.firstRead later := by
  have hpos := List.length_pos_iff.mpr call.header_ne_nil
  obtain ⟨hsizes, hbuffer⟩ := h
  simp only [firstRead, Stream.count, stream, WireRequest.bytes, List.length_append]
  omega

theorem recvHeader_eq (h : call.Completes) (later : Bytes) (fuel : Nat) :
    ∃ machine : HttpParser,
      HttpSession.recvHeader (fuel + 1) (.new call.memory) [] (call.stream later) =
        .ok (some (⟨call.parser.toParsed, machine⟩, call.extra later),
          ⟨(call.bytes ++ later).drop (call.firstRead later), fun i => call.sizes (i + 1),
            true⟩) := by
  have hheader := header_le_firstRead h later
  have hpos := List.length_pos_iff.mpr call.header_ne_nil
  have hbound := (Stream.count_le (call.stream later) HttpSession.buffSize).1
  have hfirst : call.firstRead later ≤ 65532 := hbound
  have hne : (call.stream later).input ≠ [] := by
    intro hnil
    have hbytes := (List.append_eq_nil_iff.mp hnil).1
    exact call.header_ne_nil (List.append_eq_nil_iff.mp hbytes).1
  have htake : (call.stream later).input.take (call.firstRead later) =
      call.header ++ call.extra later := by
    show (call.header ++ call.body ++ later).take _ = _
    rw [List.append_assoc, List.take_append, List.take_of_length_le hheader]
    rfl
  have hextra : (call.extra later).length ≤ call.firstRead later - call.header.length :=
    List.length_take_le _ _
  have hshort : (call.header ++ call.extra later).length < 2 ^ 31 := by
    rw [List.length_append]
    omega
  obtain ⟨machine, hcs, hexecute⟩ := call.execute_followed hshort
  refine ⟨machine, ?_⟩
  have hsound : HttpRequestParser.hasError ⟨call.parser.toParsed, machine⟩ = false := by
    have := call.sound
    rw [HttpRequestParser.hasError, HttpParser.hasError] at this ⊢
    rw [hcs]
    exact this
  have hfinished : HttpRequestParser.isFinished ⟨call.parser.toParsed, machine⟩ ≠ 0 := by
    have := call.finished
    rw [HttpRequestParser.isFinished, HttpParser.finish, HttpParser.hasError,
      HttpParser.isFinished] at this ⊢
    rw [hcs, this]
    decide
  have hdrop : (call.header ++ call.extra later).drop call.header.length = call.extra later :=
    List.drop_left
  obtain ⟨byte, bytes, hcons⟩ : ∃ byte bytes, call.header ++ call.extra later = byte :: bytes :=
    List.exists_cons_of_ne_nil fun h => call.header_ne_nil (List.append_eq_nil_iff.mp h).1
  have hroom : (call.extra later).length ≠ HttpSession.buffSize := by
    show (call.extra later).length ≠ 65532
    omega
  rw [HttpSession.recvHeader, List.length_nil, Nat.sub_zero, Stream.read_connected rfl hne,
    show (call.stream later).count HttpSession.buffSize = call.firstRead later from rfl, htake,
    hcons]
  simp only [List.nil_append, ← hcons, hexecute, hdrop, hsound, hroom, bind, Except.bind,
    if_false, Bool.false_eq_true, if_pos hfinished]
  rfl

theorem lexicalCast_lt {text : Bytes} {value : Nat} (h : lexicalCast text = some value) :
    value < 2 ^ 64 := by
  unfold lexicalCast at h
  split at h
  · cases h
  · split at h
    · cases h
      split
      · exact Nat.mod_lt _ (by decide)
      · assumption
    · cases h

theorem body_lt (call : Call) : call.body.length < 2 ^ 64 := by
  rw [call.length]
  unfold HttpRequest.getContentLength
  split
  · decide
  · rename_i value _
    cases hcast : lexicalCast value with
    | none => decide
    | some n => exact lexicalCast_lt hcast

/-- No callback touches the body. -/
theorem body_call {parsed parsed' : Parsed} {r : Report} (h : parsed.call r = .ok parsed') :
    parsed'.data.body = parsed.data.body := by
  cases r with
  | element kind start length =>
      cases kind with
      | requestMethod =>
          cases h
          unfold Parsed.onRequestMethod
          dsimp only
          split <;> rfl
      | httpVersion =>
          cases h
          unfold Parsed.onRequestVersion
          split <;> rfl
      | requestUri =>
          cases h
          rfl
      | headerDone =>
          cases h
          rfl
      | fragment =>
          obtain ⟨text, -, h⟩ := bind_eq_ok.mp h
          cases h
          rfl
      | queryString =>
          obtain ⟨text, -, h⟩ := bind_eq_ok.mp h
          cases h
          rfl
      | requestPath =>
          obtain ⟨text, -, h⟩ := bind_eq_ok.mp h
          cases h
          rfl
  | httpField field flen value vlen =>
      simp only [Parsed.call, Parsed.onRequestHttpField] at h
      split at h
      · cases h
        rfl
      · obtain ⟨key, -, h⟩ := bind_eq_ok.mp h
        obtain ⟨text, -, h⟩ := bind_eq_ok.mp h
        cases h
        rfl

theorem body_calls {parsed parsed' : Parsed} {rs : List Report}
    (h : rs.foldlM Parsed.call parsed = .ok parsed') :
    parsed'.data.body = parsed.data.body := by
  induction rs generalizing parsed with
  | nil =>
      cases h
      rfl
  | cons r rs ih =>
      rw [List.foldlM_cons] at h
      obtain ⟨middle, hfirst, hrest⟩ := bind_eq_ok.mp h
      rw [ih hrest, body_call hfirst]

theorem body_nil (call : Call) : call.parser.data.body = [] :=
  body_calls call.run_header.1

theorem body_init (req : HttpRequest) : req.init.body = req.body := by
  unfold HttpRequest.init
  split
  · rfl
  · split <;> rfl

/-- The stream behind the first read, seen from behind the header. -/
theorem drop_firstRead (h : call.Completes) :
    (call.bytes ++ later).drop (call.firstRead later) =
      (call.body ++ later).drop (call.firstRead later - call.header.length) := by
  have hheader := header_le_firstRead h later
  rw [WireRequest.bytes, List.append_assoc, List.drop_append, List.drop_of_length_le hheader]
  rfl

theorem length_extra (h : call.Completes) (later : Bytes) :
    (call.extra later).length = call.firstRead later - call.header.length := by
  have hheader := header_le_firstRead h later
  have hthere := (Stream.count_le (call.stream later) HttpSession.buffSize).2
  have hle : call.firstRead later ≤ (call.header ++ call.body ++ later).length := hthere
  rw [List.append_assoc, List.length_append] at hle
  exact List.length_take_of_le (by omega)

theorem recvRequest_of_not_pos (h : call.Completes)
    (hlength : ¬ 0 < toInt64 call.body.length) :
    HttpSession.recvRequest call.memory (call.stream later) =
      .ok (some call.parser.data.init,
        ⟨(call.bytes ++ later).drop (call.firstRead later), fun i => call.sizes (i + 1), true⟩) := by
  obtain ⟨machine, hheader⟩ := recvHeader_eq h later (call.stream later).input.length
  rw [call.length] at hlength
  simp only [HttpSession.recvRequest, hheader, bind, Except.bind, if_neg hlength]

theorem recvRequest_of_pos (h : call.Completes) (hlength : 0 < toInt64 call.body.length) :
    HttpSession.recvRequest call.memory (call.stream later) =
      .ok (match HttpSession.recvBody (toInt64 call.body.length) (call.extra later)
          ⟨(call.bytes ++ later).drop (call.firstRead later), fun i => call.sizes (i + 1),
            true⟩ with
        | (none, stream) => (none, stream)
        | (some body, stream) =>
            (some (HttpRequest.init { call.parser.data with body := body }), stream)) := by
  obtain ⟨machine, hheader⟩ := recvHeader_eq h later (call.stream later).input.length
  rw [call.length] at hlength
  simp only [HttpSession.recvRequest, hheader, bind, Except.bind, if_pos hlength, call.length]
  split <;> rfl

theorem recvBody_of_le (h : call.Completes) (stream : Stream)
    (hle : call.body.length ≤ call.firstRead later - call.header.length) :
    HttpSession.recvBody call.body.length (call.extra later) stream =
      (some call.body, stream) := by
  have hextra := length_extra h later
  have hcopied : (if ((call.extra later).length : Int) ≤ call.body.length then call.extra later
      else (call.extra later).take (call.body.length : Int).toNat) = call.body := by
    have hbody : (call.extra later).take call.body.length = call.body := by
      rw [extra, List.take_take, Nat.min_eq_left hle, List.take_left]
    split
    · rw [List.take_of_length_le (by omega)] at hbody
      exact hbody
    · rw [Int.toNat_natCast]
      exact hbody
  unfold HttpSession.recvBody
  dsimp only
  rw [hcopied, if_neg (by omega)]

/-- The rest of the body is read, and lost if its length is not positive in an `int`. -/
theorem recvBody_of_lt (h : call.Completes) (sizes : Nat → Nat)
    (hlt : call.firstRead later - call.header.length < call.body.length) :
    ∃ sizes', HttpSession.recvBody call.body.length (call.extra later)
        ⟨(call.bytes ++ later).drop (call.firstRead later), sizes, true⟩ =
      if Stream.toInt (call.bytes.length - call.firstRead later) ≤ 0 then
        (none, ⟨later, sizes', false⟩)
      else (some call.body, ⟨later, sizes', true⟩) := by
  have hheader := header_le_firstRead h later
  have hextra := length_extra h later
  have hrest : call.body.length - (call.firstRead later - call.header.length) =
      call.bytes.length - call.firstRead later := by
    rw [WireRequest.bytes, List.length_append]
    omega
  have hcopied : call.extra later =
      call.body.take (call.firstRead later - call.header.length) := by
    rw [extra, List.take_append_of_le_length (by omega)]
  have hdrop : (call.bytes ++ later).drop (call.firstRead later) =
      call.body.drop (call.firstRead later - call.header.length) ++ later := by
    rw [drop_firstRead h, List.drop_append_of_le_length (by omega)]
  have hlength : (call.body.drop (call.firstRead later - call.header.length)).length =
      call.bytes.length - call.firstRead later := by
    rw [List.length_drop, hrest]
  obtain ⟨sizes', hloop⟩ := Stream.readLoop_eq (Nat.le_refl (call.bytes.length -
    call.firstRead later)) (s := ⟨(call.bytes ++ later).drop (call.firstRead later), sizes, true⟩)
    rfl (by rw [hdrop, List.length_append, hlength]; omega)
  refine ⟨sizes', ?_⟩
  have htoNat : ((call.body.length : Int) - (call.extra later).length).toNat =
      call.bytes.length - call.firstRead later := by omega
  have hall : (if ((call.extra later).length : Int) ≤ call.body.length then call.extra later
      else (call.extra later).take (call.body.length : Int).toNat) = call.extra later :=
    if_pos (by omega)
  have htake : (call.body.drop (call.firstRead later - call.header.length) ++ later).take
      (call.bytes.length - call.firstRead later) =
      call.body.drop (call.firstRead later - call.header.length) :=
    List.take_left' hlength
  have hlater : (call.body.drop (call.firstRead later - call.header.length) ++ later).drop
      (call.bytes.length - call.firstRead later) = later :=
    List.drop_left' hlength
  unfold HttpSession.recvBody
  dsimp only
  rw [hall, if_pos (by omega), htoNat, Stream.readFixSize, hloop]
  dsimp only
  rw [hdrop, htake, hlater, hcopied, List.take_append_drop]
  rfl

theorem toInt64_of_fits (hfits : call.body.length < 2 ^ 63) :
    toInt64 call.body.length = call.body.length := if_pos hfits

/-- A call that is exact returns the request and leaves the rest. -/
theorem Exact.recvRequest (hexact : call.Exact later) (h : call.Completes) :
    ∃ sizes, HttpSession.recvRequest call.memory (call.stream later) =
      .ok (some call.request, ⟨later, sizes, true⟩) := by
  have hheader := header_le_firstRead h later
  have hbytes : call.bytes.length = call.header.length + call.body.length := by
    rw [WireRequest.bytes, List.length_append]
  have hwithin := hexact.within
  by_cases hpos : call.body.length = 0
  · refine ⟨fun i => call.sizes (i + 1), (recvRequest_of_not_pos h ?_).trans ?_⟩
    · rw [hpos]
      decide
    · have hbody : call.body = [] := List.length_eq_zero_iff.mp hpos
      have hfirst : call.firstRead later = call.bytes.length := by omega
      rw [hfirst, List.drop_left, WireRequest.request, hbody, ← call.body_nil]
  · have hlength : 0 < toInt64 call.body.length := by
      rw [toInt64_of_fits hexact.fits]
      omega
    rcases Nat.lt_or_ge (call.firstRead later - call.header.length) call.body.length with hlt | hge
    · obtain ⟨sizes, hbody⟩ := recvBody_of_lt h (fun i => call.sizes (i + 1)) hlt
      have hint : ¬ Stream.toInt (call.bytes.length - call.firstRead later) ≤ 0 := by
        rcases hexact.rest with heq | hint
        · omega
        · exact Int.not_le.mpr hint
      rw [if_neg hint] at hbody
      refine ⟨sizes, (recvRequest_of_pos h hlength).trans ?_⟩
      rw [toInt64_of_fits hexact.fits, hbody]
      rfl
    · have hfirst : call.firstRead later = call.bytes.length := by omega
      refine ⟨fun i => call.sizes (i + 1), (recvRequest_of_pos h hlength).trans ?_⟩
      rw [toInt64_of_fits hexact.fits, recvBody_of_le h _ hge, hfirst, List.drop_left]
      rfl

theorem exact_of_recvRequest (h : call.Completes) {stream : Stream}
    (hrecv : HttpSession.recvRequest call.memory (call.stream later) =
      .ok (some call.request, stream)) (hinput : stream.input = later) : call.Exact later := by
  have hheader := header_le_firstRead h later
  have hbytes : call.bytes.length = call.header.length + call.body.length := by
    rw [WireRequest.bytes, List.length_append]
  have hthere : call.firstRead later ≤ call.bytes.length + later.length := by
    rw [← List.length_append]
    exact (Stream.count_le (call.stream later) HttpSession.buffSize).2
  -- Where the buffer goes unread, the stream has lost what the first read took.
  have hwithin : ∀ sizes, stream = ⟨(call.bytes ++ later).drop (call.firstRead later), sizes, true⟩ →
      call.firstRead later = call.bytes.length := by
    rintro sizes rfl
    have := congrArg List.length hinput
    rw [List.length_drop, List.length_append] at this
    omega
  by_cases hlength : 0 < toInt64 call.body.length
  · have hfits : call.body.length < 2 ^ 63 := by
      by_contra hlarge
      have := call.body_lt
      rw [toInt64, if_neg hlarge] at hlength
      omega
    rw [recvRequest_of_pos h hlength, toInt64_of_fits hfits] at hrecv
    rcases Nat.lt_or_ge (call.firstRead later - call.header.length) call.body.length with hlt | hge
    · obtain ⟨sizes, hbody⟩ := recvBody_of_lt h (fun i => call.sizes (i + 1)) hlt
      rw [hbody] at hrecv
      by_cases hint : Stream.toInt (call.bytes.length - call.firstRead later) ≤ 0
      · rw [if_pos hint] at hrecv
        cases congrArg Prod.fst (Except.ok.inj hrecv)
      · exact ⟨by omega, .inr (Int.not_le.mp hint), hfits⟩
    · rw [recvBody_of_le h _ hge] at hrecv
      have hfirst := hwithin _ (congrArg Prod.snd (Except.ok.inj hrecv)).symm
      exact ⟨hfirst.le, .inl hfirst, hfits⟩
  · rw [recvRequest_of_not_pos h hlength] at hrecv
    have hfirst := hwithin _ (congrArg Prod.snd (Except.ok.inj hrecv)).symm
    have hreq : call.parser.data.init = call.request :=
      Option.some.inj (congrArg Prod.fst (Except.ok.inj hrecv))
    have hbody : call.body = [] := by
      have := congrArg HttpRequest.body hreq
      rw [body_init, call.body_nil, WireRequest.request, body_init] at this
      exact this.symm
    refine ⟨hfirst.le, .inl hfirst, ?_⟩
    rw [hbody]
    decide

end Call

/-! ## A connection -/

/-- What is on the wire. -/
def wire (calls : List Call) : Bytes := calls.flatMap fun call => call.bytes

/-- Calls one after another, each with the request it returns and what is unread then. -/
def serve : List Call → Stream → Except Fault (List (Option HttpRequest × Bytes))
  | [], _ => .ok []
  | call :: calls, stream => do
      let (req, stream) ← HttpSession.recvRequest call.memory { stream with sizes := call.sizes }
      let rest ← serve calls stream
      .ok ((req, stream.input) :: rest)

/-- Every request, and behind it exactly the requests that follow. -/
def served : List Call → List (Option HttpRequest × Bytes)
  | [] => []
  | call :: calls => (some call.request, wire calls) :: served calls

/-- The calls return the requests in order, and no byte is missing in between. -/
def NothingLost (calls : List Call) : Prop :=
  ∀ sizes, serve calls ⟨wire calls, sizes, true⟩ = .ok (served calls)

/-- Every call is exact, for what follows its request. -/
def AllExact : List Call → Prop
  | [] => True
  | call :: calls => call.Exact (wire calls) ∧ AllExact calls

theorem serve_sizes (calls : List Call) (input : Bytes) (connected : Bool)
    (sizes sizes' : Nat → Nat) :
    serve calls ⟨input, sizes, connected⟩ = serve calls ⟨input, sizes', connected⟩ := by
  cases calls <;> rfl

theorem NothingLost.head {call : Call} {calls : List Call} (h : NothingLost (call :: calls))
    (hcall : call.Completes) : call.Exact (wire calls) ∧ NothingLost calls := by
  have hserve := h call.sizes
  rw [serve, show { (⟨wire (call :: calls), call.sizes, true⟩ : Stream) with
    sizes := call.sizes } = call.stream (wire calls) from rfl] at hserve
  obtain ⟨⟨req, stream⟩, hrecv, hserve⟩ := bind_eq_ok.mp hserve
  obtain ⟨rest, hrest, hserve⟩ := bind_eq_ok.mp hserve
  simp only [Except.ok.injEq, served, List.cons.injEq, Prod.mk.injEq] at hserve
  obtain ⟨⟨rfl, hinput⟩, rfl⟩ := hserve
  have hexact := Call.exact_of_recvRequest hcall hrecv hinput
  obtain ⟨sizes, hrecv'⟩ := hexact.recvRequest hcall
  rw [hrecv] at hrecv'
  cases hrecv'
  refine ⟨hexact, fun sizes' => ?_⟩
  rw [serve_sizes calls _ _ sizes' sizes]
  exact hrest

theorem NothingLost.cons {call : Call} {calls : List Call} (hexact : call.Exact (wire calls))
    (hcall : call.Completes) (h : NothingLost calls) : NothingLost (call :: calls) := by
  intro sizes
  obtain ⟨sizes', hrecv⟩ := hexact.recvRequest hcall
  rw [serve, show { (⟨wire (call :: calls), sizes, true⟩ : Stream) with
    sizes := call.sizes } = call.stream (wire calls) from rfl, hrecv]
  simp only [bind, Except.bind, h sizes']
  rfl

theorem nothing_lost_iff (calls : List Call) (hcompletes : ∀ call ∈ calls, call.Completes) :
    NothingLost calls ↔ AllExact calls := by
  induction calls with
  | nil => exact ⟨fun _ => trivial, fun _ _ => rfl⟩
  | cons call calls ih =>
      obtain ⟨hcall, hcalls⟩ := List.forall_mem_cons.mp hcompletes
      constructor
      · intro h
        obtain ⟨hexact, hrest⟩ := h.head hcall
        exact ⟨hexact, (ih hcalls).mp hrest⟩
      · rintro ⟨hexact, hrest⟩
        exact .cons hexact hcall ((ih hcalls).mpr hrest)

/-- `GET /` without headers, 18 bytes long. -/
def getRoot : WireRequest :=
  (WireRequest.ofBytes? ⟨0, 0, 0, 0, 0, 0, 0, 0, false, false, false⟩
    (ascii "GET / HTTP/1.1\r\n\r\n") []).get (by decide +kernel)

theorem getRoot_bytes : getRoot.header = ascii "GET / HTTP/1.1\r\n\r\n" ∧ getRoot.body = [] :=
  WireRequest.bytes_of_ofBytes? (Option.some_get _).symm

/-- A call for it whose reads return up to `n` bytes. -/
def getRootIn (n : Nat) : Call := ⟨getRoot, fun _ => n⟩

theorem getRootIn_bytes (n : Nat) : (getRootIn n).bytes.length = 18 := by
  show (getRoot.header ++ getRoot.body).length = 18
  rw [getRoot_bytes.1, getRoot_bytes.2]
  rfl

theorem getRootIn_completes {n : Nat} (h : 18 ≤ n) : (getRootIn n).Completes := by
  have hlength : (getRootIn n).header.length = 18 := by
    show getRoot.header.length = 18
    rw [getRoot_bytes.1]
    rfl
  rw [Call.Completes, hlength]
  exact ⟨h, by decide⟩

theorem getRootIn_firstRead (n : Nat) (later : Bytes) :
    (getRootIn n).firstRead later = min (max 1 n) (min 65532 (18 + later.length)) := by
  show min (max 1 n) (min 65532 ((getRootIn n).bytes ++ later).length) = _
  rw [List.length_append, getRootIn_bytes]

theorem nothing_lost_sample : NothingLost [getRootIn 18, getRootIn 18] := by
  have hexact : ∀ later, (getRootIn 18).Exact later := by
    intro later
    have hfirst : (getRootIn 18).firstRead later = (getRootIn 18).bytes.length := by
      rw [getRootIn_firstRead, getRootIn_bytes]
      omega
    refine ⟨hfirst.le, .inl hfirst, ?_⟩
    show getRoot.body.length < 2 ^ 63
    rw [getRoot_bytes.2]
    decide
  refine (nothing_lost_iff _ ?_).mpr ⟨hexact _, hexact _, trivial⟩
  simp [getRootIn_completes (Nat.le_refl 18)]

/-- Both requests arrive in one read, and the second one goes with the buffer of the first. -/
theorem pipelined_request_lost :
    (∀ call ∈ [getRootIn 36, getRootIn 36], call.Completes) ∧
      ¬ NothingLost [getRootIn 36, getRootIn 36] := by
  have hcompletes : (getRootIn 36).Completes := getRootIn_completes (by decide)
  refine ⟨by simp [hcompletes], fun h => ?_⟩
  have hwithin := (h.head hcompletes).1.within
  have hlater : (wire [getRootIn 36]).length = 18 := by
    rw [wire, List.flatMap_singleton, getRootIn_bytes]
  rw [getRootIn_firstRead, getRootIn_bytes, hlater] at hwithin
  omega

end Qslary.Http

import Qslary.Http.Message
import Qslary.Http.RequestTable

/-!
# The request parser

`http_parser_execute` runs the automaton over one buffer and calls back with the
tokens it finds, which it cuts out of that buffer at its registers.  The state of the
automaton survives a call; `mark`, `field_start` and `field_len` begin every call at
zero.  `HttpRequestParser` keeps the request that the callbacks put together.
-/

namespace Qslary.Http

open Qslary.Foundation

inductive Fault where
  | assertion
  | length
  deriving DecidableEq, Repr

namespace Request

/-- The calls of `element_cb` type. -/
inductive Element where
  | requestMethod | requestUri | fragment | queryString | httpVersion | requestPath | headerDone
  deriving DecidableEq, Repr

/--
A callback with its arguments.  A pointer into the buffer is what the buffer holds from
there on.
-/
inductive Report where
  | element (kind : Element) (start : Bytes) (length : Nat)
  | httpField (field : Bytes) (flen : Nat) (value : Bytes) (vlen : Nat)
  deriving DecidableEq, Repr

end Request

/-- `http_parser`; nothing sets `queryStart` and `uriRelaxed` before the first call. -/
structure HttpParser where
  cs : Nat
  bodyStart : Nat
  contentLen : Nat
  nread : Nat
  mark : Nat
  fieldStart : Nat
  fieldLen : Nat
  queryStart : Nat
  xmlSent : Bool
  jsonSent : Bool
  uriRelaxed : Bool

namespace HttpParser

open Request

def init (parser : HttpParser) : HttpParser :=
  { parser with
    cs := 1, bodyStart := 0, contentLen := 0, mark := 0, nread := 0, fieldLen := 0,
    fieldStart := 0, xmlSent := false, jsonSent := false }

/-- A difference of offsets, in `size_t`. -/
def len (start p : Nat) : Nat := if start ≤ p then p - start else 2 ^ 64 - (start - p)

/-- The element that a token starting at `start` and ending before `p` is reported as. -/
def report (buffer : Bytes) (p start : Nat) (kind : Element) : Report :=
  .element kind (buffer.drop start) (len start p)

def headerDone (buffer : Bytes) (p : Nat) (parser : HttpParser) : HttpParser × List Report :=
  if parser.xmlSent || parser.jsonSent then
    ({ parser with bodyStart := parser.mark, contentLen := p - parser.mark + 1 }, [])
  else
    ({ parser with bodyStart := p + 1 },
      [.element .headerDone (buffer.drop (p + 1)) (buffer.length - p - 1)])

/-- One action of the automaton, standing on the byte at `p`. -/
def perform (buffer : Bytes) (p : Nat) (parser : HttpParser) : Action → HttpParser × List Report
  | .mark => ({ parser with mark := p }, [])
  | .fieldStart => ({ parser with fieldStart := p }, [])
  | .fieldLen => ({ parser with fieldLen := len parser.fieldStart p }, [])
  | .queryStart => ({ parser with queryStart := p }, [])
  | .httpField =>
      (parser, [.httpField (buffer.drop parser.fieldStart) parser.fieldLen
        (buffer.drop parser.mark) (len parser.mark p)])
  | .requestMethod => (parser, [report buffer p parser.mark .requestMethod])
  | .requestUri => (parser, [report buffer p parser.mark .requestUri])
  | .fragment => (parser, [report buffer p parser.mark .fragment])
  | .queryString => (parser, [report buffer p parser.queryStart .queryString])
  | .httpVersion => (parser, [report buffer p parser.mark .httpVersion])
  | .requestPath => (parser, [report buffer p parser.mark .requestPath])
  | .xmlSent => ({ parser with xmlSent := true }, [])
  | .jsonSent => ({ parser with jsonSent := true }, [])
  | .headerDone => parser.headerDone buffer p

/-- The parser along a scan, with the callbacks made so far. -/
def act (buffer : Bytes) (p : Nat) (state : HttpParser × List Report) (action : Action) :
    HttpParser × List Report :=
  let (parser, reports) := state.1.perform buffer p action
  (parser, state.2 ++ reports)

def haltState : Halt Nat → Nat
  | .failed => 0
  | .stopped cs => cs
  | .ended cs => cs

/-- What a call begins with. -/
def rewind (parser : HttpParser) : HttpParser :=
  { parser with nread := 0, mark := 0, fieldLen := 0, fieldStart := 0 }

def hasError (parser : HttpParser) : Bool := parser.cs = 0

def isFinished (parser : HttpParser) : Bool := 348 ≤ parser.cs

def finish (parser : HttpParser) : Int :=
  if parser.hasError then -1 else if parser.isFinished then 1 else 0

/-- What a call leaves behind after the scan. -/
def settle (parser : HttpParser) (halt : Halt Nat) (position : Nat) : HttpParser :=
  { parser with
    cs := if parser.hasError then parser.cs else haltState halt
    nread := parser.nread + position }

/-- The assertions at the end of a call. -/
def sound (parser : HttpParser) (length : Nat) : Bool :=
  parser.nread ≤ length && parser.bodyStart ≤ length && parser.mark < length &&
    parser.fieldLen ≤ length && parser.fieldStart < length

/-- The scan of a call, with the callbacks it makes. -/
def run (parser : HttpParser) (buffer : Bytes) : Scanned Nat (HttpParser × List Report) :=
  scan (next parser.uriRelaxed) (act buffer) parser.cs 0 buffer (parser.rewind, [])

/-- `http_parser_execute` with offset 0: the callbacks it makes, and what it returns. -/
def execute (parser : HttpParser) (buffer : Bytes) :
    Except Fault (HttpParser × List Report × Nat) :=
  if buffer.length = 0 then .ok (parser, [], 0)
  -- `(int)len` is the length of the buffer only below 2^31.
  else if 2 ^ 31 ≤ buffer.length then .error .assertion
  else
    let scanned := parser.run buffer
    let parser := scanned.state.1.settle scanned.halt scanned.position
    if parser.sound buffer.length then .ok (parser, scanned.state.2, parser.nread)
    else .error .assertion

end HttpParser

/-! ## Callbacks -/

/-- `CharsToHttpMethod`: the first name of the map that the characters begin with. -/
def charsToHttpMethod (chars : Bytes) : HttpMethod :=
  match httpMethodMap.find? fun entry => (ascii entry.2).isPrefixOf chars with
  | some entry => entry.1
  | none => .UNKNOW

/-- `std::string(start, length)` -/
def string (start : Bytes) (length : Nat) : Except Fault Bytes :=
  if length ≤ start.length then .ok (start.take length) else .error .length

/-- `strncmp(start, text, length) == 0` for a text without a NUL. -/
def strneq (start text : Bytes) (length : Nat) : Bool :=
  (start.takeWhile (· ≠ 0) ++ [0]).take length = (text ++ [0]).take length

def versionOf (start : Bytes) (length : Nat) : Option UInt8 :=
  if strneq start (ascii "HTTP/1.1") length then some 0x11
  else if strneq start (ascii "HTTP/1.0") length then some 0x10
  else none

/-- What the callbacks of `HttpRequestParser` work on. -/
structure Parsed where
  error : Nat
  data : HttpRequest

namespace Parsed

open Request

def onRequestMethod (parsed : Parsed) (start : Bytes) : Parsed :=
  let method := charsToHttpMethod start
  if method = .UNKNOW then { parsed with error := 1000 }
  else { parsed with data := { parsed.data with method := method } }

def onRequestVersion (parsed : Parsed) (start : Bytes) (length : Nat) : Parsed :=
  match versionOf start length with
  | some version => { parsed with data := { parsed.data with version := version } }
  | none => { parsed with error := 1001 }

def onRequestHttpField (parsed : Parsed) (field : Bytes) (flen : Nat) (value : Bytes)
    (vlen : Nat) : Except Fault Parsed :=
  if flen = 0 then .ok parsed
  else do
    let key ← string field flen
    let text ← string value vlen
    .ok { parsed with data := parsed.data.setHeaderEntry key text }

/-- The callbacks that the constructor installs. -/
def call (parsed : Parsed) : Report → Except Fault Parsed
  | .element .requestMethod start _ => .ok (parsed.onRequestMethod start)
  | .element .requestUri _ _ => .ok parsed
  | .element .fragment start length => do
      let text ← string start length
      .ok { parsed with data := { parsed.data with fragment := text } }
  | .element .queryString start length => do
      let text ← string start length
      .ok { parsed with data := { parsed.data with query := text } }
  | .element .httpVersion start length => .ok (parsed.onRequestVersion start length)
  | .element .requestPath start length => do
      let text ← string start length
      .ok { parsed with data := { parsed.data with path := text } }
  | .element .headerDone _ _ => .ok parsed
  | .httpField field flen value vlen => parsed.onRequestHttpField field flen value vlen

end Parsed

structure HttpRequestParser extends Parsed where
  parser : HttpParser

namespace HttpRequestParser

/-- `HttpRequestParser()` over memory that holds `memory` before. -/
def new (memory : HttpParser) : HttpRequestParser := ⟨⟨0, .new⟩, memory.init⟩

/-- The number of bytes consumed; what follows them is moved to the front of the buffer. -/
def execute (parser : HttpRequestParser) (data : Bytes) :
    Except Fault (HttpRequestParser × Nat) := do
  let (machine, reports, offset) ← parser.parser.execute data
  let parsed ← reports.foldlM Parsed.call parser.toParsed
  .ok (⟨parsed, machine⟩, offset)

def isFinished (parser : HttpRequestParser) : Int := parser.parser.finish

def hasError (parser : HttpRequestParser) : Bool := parser.error ≠ 0 || parser.parser.hasError

end HttpRequestParser

end Qslary.Http

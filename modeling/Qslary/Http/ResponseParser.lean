import Qslary.Http.RequestParser
import Qslary.Http.ResponseTable

/-!
# The response parser

`httpclient_parser_execute` runs the automaton over one buffer, as `http_parser_execute`
does.  The caller says whether the buffer begins with the size line of a chunk, and then
the parser is initialised first: nothing of an earlier call is left.
-/

namespace Qslary.Http

open Qslary.Foundation Response

/-- `(int)value` -/
def intOf (value : Int) : Int := (value + 2 ^ 31) % 2 ^ 32 - 2 ^ 31

structure HttpclientParser where
  cs : Nat
  bodyStart : Nat
  contentLen : Int
  chunked : Bool
  chunksDone : Bool
  close : Bool
  nread : Nat
  mark : Nat
  fieldStart : Nat
  fieldLen : Nat

namespace HttpclientParser

def init : HttpclientParser := ⟨1, 0, -1, false, false, false, 0, 0, 0, 0⟩

/-- What a call begins with. -/
def rewind (parser : HttpclientParser) : HttpclientParser :=
  { parser with nread := 0, mark := 0, fieldLen := 0, fieldStart := 0 }

/-- What a call leaves behind after the scan. -/
def settle (parser : HttpclientParser) (halt : Halt Nat) (position : Nat) : HttpclientParser :=
  { parser with cs := HttpParser.haltState halt, nread := parser.nread + position }

/-- The checks at the end of a call; where one of them fails, the caller moves bytes from before
the buffer. -/
def sound (parser : HttpclientParser) (length : Nat) : Bool :=
  parser.nread ≤ length && parser.bodyStart ≤ length && parser.mark < length &&
    parser.fieldLen ≤ length && parser.fieldStart < length

def hasError (parser : HttpclientParser) : Bool := parser.cs = 0

def isFinished (parser : HttpclientParser) : Bool := parser.cs = 120

def finish (parser : HttpclientParser) : Int :=
  if parser.hasError then -1 else if parser.isFinished then 1 else 0

end HttpclientParser

structure HttpResponseParser where
  parser : HttpclientParser
  data : HttpResponse
  error : Nat

namespace HttpResponseParser

/-- `HttpResponseParser()` -/
def new : HttpResponseParser := ⟨.init, .new, 0⟩

/-! ## Callbacks -/

def onResponseReason (parser : HttpResponseParser) (start : Bytes) (length : Nat) :
    Except Fault HttpResponseParser := do
  let text ← string start length
  .ok { parser with data := { parser.data with reason := text } }

/-- `atoi` is `strtol` to the base 10, as an `int`. -/
def onResponseStatus (parser : HttpResponseParser) (start : Bytes) : HttpResponseParser :=
  { parser with data := { parser.data with
      status := UInt32.ofNat ((intOf (strtol 10 start)) % 2 ^ 32).toNat } }

def onResponseVersion (parser : HttpResponseParser) (start : Bytes) (length : Nat) :
    HttpResponseParser :=
  match versionOf start length with
  | some version => { parser with data := { parser.data with version := version } }
  | none => { parser with error := 1001 }

def onResponseHttpField (parser : HttpResponseParser) (field : Bytes) (flen : Nat)
    (value : Bytes) (vlen : Nat) : Except Fault HttpResponseParser :=
  if flen = 0 then .ok parser
  else do
    let key ← string field flen
    let text ← string value vlen
    .ok { parser with data := parser.data.setHeaderEntry key text }

/-! ## Calls -/

def set (parser : HttpResponseParser) (machine : HttpclientParser) : HttpResponseParser :=
  { parser with parser := machine }

/-- One action, standing on the byte at `p`; the callbacks for chunks do nothing. -/
def perform (buffer : Bytes) (p : Nat) (parser : HttpResponseParser) :
    Action → Except Fault HttpResponseParser
  | .mark => .ok (parser.set { parser.parser with mark := p })
  | .fieldStart => .ok (parser.set { parser.parser with fieldStart := p })
  | .fieldLen =>
      .ok (parser.set { parser.parser with fieldLen := HttpParser.len parser.parser.fieldStart p })
  | .contentLen =>
      .ok (parser.set { parser.parser with
        contentLen := intOf (strtol 10 (buffer.drop parser.parser.mark)) })
  | .connClose => .ok (parser.set { parser.parser with close := true })
  | .httpField =>
      parser.onResponseHttpField (buffer.drop parser.parser.fieldStart) parser.parser.fieldLen
        (buffer.drop parser.parser.mark) (HttpParser.len parser.parser.mark p)
  | .reasonPhrase =>
      parser.onResponseReason (buffer.drop parser.parser.mark)
        (HttpParser.len parser.parser.mark p)
  | .statusCode => .ok (parser.onResponseStatus (buffer.drop parser.parser.mark))
  | .httpVersion =>
      .ok (parser.onResponseVersion (buffer.drop parser.parser.mark)
        (HttpParser.len parser.parser.mark p))
  | .chunkSize =>
      let size := intOf (strtol 16 (buffer.drop parser.parser.mark))
      .ok (parser.set { parser.parser with
        chunked := true, contentLen := size, chunksDone := decide (size ≤ 0) })
  | .chunked => .ok (parser.set { parser.parser with chunked := true })
  | .headerDone => .ok (parser.set { parser.parser with bodyStart := p + 1 })

def act (buffer : Bytes) (p : Nat) (state : Except Fault HttpResponseParser) (action : Action) :
    Except Fault HttpResponseParser := do
  let parser ← state
  parser.perform buffer p action

def run (parser : HttpResponseParser) (buffer : Bytes) :
    Scanned Nat (Except Fault HttpResponseParser) :=
  scan next (act buffer) parser.parser.cs 0 buffer (.ok (parser.set parser.parser.rewind))

/-- The number of bytes consumed; what follows them is moved to the front of the buffer. -/
def execute (parser : HttpResponseParser) (data : Bytes) (chunck : Bool) :
    Except Fault (HttpResponseParser × Nat) :=
  if 2 ^ 31 ≤ data.length then .error .assertion
  else do
    let scanned := (if chunck then parser.set .init else parser).run data
    let parser ← scanned.state
    let machine := parser.parser.settle scanned.halt scanned.position
    if machine.sound data.length then .ok (parser.set machine, machine.nread)
    else .error .assertion

def isFinished (parser : HttpResponseParser) : Int := parser.parser.finish

def hasError (parser : HttpResponseParser) : Bool := parser.error ≠ 0 || parser.parser.hasError

end HttpResponseParser

end Qslary.Http

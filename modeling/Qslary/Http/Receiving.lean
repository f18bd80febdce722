import Qslary.Http.ResponseParser
import Qslary.Http.Session

/-!
# Receiving a response

`recvResponse` reads the header of a response and then its body, chunk by chunk if the
header says so.  The size line of a chunk is parsed in the buffer, and a chunk that does
not end in the buffer is read into the body together with the line end behind it.
-/

namespace Qslary.Http

open Qslary.Foundation

/-! ## Pieces -/

/--
A socket whose bytes arrive in pieces: `ends i` says that one ends behind the byte at `i`.
A read returns what is left of a piece, or as much of it as is asked for.
-/
structure Pieces where
  input : Bytes
  ends : Nat → Bool
  connected : Bool

namespace Pieces

/-- What a read for `length` bytes returns. -/
def arrived (ends : Nat → Bool) : Nat → Bytes → Bytes
  | 0, _ => []
  | _ + 1, [] => []
  | length + 1, x :: rest =>
      if ends 0 then [x] else x :: arrived (fun i => ends (i + 1)) length rest

def after (s : Pieces) (n : Nat) : Pieces :=
  { s with input := s.input.drop n, ends := fun i => s.ends (n + i) }

/-- `SockStream::read`; no bytes stand for a result that is not positive. -/
def read (s : Pieces) (length : Nat) : Bytes × Pieces :=
  if s.connected then
    let bytes := arrived s.ends length s.input
    (bytes, s.after bytes.length)
  else ([], s)

def close (s : Pieces) : Pieces := { s with connected := false }

/-- A loop of reads, each for what is left but not for more than `bound`. -/
def readAll (bound : Nat) : Nat → Pieces → Nat → Option Bytes × Pieces
  | _, s, 0 => (some [], s)
  | 0, s, _ + 1 => (none, s)
  | fuel + 1, s, left + 1 =>
      match s.read (min (left + 1) bound) with
      | ([], s) => (none, s)
      | (bytes, s) =>
          match readAll bound fuel s (left + 1 - bytes.length) with
          | (some rest, s) => (some (bytes ++ rest), s)
          | (none, s) => (none, s)

/-- `readFixSize(buffer, length)`, with the bytes it has put into the buffer. -/
def readFixSize (s : Pieces) (length : Nat) : Int × Bytes × Pieces :=
  match s.readAll length length length with
  | (some bytes, s) => (Stream.toInt length, bytes, s)
  | (none, s) => (0, [], s)

end Pieces

/-! ## Responses -/

namespace HttpResponseParser

/-- `getContentLength`; a value that is not a number leaves the length at zero. -/
def getContentLength (parser : HttpResponseParser) : Nat :=
  match parser.data.headers.find? (ascii "content-length") with
  | none => 0
  | some value => (lexicalCast value).getD 0

end HttpResponseParser

namespace HttpConnection

def buffSize : Nat := 65532

/-- An `int` that overflows, and a string that is cut to a negative length. -/
inductive Crash where
  | parser (fault : Fault)
  | overflow
  | length
  deriving DecidableEq, Repr

/-- The first loop, with the bytes that are left in the buffer. -/
def recvHeader : Nat → HttpResponseParser → Bytes → Pieces →
    Except Crash (Option (HttpResponseParser × Bytes) × Pieces)
  | 0, _, _, s => .ok (none, s)
  | fuel + 1, parser, data, s =>
      match s.read (buffSize - data.length) with
      | ([], s) => .ok (none, s.close)
      | (bytes, s) => do
          let data := data ++ bytes
          let (parser, nparse) ← (parser.execute data false).mapError .parser
          let data := data.drop nparse
          if parser.hasError then .ok (none, s.close)
          else if data.length = buffSize then .ok (none, s.close)
          else if parser.isFinished ≠ 0 then .ok (some (parser, data), s)
          else recvHeader fuel parser data s

/-- A read, if it is not the first turn or the buffer is empty. -/
def fill (begin : Bool) (data : Bytes) (s : Pieces) : Option Bytes × Pieces :=
  if !begin || data.length = 0 then
    match s.read (buffSize - data.length) with
    | ([], s) => (none, s.close)
    | (bytes, s) => (some (data ++ bytes), s)
  else (some data, s)

/-- The loop over the size line of a chunk. -/
def recvSize : Nat → Bool → HttpResponseParser → Bytes → Pieces →
    Except Crash (Option (HttpResponseParser × Bytes) × Pieces)
  | 0, _, _, _, s => .ok (none, s)
  | fuel + 1, begin, parser, data, s =>
      match fill begin data s with
      | (none, s) => .ok (none, s)
      | (some data, s) => do
          let (parser, nparse) ← (parser.execute data true).mapError .parser
          let data := data.drop nparse
          if parser.hasError then .ok (none, s.close)
          else if data.length = buffSize then .ok (none, s.close)
          else if parser.isFinished ≠ 0 then .ok (some (parser, data), s)
          else recvSize fuel false parser data s

/-- A chunk of `contentLen` bytes and a line end: the body with it, and what is in the buffer. -/
def recvChunk (contentLen : Int) (body data : Bytes) (s : Pieces) :
    Except Crash (Option (Bytes × Bytes) × Pieces) :=
  if 2 ^ 31 ≤ contentLen + 2 then .error .overflow
  else if contentLen + 2 ≤ data.length then
    if contentLen < 0 then .error .length
    else
      .ok (some (body ++ data.take contentLen.toNat, data.drop (contentLen.toNat + 2)), s)
  else
    let left := (contentLen - data.length + 2).toNat
    match s.readAll buffSize left left with
    | (none, s) => .ok (none, s.close)
    | (some bytes, s) =>
        let body := body ++ data ++ bytes
        if body.length < 2 then .error .length
        else .ok (some (body.take (body.length - 2), []), s)

/-- The loop over the chunks. -/
def recvChunks : Nat → HttpResponseParser → Bytes → Bytes → Pieces →
    Except Crash (Option (HttpResponseParser × Bytes) × Pieces)
  | 0, _, _, _, s => .ok (none, s)
  | fuel + 1, parser, body, data, s => do
      match ← recvSize (data.length + s.input.length + 1) true parser data s with
      | (none, s) => .ok (none, s)
      | (some (parser, data), s) =>
          match ← recvChunk parser.parser.contentLen body data s with
          | (none, s) => .ok (none, s)
          | (some (body, data), s) =>
              if parser.parser.chunksDone then .ok (some (parser, body), s)
              else recvChunks fuel parser body data s

/-- A body whose length the header says. -/
def recvFixed (length : Int) (data : Bytes) (s : Pieces) : Option Bytes × Pieces :=
  if length ≤ 0 then (some [], s)
  else
    let copied := if data.length ≤ length then data else data.take length.toNat
    let rest := length - data.length
    if 0 < rest then
      match s.readFixSize rest.toNat with
      | (result, bytes, s) =>
          if result ≤ 0 then (none, s.close) else (some (copied ++ bytes), s)
    else (some copied, s)

/-- `recvResponse`; no response stands for a null pointer. -/
def recvResponse (s : Pieces) : Except Crash (Option HttpResponse × Pieces) := do
  match ← recvHeader (s.input.length + 1) .new [] s with
  | (none, s) => .ok (none, s)
  | (some (parser, data), s) =>
      if parser.parser.chunked then
        match ← recvChunks (data.length + s.input.length + 1) parser [] data s with
        | (none, s) => .ok (none, s)
        | (some (parser, body), s) => .ok (some { parser.data with body := body }, s)
      else
        match recvFixed (toInt64 parser.getContentLength) data s with
        | (none, s) => .ok (none, s)
        | (some body, s) => .ok (some { parser.data with body := body }, s)

end HttpConnection

end Qslary.Http

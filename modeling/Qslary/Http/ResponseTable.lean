import Qslary.Foundation.Rows

/-!
# The response automaton

The states and edges of the generated parser in `http_response_parser.cc`, which takes the
header of a response or the size line of a chunk.  A byte that no edge takes leads to the
error state.  Characters are signed in the source, so that its negative ones are the bytes
from 128 on.
-/

namespace Qslary.Http.Response

open Qslary.Foundation

/-- What the edges do, under the names of the registers and callbacks. -/
inductive Action where
  | mark | fieldStart | fieldLen | contentLen | connClose | httpField | reasonPhrase | statusCode
  | httpVersion | chunkSize | chunked | headerDone
  deriving DecidableEq, Repr

/-- A letter in either case. -/
def onLetter (upper : Nat) (actions : List Action) (target : Nat) : Arc Action :=
  ⟨[(upper, upper), (upper + 32, upper + 32)], actions, target⟩

/-! ## Sets of bytes -/

def digit : List (Nat × Nat) := [(48, 57)]

def hexDigit : List (Nat × Nat) := [(48, 57), (65, 70), (97, 102)]

def tokenByte : List (Nat × Nat) :=
  [(33, 33), (35, 39), (42, 43), (45, 46), (48, 57), (65, 90), (94, 122), (124, 124), (126, 126)]

def reasonByte : List (Nat × Nat) := [(0, 9), (11, 255)]

def valueByte : List (Nat × Nat) := [(0, 9), (11, 12), (14, 255)]

def foldByte : List (Nat × Nat) := [(9, 13), (32, 32)]

/-! ## The table -/

/--
Row `cs` is `case cs` of the switch; 0 is the error state, 120 is final.  A header whose last
field is a `Transfer-Encoding`, `Connection` or `Content-Length` without a value ends in 121, 122
or 123, which are not.
-/
def table : List (List (Arc Action)) :=
  [
    -- 0
    [],
    [on 72 [.mark] 8, onAny hexDigit [.mark] 2],
    [on 13 [.chunkSize] 3, on 59 [.chunkSize] 4, on 10 [.chunkSize, .headerDone] 120,
      onAny hexDigit [] 2],
    [on 10 [.headerDone] 120],
    [onAny tokenByte [.fieldStart] 5],
    [on 13 [.fieldLen, .mark, .httpField] 3, on 59 [.fieldLen, .mark, .httpField] 4,
      on 61 [.fieldLen, .mark] 6, on 10 [.fieldLen, .mark, .httpField, .headerDone] 120,
      onAny tokenByte [] 5],
    [onAny tokenByte [.mark] 7],
    [on 13 [.httpField] 3, on 59 [.httpField] 4, on 10 [.httpField, .headerDone] 120,
      onAny tokenByte [] 7],
    [on 84 [] 9],
    [on 84 [] 10],
    -- 10
    [on 80 [] 11],
    [on 47 [] 12],
    [onAny digit [] 13],
    [on 46 [] 14, onAny digit [] 13],
    [onAny digit [] 15],
    [on 32 [.httpVersion] 16, onAny digit [] 15],
    [onAny digit [.mark] 17],
    [on 32 [.statusCode] 18, onAny digit [] 17],
    [onAny reasonByte [.mark] 19],
    [on 10 [.reasonPhrase] 20, on 13 [.reasonPhrase] 24, onAny valueByte [] 19],
    -- 20
    [on 13 [] 3, on 10 [.headerDone] 120, onLetter 67 [.fieldStart] 25,
      onLetter 84 [.fieldStart] 44, onAny tokenByte [.fieldStart] 21],
    [on 58 [.fieldLen] 22, onAny tokenByte [] 21],
    [on 10 [.mark, .httpField] 20, on 13 [.mark, .httpField] 24, onAny foldByte [.mark] 22,
      onAny reasonByte [.mark] 23],
    [on 10 [.httpField] 20, on 13 [.httpField] 24, onAny valueByte [] 23],
    [on 10 [] 20],
    [on 58 [.fieldLen] 22, onLetter 79 [] 26, onAny tokenByte [] 21],
    [on 58 [.fieldLen] 22, onLetter 78 [] 27, onAny tokenByte [] 21],
    [on 58 [.fieldLen] 22, onLetter 78 [] 28, onLetter 84 [] 101, onAny tokenByte [] 21],
    [on 58 [.fieldLen] 22, onLetter 69 [] 29, onAny tokenByte [] 21],
    [on 58 [.fieldLen] 22, onLetter 67 [] 30, onAny tokenByte [] 21],
    -- 30
    [on 58 [.fieldLen] 22, onLetter 84 [] 31, onAny tokenByte [] 21],
    [on 58 [.fieldLen] 22, onLetter 73 [] 32, onAny tokenByte [] 21],
    [on 58 [.fieldLen] 22, onLetter 79 [] 33, onAny tokenByte [] 21],
    [on 58 [.fieldLen] 22, onLetter 78 [] 34, onAny tokenByte [] 21],
    [on 58 [.fieldLen] 35, onAny tokenByte [] 21],
    [on 10 [.mark, .httpField] 36, on 13 [.mark, .httpField] 95, onLetter 67 [.mark] 96,
      onAny foldByte [.mark] 35, onAny reasonByte [.mark] 23],
    [on 13 [] 89, on 10 [.headerDone] 122, onLetter 84 [.fieldStart] 44,
      onLetter 67 [.fieldStart] 90, onAny foldByte [] 37, onAny tokenByte [.fieldStart] 21],
    [onLetter 67 [] 38, onAny foldByte [] 37],
    [onLetter 76 [] 39],
    [onLetter 79 [] 40],
    -- 40
    [onLetter 83 [] 41],
    [onLetter 69 [] 42],
    [on 10 [] 43, on 13 [] 88],
    [on 13 [.connClose] 3, on 10 [.connClose, .headerDone] 120,
      onLetter 67 [.connClose, .fieldStart] 25, onLetter 84 [.connClose, .fieldStart] 44,
      onAny tokenByte [.connClose, .fieldStart] 21],
    [on 58 [.fieldLen] 22, onLetter 82 [] 45, onAny tokenByte [] 21],
    [on 58 [.fieldLen] 22, onLetter 65 [] 46, onAny tokenByte [] 21],
    [on 58 [.fieldLen] 22, onLetter 78 [] 47, onAny tokenByte [] 21],
    [on 58 [.fieldLen] 22, onLetter 83 [] 48, onAny tokenByte [] 21],
    [on 58 [.fieldLen] 22, onLetter 70 [] 49, onAny tokenByte [] 21],
    [on 58 [.fieldLen] 22, onLetter 69 [] 50, onAny tokenByte [] 21],
    -- 50
    [on 58 [.fieldLen] 22, onLetter 82 [] 51, onAny tokenByte [] 21],
    [on 58 [.fieldLen] 22, on 45 [] 52, onAny tokenByte [] 21],
    [on 58 [.fieldLen] 22, onLetter 69 [] 53, onAny tokenByte [] 21],
    [on 58 [.fieldLen] 22, onLetter 78 [] 54, onAny tokenByte [] 21],
    [on 58 [.fieldLen] 22, onLetter 67 [] 55, onAny tokenByte [] 21],
    [on 58 [.fieldLen] 22, onLetter 79 [] 56, onAny tokenByte [] 21],
    [on 58 [.fieldLen] 22, onLetter 68 [] 57, onAny tokenByte [] 21],
    [on 58 [.fieldLen] 22, onLetter 73 [] 58, onAny tokenByte [] 21],
    [on 58 [.fieldLen] 22, onLetter 78 [] 59, onAny tokenByte [] 21],
    [on 58 [.fieldLen] 22, onLetter 71 [] 60, onAny tokenByte [] 21],
    -- 60
    [on 58 [.fieldLen] 61, onAny tokenByte [] 21],
    [on 10 [.mark, .httpField] 62, on 13 [.mark, .httpField] 80, onLetter 67 [.mark] 81,
      onAny foldByte [.mark] 61, onAny reasonByte [.mark] 23],
    [on 13 [] 72, on 10 [.headerDone] 121, onLetter 84 [.fieldStart] 44,
      onLetter 67 [.mark, .fieldStart] 73, onAny foldByte [] 63, onAny tokenByte [.fieldStart] 21],
    [onLetter 67 [.mark] 64, onAny foldByte [] 63],
    [onLetter 72 [] 65],
    [onLetter 85 [] 66],
    [onLetter 78 [] 67],
    [onLetter 75 [] 68],
    [onLetter 69 [] 69],
    [onLetter 68 [] 70],
    -- 70
    [on 10 [.httpField, .chunked] 20, on 13 [.httpField] 71],
    [on 10 [.chunked] 20],
    [on 10 [.headerDone] 121, onLetter 67 [.mark] 64, onAny foldByte [] 63],
    [on 58 [.fieldLen] 22, onLetter 79 [] 26, onLetter 72 [] 74, onAny tokenByte [] 21],
    [on 58 [.fieldLen] 22, onLetter 85 [] 75, onAny tokenByte [] 21],
    [on 58 [.fieldLen] 22, onLetter 78 [] 76, onAny tokenByte [] 21],
    [on 58 [.fieldLen] 22, onLetter 75 [] 77, onAny tokenByte [] 21],
    [on 58 [.fieldLen] 22, onLetter 69 [] 78, onAny tokenByte [] 21],
    [on 58 [.fieldLen] 22, onLetter 68 [] 79, onAny tokenByte [] 21],
    [on 10 [.httpField, .chunked] 20, on 58 [.fieldLen] 22, on 13 [.httpField] 71,
      onAny tokenByte [] 21],
    -- 80
    [on 10 [] 62, onLetter 67 [.mark] 64, onAny foldByte [] 63],
    [on 10 [.httpField] 20, on 13 [.httpField] 24, onLetter 72 [] 82, onAny reasonByte [] 23],
    [on 10 [.httpField] 20, on 13 [.httpField] 24, onLetter 85 [] 83, onAny reasonByte [] 23],
    [on 10 [.httpField] 20, on 13 [.httpField] 24, onLetter 78 [] 84, onAny reasonByte [] 23],
    [on 10 [.httpField] 20, on 13 [.httpField] 24, onLetter 75 [] 85, onAny reasonByte [] 23],
    [on 10 [.httpField] 20, on 13 [.httpField] 24, onLetter 69 [] 86, onAny reasonByte [] 23],
    [on 10 [.httpField] 20, on 13 [.httpField] 24, onLetter 68 [] 87, onAny reasonByte [] 23],
    [on 10 [.httpField, .chunked] 20, on 13 [.httpField] 71, onAny valueByte [] 23],
    [on 10 [] 43],
    [on 10 [.headerDone] 122, onLetter 67 [] 38, onAny foldByte [] 37],
    -- 90
    [on 58 [.fieldLen] 22, onLetter 79 [] 26, onLetter 76 [] 91, onAny tokenByte [] 21],
    [on 58 [.fieldLen] 22, onLetter 79 [] 92, onAny tokenByte [] 21],
    [on 58 [.fieldLen] 22, onLetter 83 [] 93, onAny tokenByte [] 21],
    [on 58 [.fieldLen] 22, onLetter 69 [] 94, onAny tokenByte [] 21],
    [on 58 [.fieldLen] 22, on 10 [] 43, on 13 [] 88, onAny tokenByte [] 21],
    [on 10 [] 36, onLetter 67 [] 38, onAny foldByte [] 37],
    [on 10 [.httpField] 20, on 13 [.httpField] 24, onLetter 76 [] 97, onAny reasonByte [] 23],
    [on 10 [.httpField] 20, on 13 [.httpField] 24, onLetter 79 [] 98, onAny reasonByte [] 23],
    [on 10 [.httpField] 20, on 13 [.httpField] 24, onLetter 83 [] 99, onAny reasonByte [] 23],
    [on 10 [.httpField] 20, on 13 [.httpField] 24, onLetter 69 [] 100, onAny reasonByte [] 23],
    -- 100
    [on 10 [.httpField] 43, on 13 [.httpField] 88, onAny valueByte [] 23],
    [on 58 [.fieldLen] 22, onLetter 69 [] 102, onAny tokenByte [] 21],
    [on 58 [.fieldLen] 22, onLetter 78 [] 103, onAny tokenByte [] 21],
    [on 58 [.fieldLen] 22, onLetter 84 [] 104, onAny tokenByte [] 21],
    [on 58 [.fieldLen] 22, on 45 [] 105, onAny tokenByte [] 21],
    [on 58 [.fieldLen] 22, onLetter 76 [] 106, onAny tokenByte [] 21],
    [on 58 [.fieldLen] 22, onLetter 69 [] 107, onAny tokenByte [] 21],
    [on 58 [.fieldLen] 22, onLetter 78 [] 108, onAny tokenByte [] 21],
    [on 58 [.fieldLen] 22, onLetter 71 [] 109, onAny tokenByte [] 21],
    [on 58 [.fieldLen] 22, onLetter 84 [] 110, onAny tokenByte [] 21],
    -- 110
    [on 58 [.fieldLen] 22, onLetter 72 [] 111, onAny tokenByte [] 21],
    [on 58 [.fieldLen] 112, onAny tokenByte [] 21],
    [on 10 [.mark, .httpField] 113, on 13 [.mark, .httpField] 118, onAny foldByte [.mark] 112,
      onAny digit [.mark] 119, onAny reasonByte [.mark] 23],
    [on 13 [] 116, on 10 [.headerDone] 123, onLetter 67 [.fieldStart] 25,
      onLetter 84 [.fieldStart] 44, onAny foldByte [] 114, onAny digit [.mark, .fieldStart] 117,
      onAny tokenByte [.fieldStart] 21],
    [onAny foldByte [] 114, onAny digit [.mark] 115],
    [on 10 [.contentLen, .httpField] 20, on 13 [.contentLen, .httpField] 24, onAny digit [] 115],
    [on 10 [.headerDone] 123, onAny foldByte [] 114, onAny digit [.mark] 115],
    [on 10 [.contentLen, .httpField] 20, on 58 [.fieldLen] 22, on 13 [.contentLen, .httpField] 24,
      onAny digit [] 117, onAny tokenByte [] 21],
    [on 10 [] 113, onAny foldByte [] 114, onAny digit [.mark] 115],
    [on 10 [.contentLen, .httpField] 20, on 13 [.contentLen, .httpField] 24, onAny digit [] 119,
      onAny reasonByte [] 23],
    -- 120
    [],
    [onLetter 67 [.mark] 64, onAny foldByte [] 63],
    [onLetter 67 [] 38, onAny foldByte [] 37],
    [onAny foldByte [] 114, onAny digit [.mark] 115]
  ]

def row (cs : Nat) : List (Arc Action) := table[cs]?.getD []

/-- `headerDone` leaves the scan, as `fbreak` does. -/
@[irreducible] def next (cs : Nat) (byte : UInt8) : Option (Edge Nat Action) :=
  follow (fun arc => ⟨arc.actions, arc.target, arc.actions.contains .headerDone⟩) (row cs) byte

end Qslary.Http.Response

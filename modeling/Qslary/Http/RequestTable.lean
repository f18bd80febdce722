import Qslary.Foundation.Scanner
import Qslary.Foundation.Text

/-!
# The request automaton

The states and edges of the generated parser in `http_request_parser.cc`.  A row lists
the edges of one state, of which the first that takes a byte is followed; a byte that
no edge takes leads to the error state.  Characters are signed in the source, so that
its negative ones are the bytes from 128 on.
-/

namespace Qslary.Http.Request

open Qslary.Foundation

/-- What the edges do, under the names of the registers and callbacks. -/
inductive Action where
  | mark | fieldStart | fieldLen | queryStart
  | httpField | requestMethod | requestUri | fragment | queryString | httpVersion | requestPath
  | xmlSent | jsonSent | headerDone
  deriving DecidableEq, Repr

structure Arc where
  bytes : List (Nat × Nat)
  uri : Bool
  actions : List Action
  target : Nat
  deriving DecidableEq, Repr

def on (byte : Nat) (actions : List Action) (target : Nat) : Arc :=
  ⟨[(byte, byte)], false, actions, target⟩

def onAny (bytes : List (Nat × Nat)) (actions : List Action) (target : Nat) : Arc :=
  ⟨bytes, false, actions, target⟩

/-- With `uri_relaxed` set, the bytes 94, 123 and 125 as well. -/
def onUri (bytes : List (Nat × Nat)) (actions : List Action) (target : Nat) : Arc :=
  ⟨bytes, true, actions, target⟩

def Arc.takes (arc : Arc) (uriRelaxed : Bool) (byte : Nat) : Bool :=
  arc.bytes.any (fun range => range.1 ≤ byte && byte ≤ range.2) ||
    (arc.uri && uriRelaxed && (byte = 94 || byte = 123 || byte = 125))

/-! ## Sets of bytes -/

def digit : List (Nat × Nat) := [(48, 57)]

def hexLetter : List (Nat × Nat) := [(65, 70), (97, 102)]

def hexDigit : List (Nat × Nat) := [(48, 57), (65, 70), (97, 102)]

def upperDigit : List (Nat × Nat) := [(48, 57), (65, 90)]

def letter : List (Nat × Nat) := [(65, 90), (97, 122)]

def tagByte : List (Nat × Nat) := [(45, 46), (48, 57), (65, 90), (97, 122)]

def schemeByte : List (Nat × Nat) := [(43, 43), (45, 46), (48, 57), (65, 90), (97, 122)]

def tokenByte : List (Nat × Nat) :=
  [(1, 8), (10, 31), (33, 33), (35, 39), (42, 43), (45, 46), (48, 57), (65, 90), (94, 122),
    (124, 124), (126, 126)]

def valueByte : List (Nat × Nat) := [(1, 9), (11, 12), (14, 126), (128, 255)]

def regNameByte : List (Nat × Nat) :=
  [(33, 33), (36, 36), (38, 46), (48, 57), (59, 59), (61, 61), (65, 90), (95, 95), (97, 122),
    (126, 126)]

def userinfoByte : List (Nat × Nat) :=
  [(33, 33), (36, 36), (38, 46), (48, 59), (61, 61), (65, 90), (95, 95), (97, 122), (126, 126)]

def segmentByte : List (Nat × Nat) :=
  [(33, 33), (36, 36), (38, 46), (48, 57), (59, 59), (61, 61), (64, 90), (95, 95), (97, 122),
    (126, 126)]

def pathByte : List (Nat × Nat) :=
  [(33, 33), (36, 36), (38, 59), (61, 61), (64, 90), (95, 95), (97, 122), (126, 126), (128, 255)]

def queryByte : List (Nat × Nat) :=
  [(33, 33), (36, 36), (38, 59), (61, 61), (63, 90), (95, 95), (97, 122), (126, 126), (128, 255)]

def anyByte : List (Nat × Nat) := [(0, 255)]

/-! ## The table -/

/-- Row `cs` is `case cs` of the switch; 0 is the error state, 348 and 349 are final. -/
def table : List (List Arc) :=
  [
    -- 0
    [],
    [on 60 [.mark] 194, on 64 [.mark] 198, onAny upperDigit [.mark] 2],
    [on 32 [.requestMethod] 3, onAny upperDigit [] 175],
    [on 32 [.mark, .requestPath, .requestUri] 4, on 35 [.mark, .requestPath, .requestUri] 20,
      on 37 [.mark] 24, on 63 [.mark, .requestPath] 29, on 47 [.mark] 33,
      onAny letter [.mark] 173, onUri segmentByte [.mark] 19],
    [on 72 [.mark] 5],
    [on 84 [] 6],
    [on 84 [] 7],
    [on 80 [] 8],
    [on 47 [] 9],
    [on 49 [] 10],
    -- 10
    [on 46 [] 11],
    [onAny [(48, 49)] [] 12],
    [on 10 [.httpVersion] 13, on 13 [.httpVersion] 17],
    [on 13 [.fieldStart] 18, on 10 [.fieldStart, .headerDone] 348,
      onAny tokenByte [.fieldStart] 14],
    [on 58 [.fieldLen] 15, onAny tokenByte [] 14],
    [on 10 [.mark, .httpField] 13, on 13 [.mark, .httpField] 17,
      onAny [(9, 9), (32, 32)] [.mark] 15, onAny valueByte [.mark] 16],
    [on 10 [.httpField] 13, on 13 [.httpField] 17, onAny valueByte [] 16],
    [on 10 [] 13],
    [on 58 [.fieldLen] 15, on 10 [.headerDone] 348, onAny tokenByte [] 14],
    [on 32 [.requestPath, .requestUri] 4, on 35 [.requestPath, .requestUri] 20, on 37 [] 24,
      on 47 [] 26, on 63 [.requestPath] 29, onUri segmentByte [] 19],
    -- 20
    [on 32 [.mark, .fragment] 4, on 37 [.mark] 22, onUri queryByte [.mark] 21],
    [on 32 [.fragment] 4, on 37 [] 22, onUri queryByte [] 21],
    [onAny hexDigit [] 23],
    [onAny hexDigit [] 21],
    [onAny hexDigit [] 25],
    [onAny hexDigit [] 19],
    [on 32 [.requestPath, .requestUri] 4, on 35 [.requestPath, .requestUri] 20, on 37 [] 27,
      on 63 [.requestPath] 29, onUri pathByte [] 26],
    [onAny hexDigit [] 28],
    [onAny hexDigit [] 26],
    [on 32 [.queryStart, .queryString, .requestUri] 4,
      on 35 [.queryStart, .queryString, .requestUri] 20, on 37 [.queryStart] 31,
      onUri queryByte [.queryStart] 30],
    -- 30
    [on 32 [.queryString, .requestUri] 4, on 35 [.queryString, .requestUri] 20, on 37 [] 31,
      onUri queryByte [] 30],
    [onAny hexDigit [] 32],
    [onAny hexDigit [] 30],
    [on 32 [.requestPath, .requestUri] 4, on 35 [.requestPath, .requestUri] 20, on 37 [] 27,
      on 63 [.requestPath] 29, on 47 [] 34, onUri pathByte [] 26],
    [on 32 [.requestPath, .requestUri] 4, on 35 [.requestPath, .requestUri] 20, on 47 [] 26,
      on 63 [.requestPath] 29, on 37 [] 36, on 58 [] 38, on 64 [] 42, on 91 [] 47,
      onUri regNameByte [] 35],
    [on 32 [.requestPath, .requestUri] 4, on 35 [.requestPath, .requestUri] 20, on 47 [] 26,
      on 63 [.requestPath] 29, on 37 [] 36, on 58 [] 38, on 64 [] 42, onUri regNameByte [] 35],
    [onAny hexDigit [] 37],
    [onAny hexDigit [] 35],
    [on 32 [.requestPath, .requestUri] 4, on 35 [.requestPath, .requestUri] 20, on 47 [] 26,
      on 63 [.requestPath] 29, on 37 [] 40, on 64 [] 42, onAny digit [] 38,
      onUri userinfoByte [] 39],
    [on 37 [] 40, on 64 [] 42, onUri userinfoByte [] 39],
    -- 40
    [onAny hexDigit [] 41],
    [onAny hexDigit [] 39],
    [on 32 [.requestPath, .requestUri] 4, on 35 [.requestPath, .requestUri] 20, on 47 [] 26,
      on 63 [.requestPath] 29, on 37 [] 44, on 58 [] 46, on 91 [] 47, onUri regNameByte [] 43],
    [on 32 [.requestPath, .requestUri] 4, on 35 [.requestPath, .requestUri] 20, on 47 [] 26,
      on 63 [.requestPath] 29, on 37 [] 44, on 58 [] 46, onUri regNameByte [] 43],
    [onAny hexDigit [] 45],
    [onAny hexDigit [] 43],
    [on 32 [.requestPath, .requestUri] 4, on 35 [.requestPath, .requestUri] 20, on 47 [] 26,
      on 63 [.requestPath] 29, onAny digit [] 46],
    [on 6 [] 48, on 58 [] 167, on 118 [] 169, onAny hexDigit [] 91],
    [onAny hexDigit [] 49],
    [on 58 [] 53, onAny hexDigit [] 50],
    -- 50
    [on 58 [] 53, onAny hexDigit [] 51],
    [on 58 [] 53, onAny hexDigit [] 52],
    [on 58 [] 53],
    [on 49 [] 84, on 50 [] 87, onAny digit [] 54, onAny hexLetter [] 90],
    [on 46 [] 55, on 58 [] 80, onAny hexDigit [] 77],
    [on 49 [] 72, on 50 [] 74, onAny digit [] 56],
    [on 46 [] 57],
    [on 49 [] 67, on 50 [] 69, onAny digit [] 58],
    [on 46 [] 59],
    [on 49 [] 62, on 50 [] 64, onAny digit [] 60],
    -- 60
    [on 93 [] 61],
    [on 32 [.requestPath, .requestUri] 4, on 35 [.requestPath, .requestUri] 20, on 47 [] 26,
      on 63 [.requestPath] 29, on 58 [] 46],
    [on 93 [] 61, onAny digit [] 63],
    [on 93 [] 61, onAny digit [] 60],
    [on 93 [] 61, on 48 [] 65, on 53 [] 66],
    [onAny digit [] 60],
    [on 48 [] 60],
    [on 46 [] 59, onAny digit [] 68],
    [on 46 [] 59, onAny digit [] 58],
    [on 46 [] 59, on 48 [] 70, on 53 [] 71],
    -- 70
    [onAny digit [] 58],
    [on 48 [] 58],
    [on 46 [] 57, onAny digit [] 73],
    [on 46 [] 57, onAny digit [] 56],
    [on 46 [] 57, on 48 [] 75, on 53 [] 76],
    [onAny digit [] 56],
    [on 48 [] 56],
    [on 58 [] 80, onAny hexDigit [] 78],
    [on 58 [] 80, onAny hexDigit [] 79],
    [on 58 [] 80],
    -- 80
    [onAny hexDigit [] 81],
    [on 93 [] 61, onAny hexDigit [] 82],
    [on 93 [] 61, onAny hexDigit [] 83],
    [on 93 [] 61, onAny hexDigit [] 60],
    [on 46 [] 55, on 58 [] 80, onAny digit [] 85, onAny hexLetter [] 77],
    [on 46 [] 55, on 58 [] 80, onAny digit [] 86, onAny hexLetter [] 78],
    [on 46 [] 55, on 58 [] 80, onAny hexDigit [] 79],
    [on 46 [] 55, on 58 [] 80, on 48 [] 88, on 53 [] 89, onAny hexDigit [] 77],
    [on 58 [] 80, onAny digit [] 86, onAny hexLetter [] 78],
    [on 58 [] 80, on 48 [] 86, onAny hexDigit [] 78],
    -- 90
    [on 58 [] 80, onAny hexDigit [] 77],
    [on 58 [] 95, onAny hexDigit [] 92],
    [on 58 [] 95, onAny hexDigit [] 93],
    [on 58 [] 95, onAny hexDigit [] 94],
    [on 58 [] 95],
    [on 58 [] 166, onAny hexDigit [] 96],
    [on 58 [] 100, onAny hexDigit [] 97],
    [on 58 [] 100, onAny hexDigit [] 98],
    [on 58 [] 100, onAny hexDigit [] 99],
    [on 58 [] 100],
    -- 100
    [on 58 [] 165, onAny hexDigit [] 101],
    [on 58 [] 105, onAny hexDigit [] 102],
    [on 58 [] 105, onAny hexDigit [] 103],
    [on 58 [] 105, onAny hexDigit [] 104],
    [on 58 [] 105],
    [on 58 [] 164, onAny hexDigit [] 106],
    [on 58 [] 110, onAny hexDigit [] 107],
    [on 58 [] 110, onAny hexDigit [] 108],
    [on 58 [] 110, onAny hexDigit [] 109],
    [on 58 [] 110],
    -- 110
    [on 58 [] 163, onAny hexDigit [] 111],
    [on 58 [] 115, onAny hexDigit [] 112],
    [on 58 [] 115, onAny hexDigit [] 113],
    [on 58 [] 115, onAny hexDigit [] 114],
    [on 58 [] 115],
    [on 58 [] 151, onAny hexDigit [] 116],
    [on 58 [] 120, onAny hexDigit [] 117],
    [on 58 [] 120, onAny hexDigit [] 118],
    [on 58 [] 120, onAny hexDigit [] 119],
    [on 58 [] 120],
    -- 120
    [on 58 [] 150, onAny hexDigit [] 121],
    [on 58 [] 125, onAny hexDigit [] 122],
    [on 58 [] 125, onAny hexDigit [] 123],
    [on 58 [] 125, onAny hexDigit [] 124],
    [on 58 [] 125],
    [on 58 [] 126, onAny hexDigit [] 121],
    [on 93 [] 61, on 49 [] 143, on 50 [] 146, onAny [(2, 3)] [] 48, onAny digit [] 127,
      onAny hexLetter [] 149],
    [on 46 [] 55, on 93 [] 61, on 58 [] 131, onAny hexDigit [] 128],
    [on 93 [] 61, on 58 [] 131, onAny hexDigit [] 129],
    [on 93 [] 61, on 58 [] 131, onAny hexDigit [] 130],
    -- 130
    [on 93 [] 61, on 58 [] 131],
    [on 49 [] 136, on 50 [] 139, onAny digit [] 132, onAny hexLetter [] 142],
    [on 46 [] 55, on 93 [] 61, on 58 [] 80, onAny hexDigit [] 133],
    [on 93 [] 61, on 58 [] 80, onAny hexDigit [] 134],
    [on 93 [] 61, on 58 [] 80, onAny hexDigit [] 135],
    [on 93 [] 61, on 58 [] 80],
    [on 46 [] 55, on 93 [] 61, on 58 [] 80, onAny digit [] 137, onAny hexLetter [] 133],
    [on 46 [] 55, on 93 [] 61, on 58 [] 80, onAny digit [] 138, onAny hexLetter [] 134],
    [on 46 [] 55, on 93 [] 61, on 58 [] 80, onAny hexDigit [] 135],
    [on 46 [] 55, on 93 [] 61, on 58 [] 80, on 48 [] 140, on 53 [] 141, onAny hexDigit [] 133],
    -- 140
    [on 93 [] 61, on 58 [] 80, onAny digit [] 138, onAny hexLetter [] 134],
    [on 93 [] 61, on 58 [] 80, on 48 [] 138, onAny hexDigit [] 134],
    [on 93 [] 61, on 58 [] 80, onAny hexDigit [] 133],
    [on 46 [] 55, on 93 [] 61, on 58 [] 131, onAny digit [] 144, onAny hexLetter [] 128],
    [on 46 [] 55, on 93 [] 61, on 58 [] 131, onAny digit [] 145, onAny hexLetter [] 129],
    [on 46 [] 55, on 93 [] 61, on 58 [] 131, onAny hexDigit [] 130],
    [on 46 [] 55, on 93 [] 61, on 58 [] 131, on 48 [] 147, on 53 [] 148, onAny hexDigit [] 128],
    [on 93 [] 61, on 58 [] 131, onAny digit [] 145, onAny hexLetter [] 129],
    [on 93 [] 61, on 58 [] 131, on 48 [] 145, onAny hexDigit [] 129],
    [on 93 [] 61, on 58 [] 131, onAny hexDigit [] 128],
    -- 150
    [on 49 [] 143, on 50 [] 146, onAny [(2, 3)] [] 48, onAny digit [] 127, onAny hexLetter [] 149],
    [on 49 [] 156, on 50 [] 159, onAny [(2, 3)] [] 48, onAny digit [] 152, onAny hexLetter [] 162],
    [on 46 [] 55, on 58 [] 131, onAny hexDigit [] 153],
    [on 58 [] 131, onAny hexDigit [] 154],
    [on 58 [] 131, onAny hexDigit [] 155],
    [on 58 [] 131],
    [on 46 [] 55, on 58 [] 131, onAny digit [] 157, onAny hexLetter [] 153],
    [on 46 [] 55, on 58 [] 131, onAny digit [] 158, onAny hexLetter [] 154],
    [on 46 [] 55, on 58 [] 131, onAny hexDigit [] 155],
    [on 46 [] 55, on 58 [] 131, on 48 [] 160, on 53 [] 161, onAny hexDigit [] 153],
    -- 160
    [on 58 [] 131, onAny digit [] 158, onAny hexLetter [] 154],
    [on 58 [] 131, on 48 [] 158, onAny hexDigit [] 154],
    [on 58 [] 131, onAny hexDigit [] 153],
    [onAny [(2, 3)] [] 48, onAny hexDigit [] 49],
    [onAny [(2, 3)] [] 48],
    [on 3 [] 48],
    [on 4 [] 48],
    [on 58 [] 168],
    [on 93 [] 61, on 49 [] 143, on 50 [] 146, onAny [(2, 5)] [] 48, onAny digit [] 127,
      onAny hexLetter [] 149],
    [onAny hexDigit [] 170],
    -- 170
    [on 46 [] 171, onAny hexDigit [] 170],
    [onUri userinfoByte [] 172],
    [on 93 [] 61, onUri userinfoByte [] 172],
    [on 32 [.requestPath, .requestUri] 4, on 35 [.requestPath, .requestUri] 20, on 37 [] 24,
      on 47 [] 26, on 63 [.requestPath] 29, on 58 [] 174, onAny schemeByte [] 173,
      onUri segmentByte [] 19],
    [on 32 [.mark, .requestPath, .requestUri] 4, on 35 [.mark, .requestPath, .requestUri] 20,
      on 37 [.mark] 27, on 63 [.mark, .requestPath] 29, on 47 [.mark] 33,
      onUri pathByte [.mark] 26],
    [on 32 [.requestMethod] 3, onAny upperDigit [] 176],
    [on 32 [.requestMethod] 3, onAny upperDigit [] 177],
    [on 32 [.requestMethod] 3, onAny upperDigit [] 178],
    [on 32 [.requestMethod] 3, onAny upperDigit [] 179],
    [on 32 [.requestMethod] 3, onAny upperDigit [] 180],
    -- 180
    [on 32 [.requestMethod] 3, onAny upperDigit [] 181],
    [on 32 [.requestMethod] 3, onAny upperDigit [] 182],
    [on 32 [.requestMethod] 3, onAny upperDigit [] 183],
    [on 32 [.requestMethod] 3, onAny upperDigit [] 184],
    [on 32 [.requestMethod] 3, onAny upperDigit [] 185],
    [on 32 [.requestMethod] 3, onAny upperDigit [] 186],
    [on 32 [.requestMethod] 3, onAny upperDigit [] 187],
    [on 32 [.requestMethod] 3, onAny upperDigit [] 188],
    [on 32 [.requestMethod] 3, onAny upperDigit [] 189],
    [on 32 [.requestMethod] 3, onAny upperDigit [] 190],
    -- 190
    [on 32 [.requestMethod] 3, onAny upperDigit [] 191],
    [on 32 [.requestMethod] 3, onAny upperDigit [] 192],
    [on 32 [.requestMethod] 3, onAny upperDigit [] 193],
    [on 32 [.requestMethod] 3],
    [onAny tagByte [] 195],
    [onAny tagByte [] 195, onAny [(9, 13), (32, 32), (47, 47), (62, 62)] [.requestPath] 196],
    [on 62 [] 197, onAny anyByte [] 196],
    [on 62 [] 197, on 0 [.xmlSent, .headerDone] 349, onAny anyByte [] 196],
    [on 32 [.requestPath] 199, on 37 [] 203, on 47 [] 208, onUri segmentByte [] 202],
    [on 123 [.mark] 200],
    -- 200
    [on 125 [] 201, onAny anyByte [] 200],
    [on 125 [] 201, on 0 [.jsonSent, .headerDone] 349, onAny anyByte [] 200],
    [on 32 [.requestPath] 199, on 37 [] 203, on 47 [] 205, onUri segmentByte [] 202],
    [onAny hexDigit [] 204],
    [onAny hexDigit [] 202],
    [on 32 [.requestPath] 199, on 37 [] 206, onUri pathByte [] 205],
    [onAny hexDigit [] 207],
    [onAny hexDigit [] 205],
    [on 32 [.requestPath] 199, on 37 [] 206, on 47 [] 209, onUri pathByte [] 205],
    [on 32 [.requestPath] 199, on 47 [] 205, on 37 [] 211, on 58 [] 213, on 64 [] 217,
      on 91 [] 222, onUri regNameByte [] 210],
    -- 210
    [on 32 [.requestPath] 199, on 47 [] 205, on 37 [] 211, on 58 [] 213, on 64 [] 217,
      onUri regNameByte [] 210],
    [onAny hexDigit [] 212],
    [onAny hexDigit [] 210],
    [on 32 [.requestPath] 199, on 47 [] 205, on 37 [] 215, on 64 [] 217, onAny digit [] 213,
      onUri userinfoByte [] 214],
    [on 37 [] 215, on 64 [] 217, onUri userinfoByte [] 214],
    [onAny hexDigit [] 216],
    [onAny hexDigit [] 214],
    [on 32 [.requestPath] 199, on 47 [] 205, on 37 [] 219, on 58 [] 221, on 91 [] 222,
      onUri regNameByte [] 218],
    [on 32 [.requestPath] 199, on 47 [] 205, on 37 [] 219, on 58 [] 221, onUri regNameByte [] 218],
    [onAny hexDigit [] 220],
    -- 220
    [onAny hexDigit [] 218],
    [on 32 [.requestPath] 199, on 47 [] 205, onAny digit [] 221],
    [on 6 [] 223, on 58 [] 342, on 118 [] 344, onAny hexDigit [] 266],
    [onAny hexDigit [] 224],
    [on 58 [] 228, onAny hexDigit [] 225],
    [on 58 [] 228, onAny hexDigit [] 226],
    [on 58 [] 228, onAny hexDigit [] 227],
    [on 58 [] 228],
    [on 49 [] 259, on 50 [] 262, onAny digit [] 229, onAny hexLetter [] 265],
    [on 46 [] 230, on 58 [] 255, onAny hexDigit [] 252],
    -- 230
    [on 49 [] 247, on 50 [] 249, onAny digit [] 231],
    [on 46 [] 232],
    [on 49 [] 242, on 50 [] 244, onAny digit [] 233],
    [on 46 [] 234],
    [on 49 [] 237, on 50 [] 239, onAny digit [] 235],
    [on 93 [] 236],
    [on 32 [.requestPath] 199, on 47 [] 205, on 58 [] 221],
    [on 93 [] 236, onAny digit [] 238],
    [on 93 [] 236, onAny digit [] 235],
    [on 93 [] 236, on 48 [] 240, on 53 [] 241],
    -- 240
    [onAny digit [] 235],
    [on 48 [] 235],
    [on 46 [] 234, onAny digit [] 243],
    [on 46 [] 234, onAny digit [] 233],
    [on 46 [] 234, on 48 [] 245, on 53 [] 246],
    [onAny digit [] 233],
    [on 48 [] 233],
    [on 46 [] 232, onAny digit [] 248],
    [on 46 [] 232, onAny digit [] 231],
    [on 46 [] 232, on 48 [] 250, on 53 [] 251],
    -- 250
    [onAny digit [] 231],
    [on 48 [] 231],
    [on 58 [] 255, onAny hexDigit [] 253],
    [on 58 [] 255, onAny hexDigit [] 254],
    [on 58 [] 255],
    [onAny hexDigit [] 256],
    [on 93 [] 236, onAny hexDigit [] 257],
    [on 93 [] 236, onAny hexDigit [] 258],
    [on 93 [] 236, onAny hexDigit [] 235],
    [on 46 [] 230, on 58 [] 255, onAny digit [] 260, onAny hexLetter [] 252],
    -- 260
    [on 46 [] 230, on 58 [] 255, onAny digit [] 261, onAny hexLetter [] 253],
    [on 46 [] 230, on 58 [] 255, onAny hexDigit [] 254],
    [on 46 [] 230, on 58 [] 255, on 48 [] 263, on 53 [] 264, onAny hexDigit [] 252],
    [on 58 [] 255, onAny digit [] 261, onAny hexLetter [] 253],
    [on 58 [] 255, on 48 [] 261, onAny hexDigit [] 253],
    [on 58 [] 255, onAny hexDigit [] 252],
    [on 58 [] 270, onAny hexDigit [] 267],
    [on 58 [] 270, onAny hexDigit [] 268],
    [on 58 [] 270, onAny hexDigit [] 269],
    [on 58 [] 270],
    -- 270
    [on 58 [] 341, onAny hexDigit [] 271],
    [on 58 [] 275, onAny hexDigit [] 272],
    [on 58 [] 275, onAny hexDigit [] 273],
    [on 58 [] 275, onAny hexDigit [] 274],
    [on 58 [] 275],
    [on 58 [] 340, onAny hexDigit [] 276],
    [on 58 [] 280, onAny hexDigit [] 277],
    [on 58 [] 280, onAny hexDigit [] 278],
    [on 58 [] 280, onAny hexDigit [] 279],
    [on 58 [] 280],
    -- 280
    [on 58 [] 339, onAny hexDigit [] 281],
    [on 58 [] 285, onAny hexDigit [] 282],
    [on 58 [] 285, onAny hexDigit [] 283],
    [on 58 [] 285, onAny hexDigit [] 284],
    [on 58 [] 285],
    [on 58 [] 338, onAny hexDigit [] 286],
    [on 58 [] 290, onAny hexDigit [] 287],
    [on 58 [] 290, onAny hexDigit [] 288],
    [on 58 [] 290, onAny hexDigit [] 289],
    [on 58 [] 290],
    -- 290
    [on 58 [] 326, onAny hexDigit [] 291],
    [on 58 [] 295, onAny hexDigit [] 292],
    [on 58 [] 295, onAny hexDigit [] 293],
    [on 58 [] 295, onAny hexDigit [] 294],
    [on 58 [] 295],
    [on 58 [] 325, onAny hexDigit [] 296],
    [on 58 [] 300, onAny hexDigit [] 297],
    [on 58 [] 300, onAny hexDigit [] 298],
    [on 58 [] 300, onAny hexDigit [] 299],
    [on 58 [] 300],
    -- 300
    [on 58 [] 301, onAny hexDigit [] 296],
    [on 93 [] 236, on 49 [] 318, on 50 [] 321, onAny [(2, 3)] [] 223, onAny digit [] 302,
      onAny hexLetter [] 324],
    [on 46 [] 230, on 93 [] 236, on 58 [] 306, onAny hexDigit [] 303],
    [on 93 [] 236, on 58 [] 306, onAny hexDigit [] 304],
    [on 93 [] 236, on 58 [] 306, onAny hexDigit [] 305],
    [on 93 [] 236, on 58 [] 306],
    [on 49 [] 311, on 50 [] 314, onAny digit [] 307, onAny hexLetter [] 317],
    [on 46 [] 230, on 93 [] 236, on 58 [] 255, onAny hexDigit [] 308],
    [on 93 [] 236, on 58 [] 255, onAny hexDigit [] 309],
    [on 93 [] 236, on 58 [] 255, onAny hexDigit [] 310],
    -- 310
    [on 93 [] 236, on 58 [] 255],
    [on 46 [] 230, on 93 [] 236, on 58 [] 255, onAny digit [] 312, onAny hexLetter [] 308],
    [on 46 [] 230, on 93 [] 236, on 58 [] 255, onAny digit [] 313, onAny hexLetter [] 309],
    [on 46 [] 230, on 93 [] 236, on 58 [] 255, onAny hexDigit [] 310],
    [on 46 [] 230, on 93 [] 236, on 58 [] 255, on 48 [] 315, on 53 [] 316, onAny hexDigit [] 308],
    [on 93 [] 236, on 58 [] 255, onAny digit [] 313, onAny hexLetter [] 309],
    [on 93 [] 236, on 58 [] 255, on 48 [] 313, onAny hexDigit [] 309],
    [on 93 [] 236, on 58 [] 255, onAny hexDigit [] 308],
    [on 46 [] 230, on 93 [] 236, on 58 [] 306, onAny digit [] 319, onAny hexLetter [] 303],
    [on 46 [] 230, on 93 [] 236, on 58 [] 306, onAny digit [] 320, onAny hexLetter [] 304],
    -- 320
    [on 46 [] 230, on 93 [] 236, on 58 [] 306, onAny hexDigit [] 305],
    [on 46 [] 230, on 93 [] 236, on 58 [] 306, on 48 [] 322, on 53 [] 323, onAny hexDigit [] 303],
    [on 93 [] 236, on 58 [] 306, onAny digit [] 320, onAny hexLetter [] 304],
    [on 93 [] 236, on 58 [] 306, on 48 [] 320, onAny hexDigit [] 304],
    [on 93 [] 236, on 58 [] 306, onAny hexDigit [] 303],
    [on 49 [] 318, on 50 [] 321, onAny [(2, 3)] [] 223, onAny digit [] 302, onAny hexLetter [] 324],
    [on 49 [] 331, on 50 [] 334, onAny [(2, 3)] [] 223, onAny digit [] 327, onAny hexLetter [] 337],
    [on 46 [] 230, on 58 [] 306, onAny hexDigit [] 328],
    [on 58 [] 306, onAny hexDigit [] 329],
    [on 58 [] 306, onAny hexDigit [] 330],
    -- 330
    [on 58 [] 306],
    [on 46 [] 230, on 58 [] 306, onAny digit [] 332, onAny hexLetter [] 328],
    [on 46 [] 230, on 58 [] 306, onAny digit [] 333, onAny hexLetter [] 329],
    [on 46 [] 230, on 58 [] 306, onAny hexDigit [] 330],
    [on 46 [] 230, on 58 [] 306, on 48 [] 335, on 53 [] 336, onAny hexDigit [] 328],
    [on 58 [] 306, onAny digit [] 333, onAny hexLetter [] 329],
    [on 58 [] 306, on 48 [] 333, onAny hexDigit [] 329],
    [on 58 [] 306, onAny hexDigit [] 328],
    [onAny [(2, 3)] [] 223, onAny hexDigit [] 224],
    [onAny [(2, 3)] [] 223],
    -- 340
    [on 3 [] 223],
    [on 4 [] 223],
    [on 58 [] 343],
    [on 93 [] 236, on 49 [] 318, on 50 [] 321, onAny [(2, 5)] [] 223, onAny digit [] 302,
      onAny hexLetter [] 324],
    [onAny hexDigit [] 345],
    [on 46 [] 346, onAny hexDigit [] 345],
    [onUri userinfoByte [] 347],
    [on 93 [] 236, onUri userinfoByte [] 347],
    [on 58 [.fieldLen] 15, onAny tokenByte [] 14],
    []
  ]

/-- `headerDone` leaves the scan, as `fbreak` does. -/
@[irreducible] def next (uriRelaxed : Bool) (cs : Nat) (byte : UInt8) : Option (Edge Nat Action) :=
  ((table[cs]?.getD []).find? fun arc => arc.takes uriRelaxed byte.toNat).map fun arc =>
    ⟨arc.actions, arc.target, arc.actions.contains .headerDone⟩

theorem next_error (uriRelaxed : Bool) (byte : UInt8) : next uriRelaxed 0 byte = none := by
  unfold next
  rfl

end Qslary.Http.Request

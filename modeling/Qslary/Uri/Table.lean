import Qslary.Foundation.Rows

/-!
# The URI automaton

The states and edges of the machine in `uri.cc`, which is generated from `uri.rl`.  A byte
that no edge takes leads to the error state.  Characters are signed in the source, so that
its negative ones are the bytes from 128 on.
-/

namespace Qslary.Uri

open Qslary.Foundation

/-- The actions of `uri.rl`. -/
inductive Action where
  | marku | markh | saveScheme | savePort | saveUserinfo | saveHost | savePath | saveQuery
  | saveFragment
  deriving DecidableEq, Repr

/-! ## Sets of bytes -/

def digit : List (Nat × Nat) := [(48, 57)]

def hexLetter : List (Nat × Nat) := [(65, 70), (97, 102)]

def hexDigit : List (Nat × Nat) := [(48, 57), (65, 70), (97, 102)]

def letter : List (Nat × Nat) := [(65, 90), (97, 122)]

def schemeByte : List (Nat × Nat) := [(43, 43), (45, 46), (48, 57), (65, 90), (97, 122)]

def regNameByte : List (Nat × Nat) :=
  [(33, 33), (36, 36), (38, 46), (48, 57), (59, 59), (61, 61), (65, 90), (95, 95), (97, 122),
    (126, 126)]

def userinfoByte : List (Nat × Nat) :=
  [(33, 33), (36, 36), (38, 46), (48, 59), (61, 61), (65, 90), (95, 95), (97, 122), (126, 126)]

def noColonByte : List (Nat × Nat) :=
  [(33, 33), (36, 36), (38, 46), (48, 57), (59, 59), (61, 61), (64, 90), (95, 95), (97, 122),
    (126, 126), (128, 255)]

def pchar : List (Nat × Nat) :=
  [(33, 33), (36, 36), (38, 46), (48, 59), (61, 61), (64, 90), (95, 95), (97, 122), (126, 126),
    (128, 255)]

def pathByte : List (Nat × Nat) :=
  [(33, 33), (36, 36), (38, 59), (61, 61), (64, 90), (95, 95), (97, 122), (126, 126), (128, 255)]

def queryByte : List (Nat × Nat) :=
  [(33, 33), (36, 36), (38, 59), (61, 61), (63, 90), (95, 95), (97, 122), (126, 126), (128, 255)]

/-! ## The table -/

/-- Row `cs` is `case cs` of the switch; 0 is the error state, those from 451 on are final. -/
def table : List (List (Arc Action)) :=
  [
    -- 0
    [],
    [onAny hexDigit [] 2],
    [onAny hexDigit [] 454],
    [onAny hexDigit [] 4],
    [onAny hexDigit [] 452],
    [onAny hexDigit [] 6],
    [onAny hexDigit [] 455],
    [onAny hexDigit [] 8],
    [onAny hexDigit [] 457],
    [onAny [(48, 52)] [] 10],
    -- 10
    [onAny digit [] 11],
    [on 46 [] 12],
    [on 2 [] 13, on 48 [] 15, on 49 [] 27, on 50 [] 29, onAny digit [] 28],
    [onAny [(48, 52)] [] 14],
    [onAny digit [] 15],
    [on 46 [] 16],
    [on 2 [] 17, on 48 [] 19, on 49 [] 23, on 50 [] 25, onAny digit [] 24],
    [onAny [(48, 52)] [] 18],
    [onAny digit [] 19],
    [on 46 [] 20],
    -- 20
    [on 2 [] 21, on 48 [] 460, on 49 [] 463, on 50 [] 465, onAny digit [] 464],
    [onAny [(48, 52)] [] 22],
    [onAny digit [] 460],
    [on 46 [] 20, onAny digit [] 24],
    [on 46 [] 20, onAny digit [] 19],
    [on 46 [] 20, on 53 [] 26, onAny digit [] 19],
    [on 46 [] 20, onAny [(48, 53)] [] 19],
    [on 46 [] 16, onAny digit [] 28],
    [on 46 [] 16, onAny digit [] 15],
    [on 46 [] 16, on 53 [] 30, onAny digit [] 15],
    -- 30
    [on 46 [] 16, onAny [(48, 53)] [] 15],
    [onAny hexDigit [] 32],
    [onAny hexDigit [] 467],
    [on 37 [] 34, on 64 [.saveUserinfo] 469, onAny userinfoByte [] 33],
    [onAny hexDigit [] 35],
    [onAny hexDigit [] 33],
    [onAny hexDigit [] 37],
    [onAny hexDigit [] 470],
    [on 58 [] 146, on 118 [] 225, onAny hexDigit [] 39],
    [on 58 [] 43, onAny hexDigit [] 40],
    -- 40
    [on 58 [] 43, onAny hexDigit [] 41],
    [on 58 [] 43, onAny hexDigit [] 42],
    [on 58 [] 43],
    [on 58 [] 141, onAny hexDigit [] 44],
    [on 58 [] 48, onAny hexDigit [] 45],
    [on 58 [] 48, onAny hexDigit [] 46],
    [on 58 [] 48, onAny hexDigit [] 47],
    [on 58 [] 48],
    [on 58 [] 136, onAny hexDigit [] 49],
    [on 58 [] 53, onAny hexDigit [] 50],
    -- 50
    [on 58 [] 53, onAny hexDigit [] 51],
    [on 58 [] 53, onAny hexDigit [] 52],
    [on 58 [] 53],
    [on 58 [] 131, onAny hexDigit [] 54],
    [on 58 [] 58, onAny hexDigit [] 55],
    [on 58 [] 58, onAny hexDigit [] 56],
    [on 58 [] 58, onAny hexDigit [] 57],
    [on 58 [] 58],
    [on 58 [] 126, onAny hexDigit [] 59],
    [on 58 [] 63, onAny hexDigit [] 60],
    -- 60
    [on 58 [] 63, onAny hexDigit [] 61],
    [on 58 [] 63, onAny hexDigit [] 62],
    [on 58 [] 63],
    [on 58 [] 113, onAny hexDigit [] 64],
    [on 58 [] 68, onAny hexDigit [] 65],
    [on 58 [] 68, onAny hexDigit [] 66],
    [on 58 [] 68, onAny hexDigit [] 67],
    [on 58 [] 68],
    [on 2 [] 69, on 48 [] 96, on 49 [] 104, on 50 [] 107, on 58 [] 111, onAny digit [] 110,
      onAny hexLetter [] 112],
    [onAny [(48, 52)] [] 70],
    -- 70
    [onAny digit [] 71],
    [on 46 [] 72],
    [on 2 [] 73, on 48 [] 75, on 49 [] 92, on 50 [] 94, onAny digit [] 93],
    [onAny [(48, 52)] [] 74],
    [onAny digit [] 75],
    [on 46 [] 76],
    [on 2 [] 77, on 48 [] 79, on 49 [] 88, on 50 [] 90, onAny digit [] 89],
    [onAny [(48, 52)] [] 78],
    [onAny digit [] 79],
    [on 46 [] 80],
    -- 80
    [on 2 [] 81, on 48 [] 83, on 49 [] 84, on 50 [] 86, onAny digit [] 85],
    [onAny [(48, 52)] [] 82],
    [onAny digit [] 83],
    [on 93 [] 460],
    [on 93 [] 460, onAny digit [] 85],
    [on 93 [] 460, onAny digit [] 83],
    [on 53 [] 87, on 93 [] 460, onAny digit [] 83],
    [on 93 [] 460, onAny [(48, 53)] [] 83],
    [on 46 [] 80, onAny digit [] 89],
    [on 46 [] 80, onAny digit [] 79],
    -- 90
    [on 46 [] 80, on 53 [] 91, onAny digit [] 79],
    [on 46 [] 80, onAny [(48, 53)] [] 79],
    [on 46 [] 76, onAny digit [] 93],
    [on 46 [] 76, onAny digit [] 75],
    [on 46 [] 76, on 53 [] 95, onAny digit [] 75],
    [on 46 [] 76, onAny [(48, 53)] [] 75],
    [on 46 [] 72, on 58 [] 100, onAny hexDigit [] 97],
    [on 58 [] 100, onAny hexDigit [] 98],
    [on 58 [] 100, onAny hexDigit [] 99],
    [on 58 [] 100],
    -- 100
    [on 58 [] 83, onAny hexDigit [] 101],
    [on 93 [] 460, onAny hexDigit [] 102],
    [on 93 [] 460, onAny hexDigit [] 103],
    [on 93 [] 460, onAny hexDigit [] 83],
    [on 46 [] 72, on 58 [] 100, onAny digit [] 105, onAny hexLetter [] 97],
    [on 46 [] 72, on 58 [] 100, onAny digit [] 106, onAny hexLetter [] 98],
    [on 46 [] 72, on 58 [] 100, onAny hexDigit [] 99],
    [on 46 [] 72, on 58 [] 100, on 53 [] 109, onAny digit [] 108, onAny hexLetter [] 97],
    [on 46 [] 72, on 58 [] 100, onAny hexDigit [] 98],
    [on 46 [] 72, on 58 [] 100, onAny [(48, 53)] [] 106, onAny hexDigit [] 98],
    -- 110
    [on 46 [] 72, on 58 [] 100, onAny digit [] 108, onAny hexLetter [] 97],
    [onAny hexDigit [] 101],
    [on 58 [] 100, onAny hexDigit [] 97],
    [on 2 [] 69, on 48 [] 114, on 49 [] 118, on 50 [] 121, onAny digit [] 124,
      onAny hexLetter [] 125],
    [on 46 [] 72, on 58 [] 111, onAny hexDigit [] 115],
    [on 58 [] 111, onAny hexDigit [] 116],
    [on 58 [] 111, onAny hexDigit [] 117],
    [on 58 [] 111],
    [on 46 [] 72, on 58 [] 111, onAny digit [] 119, onAny hexLetter [] 115],
    [on 46 [] 72, on 58 [] 111, onAny digit [] 120, onAny hexLetter [] 116],
    -- 120
    [on 46 [] 72, on 58 [] 111, onAny hexDigit [] 117],
    [on 46 [] 72, on 58 [] 111, on 53 [] 123, onAny digit [] 122, onAny hexLetter [] 115],
    [on 46 [] 72, on 58 [] 111, onAny hexDigit [] 116],
    [on 46 [] 72, on 58 [] 111, onAny [(48, 53)] [] 120, onAny hexDigit [] 116],
    [on 46 [] 72, on 58 [] 111, onAny digit [] 122, onAny hexLetter [] 115],
    [on 58 [] 111, onAny hexDigit [] 115],
    [onAny hexDigit [] 127],
    [on 58 [] 113, onAny hexDigit [] 128],
    [on 58 [] 113, onAny hexDigit [] 129],
    [on 58 [] 113, onAny hexDigit [] 130],
    -- 130
    [on 58 [] 113],
    [onAny hexDigit [] 132],
    [on 58 [] 126, onAny hexDigit [] 133],
    [on 58 [] 126, onAny hexDigit [] 134],
    [on 58 [] 126, onAny hexDigit [] 135],
    [on 58 [] 126],
    [onAny hexDigit [] 137],
    [on 58 [] 131, onAny hexDigit [] 138],
    [on 58 [] 131, onAny hexDigit [] 139],
    [on 58 [] 131, onAny hexDigit [] 140],
    -- 140
    [on 58 [] 131],
    [onAny hexDigit [] 142],
    [on 58 [] 136, onAny hexDigit [] 143],
    [on 58 [] 136, onAny hexDigit [] 144],
    [on 58 [] 136, onAny hexDigit [] 145],
    [on 58 [] 136],
    [on 58 [] 147],
    [on 2 [] 69, on 48 [] 148, on 49 [] 217, on 50 [] 220, on 93 [] 460, onAny digit [] 223,
      onAny hexLetter [] 224],
    [on 46 [] 72, on 58 [] 152, on 93 [] 460, onAny hexDigit [] 149],
    [on 58 [] 152, on 93 [] 460, onAny hexDigit [] 150],
    -- 150
    [on 58 [] 152, on 93 [] 460, onAny hexDigit [] 151],
    [on 58 [] 152, on 93 [] 460],
    [on 2 [] 69, on 48 [] 153, on 49 [] 209, on 50 [] 212, onAny digit [] 215,
      onAny hexLetter [] 216],
    [on 46 [] 72, on 58 [] 157, on 93 [] 460, onAny hexDigit [] 154],
    [on 58 [] 157, on 93 [] 460, onAny hexDigit [] 155],
    [on 58 [] 157, on 93 [] 460, onAny hexDigit [] 156],
    [on 58 [] 157, on 93 [] 460],
    [on 2 [] 69, on 48 [] 158, on 49 [] 201, on 50 [] 204, onAny digit [] 207,
      onAny hexLetter [] 208],
    [on 46 [] 72, on 58 [] 162, on 93 [] 460, onAny hexDigit [] 159],
    [on 58 [] 162, on 93 [] 460, onAny hexDigit [] 160],
    -- 160
    [on 58 [] 162, on 93 [] 460, onAny hexDigit [] 161],
    [on 58 [] 162, on 93 [] 460],
    [on 2 [] 69, on 48 [] 163, on 49 [] 193, on 50 [] 196, onAny digit [] 199,
      onAny hexLetter [] 200],
    [on 46 [] 72, on 58 [] 167, on 93 [] 460, onAny hexDigit [] 164],
    [on 58 [] 167, on 93 [] 460, onAny hexDigit [] 165],
    [on 58 [] 167, on 93 [] 460, onAny hexDigit [] 166],
    [on 58 [] 167, on 93 [] 460],
    [on 2 [] 69, on 48 [] 168, on 49 [] 185, on 50 [] 188, onAny digit [] 191,
      onAny hexLetter [] 192],
    [on 46 [] 72, on 58 [] 172, on 93 [] 460, onAny hexDigit [] 169],
    [on 58 [] 172, on 93 [] 460, onAny hexDigit [] 170],
    -- 170
    [on 58 [] 172, on 93 [] 460, onAny hexDigit [] 171],
    [on 58 [] 172, on 93 [] 460],
    [on 2 [] 69, on 48 [] 173, on 49 [] 177, on 50 [] 180, onAny digit [] 183,
      onAny hexLetter [] 184],
    [on 46 [] 72, on 58 [] 111, on 93 [] 460, onAny hexDigit [] 174],
    [on 58 [] 111, on 93 [] 460, onAny hexDigit [] 175],
    [on 58 [] 111, on 93 [] 460, onAny hexDigit [] 176],
    [on 58 [] 111, on 93 [] 460],
    [on 46 [] 72, on 58 [] 111, on 93 [] 460, onAny digit [] 178, onAny hexLetter [] 174],
    [on 46 [] 72, on 58 [] 111, on 93 [] 460, onAny digit [] 179, onAny hexLetter [] 175],
    [on 46 [] 72, on 58 [] 111, on 93 [] 460, onAny hexDigit [] 176],
    -- 180
    [on 46 [] 72, on 58 [] 111, on 53 [] 182, on 93 [] 460, onAny digit [] 181,
      onAny hexLetter [] 174],
    [on 46 [] 72, on 58 [] 111, on 93 [] 460, onAny hexDigit [] 175],
    [on 46 [] 72, on 58 [] 111, on 93 [] 460, onAny [(48, 53)] [] 179, onAny hexDigit [] 175],
    [on 46 [] 72, on 58 [] 111, on 93 [] 460, onAny digit [] 181, onAny hexLetter [] 174],
    [on 58 [] 111, on 93 [] 460, onAny hexDigit [] 174],
    [on 46 [] 72, on 58 [] 172, on 93 [] 460, onAny digit [] 186, onAny hexLetter [] 169],
    [on 46 [] 72, on 58 [] 172, on 93 [] 460, onAny digit [] 187, onAny hexLetter [] 170],
    [on 46 [] 72, on 58 [] 172, on 93 [] 460, onAny hexDigit [] 171],
    [on 46 [] 72, on 58 [] 172, on 53 [] 190, on 93 [] 460, onAny digit [] 189,
      onAny hexLetter [] 169],
    [on 46 [] 72, on 58 [] 172, on 93 [] 460, onAny hexDigit [] 170],
    -- 190
    [on 46 [] 72, on 58 [] 172, on 93 [] 460, onAny [(48, 53)] [] 187, onAny hexDigit [] 170],
    [on 46 [] 72, on 58 [] 172, on 93 [] 460, onAny digit [] 189, onAny hexLetter [] 169],
    [on 58 [] 172, on 93 [] 460, onAny hexDigit [] 169],
    [on 46 [] 72, on 58 [] 167, on 93 [] 460, onAny digit [] 194, onAny hexLetter [] 164],
    [on 46 [] 72, on 58 [] 167, on 93 [] 460, onAny digit [] 195, onAny hexLetter [] 165],
    [on 46 [] 72, on 58 [] 167, on 93 [] 460, onAny hexDigit [] 166],
    [on 46 [] 72, on 58 [] 167, on 53 [] 198, on 93 [] 460, onAny digit [] 197,
      onAny hexLetter [] 164],
    [on 46 [] 72, on 58 [] 167, on 93 [] 460, onAny hexDigit [] 165],
    [on 46 [] 72, on 58 [] 167, on 93 [] 460, onAny [(48, 53)] [] 195, onAny hexDigit [] 165],
    [on 46 [] 72, on 58 [] 167, on 93 [] 460, onAny digit [] 197, onAny hexLetter [] 164],
    -- 200
    [on 58 [] 167, on 93 [] 460, onAny hexDigit [] 164],
    [on 46 [] 72, on 58 [] 162, on 93 [] 460, onAny digit [] 202, onAny hexLetter [] 159],
    [on 46 [] 72, on 58 [] 162, on 93 [] 460, onAny digit [] 203, onAny hexLetter [] 160],
    [on 46 [] 72, on 58 [] 162, on 93 [] 460, onAny hexDigit [] 161],
    [on 46 [] 72, on 58 [] 162, on 53 [] 206, on 93 [] 460, onAny digit [] 205,
      onAny hexLetter [] 159],
    [on 46 [] 72, on 58 [] 162, on 93 [] 460, onAny hexDigit [] 160],
    [on 46 [] 72, on 58 [] 162, on 93 [] 460, onAny [(48, 53)] [] 203, onAny hexDigit [] 160],
    [on 46 [] 72, on 58 [] 162, on 93 [] 460, onAny digit [] 205, onAny hexLetter [] 159],
    [on 58 [] 162, on 93 [] 460, onAny hexDigit [] 159],
    [on 46 [] 72, on 58 [] 157, on 93 [] 460, onAny digit [] 210, onAny hexLetter [] 154],
    -- 210
    [on 46 [] 72, on 58 [] 157, on 93 [] 460, onAny digit [] 211, onAny hexLetter [] 155],
    [on 46 [] 72, on 58 [] 157, on 93 [] 460, onAny hexDigit [] 156],
    [on 46 [] 72, on 58 [] 157, on 53 [] 214, on 93 [] 460, onAny digit [] 213,
      onAny hexLetter [] 154],
    [on 46 [] 72, on 58 [] 157, on 93 [] 460, onAny hexDigit [] 155],
    [on 46 [] 72, on 58 [] 157, on 93 [] 460, onAny [(48, 53)] [] 211, onAny hexDigit [] 155],
    [on 46 [] 72, on 58 [] 157, on 93 [] 460, onAny digit [] 213, onAny hexLetter [] 154],
    [on 58 [] 157, on 93 [] 460, onAny hexDigit [] 154],
    [on 46 [] 72, on 58 [] 152, on 93 [] 460, onAny digit [] 218, onAny hexLetter [] 149],
    [on 46 [] 72, on 58 [] 152, on 93 [] 460, onAny digit [] 219, onAny hexLetter [] 150],
    [on 46 [] 72, on 58 [] 152, on 93 [] 460, onAny hexDigit [] 151],
    -- 220
    [on 46 [] 72, on 58 [] 152, on 53 [] 222, on 93 [] 460, onAny digit [] 221,
      onAny hexLetter [] 149],
    [on 46 [] 72, on 58 [] 152, on 93 [] 460, onAny hexDigit [] 150],
    [on 46 [] 72, on 58 [] 152, on 93 [] 460, onAny [(48, 53)] [] 219, onAny hexDigit [] 150],
    [on 46 [] 72, on 58 [] 152, on 93 [] 460, onAny digit [] 221, onAny hexLetter [] 149],
    [on 58 [] 152, on 93 [] 460, onAny hexDigit [] 149],
    [onAny hexDigit [] 226],
    [on 46 [] 227, onAny hexDigit [] 226],
    [onAny userinfoByte [] 228],
    [on 93 [] 460, onAny userinfoByte [] 228],
    [onAny [(48, 52)] [] 230],
    -- 230
    [onAny digit [] 231],
    [on 46 [] 232],
    [on 2 [] 233, on 48 [] 235, on 49 [] 249, on 50 [] 251, onAny digit [] 250],
    [onAny [(48, 52)] [] 234],
    [onAny digit [] 235],
    [on 46 [] 236],
    [on 2 [] 237, on 48 [] 239, on 49 [] 245, on 50 [] 247, onAny digit [] 246],
    [onAny [(48, 52)] [] 238],
    [onAny digit [] 239],
    [on 46 [] 240],
    -- 240
    [on 2 [] 241, on 48 [] 512, on 49 [] 516, on 50 [] 518, onAny digit [] 517],
    [onAny [(48, 52)] [] 242],
    [onAny digit [] 512],
    [onAny hexDigit [] 244],
    [onAny hexDigit [] 513],
    [on 46 [] 240, onAny digit [] 246],
    [on 46 [] 240, onAny digit [] 239],
    [on 46 [] 240, on 53 [] 248, onAny digit [] 239],
    [on 46 [] 240, onAny [(48, 53)] [] 239],
    [on 46 [] 236, onAny digit [] 250],
    -- 250
    [on 46 [] 236, onAny digit [] 235],
    [on 46 [] 236, on 53 [] 252, onAny digit [] 235],
    [on 46 [] 236, onAny [(48, 53)] [] 235],
    [onAny hexDigit [] 254],
    [onAny hexDigit [] 520],
    [on 37 [] 256, on 64 [.saveUserinfo] 522, onAny userinfoByte [] 255],
    [onAny hexDigit [] 257],
    [onAny hexDigit [] 255],
    [onAny hexDigit [] 259],
    [onAny hexDigit [] 523],
    -- 260
    [on 58 [] 368, on 118 [] 447, onAny hexDigit [] 261],
    [on 58 [] 265, onAny hexDigit [] 262],
    [on 58 [] 265, onAny hexDigit [] 263],
    [on 58 [] 265, onAny hexDigit [] 264],
    [on 58 [] 265],
    [on 58 [] 363, onAny hexDigit [] 266],
    [on 58 [] 270, onAny hexDigit [] 267],
    [on 58 [] 270, onAny hexDigit [] 268],
    [on 58 [] 270, onAny hexDigit [] 269],
    [on 58 [] 270],
    -- 270
    [on 58 [] 358, onAny hexDigit [] 271],
    [on 58 [] 275, onAny hexDigit [] 272],
    [on 58 [] 275, onAny hexDigit [] 273],
    [on 58 [] 275, onAny hexDigit [] 274],
    [on 58 [] 275],
    [on 58 [] 353, onAny hexDigit [] 276],
    [on 58 [] 280, onAny hexDigit [] 277],
    [on 58 [] 280, onAny hexDigit [] 278],
    [on 58 [] 280, onAny hexDigit [] 279],
    [on 58 [] 280],
    -- 280
    [on 58 [] 348, onAny hexDigit [] 281],
    [on 58 [] 285, onAny hexDigit [] 282],
    [on 58 [] 285, onAny hexDigit [] 283],
    [on 58 [] 285, onAny hexDigit [] 284],
    [on 58 [] 285],
    [on 58 [] 335, onAny hexDigit [] 286],
    [on 58 [] 290, onAny hexDigit [] 287],
    [on 58 [] 290, onAny hexDigit [] 288],
    [on 58 [] 290, onAny hexDigit [] 289],
    [on 58 [] 290],
    -- 290
    [on 2 [] 291, on 48 [] 318, on 49 [] 326, on 50 [] 329, on 58 [] 333, onAny digit [] 332,
      onAny hexLetter [] 334],
    [onAny [(48, 52)] [] 292],
    [onAny digit [] 293],
    [on 46 [] 294],
    [on 2 [] 295, on 48 [] 297, on 49 [] 314, on 50 [] 316, onAny digit [] 315],
    [onAny [(48, 52)] [] 296],
    [onAny digit [] 297],
    [on 46 [] 298],
    [on 2 [] 299, on 48 [] 301, on 49 [] 310, on 50 [] 312, onAny digit [] 311],
    [onAny [(48, 52)] [] 300],
    -- 300
    [onAny digit [] 301],
    [on 46 [] 302],
    [on 2 [] 303, on 48 [] 305, on 49 [] 306, on 50 [] 308, onAny digit [] 307],
    [onAny [(48, 52)] [] 304],
    [onAny digit [] 305],
    [on 93 [] 512],
    [on 93 [] 512, onAny digit [] 307],
    [on 93 [] 512, onAny digit [] 305],
    [on 53 [] 309, on 93 [] 512, onAny digit [] 305],
    [on 93 [] 512, onAny [(48, 53)] [] 305],
    -- 310
    [on 46 [] 302, onAny digit [] 311],
    [on 46 [] 302, onAny digit [] 301],
    [on 46 [] 302, on 53 [] 313, onAny digit [] 301],
    [on 46 [] 302, onAny [(48, 53)] [] 301],
    [on 46 [] 298, onAny digit [] 315],
    [on 46 [] 298, onAny digit [] 297],
    [on 46 [] 298, on 53 [] 317, onAny digit [] 297],
    [on 46 [] 298, onAny [(48, 53)] [] 297],
    [on 46 [] 294, on 58 [] 322, onAny hexDigit [] 319],
    [on 58 [] 322, onAny hexDigit [] 320],
    -- 320
    [on 58 [] 322, onAny hexDigit [] 321],
    [on 58 [] 322],
    [on 58 [] 305, onAny hexDigit [] 323],
    [on 93 [] 512, onAny hexDigit [] 324],
    [on 93 [] 512, onAny hexDigit [] 325],
    [on 93 [] 512, onAny hexDigit [] 305],
    [on 46 [] 294, on 58 [] 322, onAny digit [] 327, onAny hexLetter [] 319],
    [on 46 [] 294, on 58 [] 322, onAny digit [] 328, onAny hexLetter [] 320],
    [on 46 [] 294, on 58 [] 322, onAny hexDigit [] 321],
    [on 46 [] 294, on 58 [] 322, on 53 [] 331, onAny digit [] 330, onAny hexLetter [] 319],
    -- 330
    [on 46 [] 294, on 58 [] 322, onAny hexDigit [] 320],
    [on 46 [] 294, on 58 [] 322, onAny [(48, 53)] [] 328, onAny hexDigit [] 320],
    [on 46 [] 294, on 58 [] 322, onAny digit [] 330, onAny hexLetter [] 319],
    [onAny hexDigit [] 323],
    [on 58 [] 322, onAny hexDigit [] 319],
    [on 2 [] 291, on 48 [] 336, on 49 [] 340, on 50 [] 343, onAny digit [] 346,
      onAny hexLetter [] 347],
    [on 46 [] 294, on 58 [] 333, onAny hexDigit [] 337],
    [on 58 [] 333, onAny hexDigit [] 338],
    [on 58 [] 333, onAny hexDigit [] 339],
    [on 58 [] 333],
    -- 340
    [on 46 [] 294, on 58 [] 333, onAny digit [] 341, onAny hexLetter [] 337],
    [on 46 [] 294, on 58 [] 333, onAny digit [] 342, onAny hexLetter [] 338],
    [on 46 [] 294, on 58 [] 333, onAny hexDigit [] 339],
    [on 46 [] 294, on 58 [] 333, on 53 [] 345, onAny digit [] 344, onAny hexLetter [] 337],
    [on 46 [] 294, on 58 [] 333, onAny hexDigit [] 338],
    [on 46 [] 294, on 58 [] 333, onAny [(48, 53)] [] 342, onAny hexDigit [] 338],
    [on 46 [] 294, on 58 [] 333, onAny digit [] 344, onAny hexLetter [] 337],
    [on 58 [] 333, onAny hexDigit [] 337],
    [onAny hexDigit [] 349],
    [on 58 [] 335, onAny hexDigit [] 350],
    -- 350
    [on 58 [] 335, onAny hexDigit [] 351],
    [on 58 [] 335, onAny hexDigit [] 352],
    [on 58 [] 335],
    [onAny hexDigit [] 354],
    [on 58 [] 348, onAny hexDigit [] 355],
    [on 58 [] 348, onAny hexDigit [] 356],
    [on 58 [] 348, onAny hexDigit [] 357],
    [on 58 [] 348],
    [onAny hexDigit [] 359],
    [on 58 [] 353, onAny hexDigit [] 360],
    -- 360
    [on 58 [] 353, onAny hexDigit [] 361],
    [on 58 [] 353, onAny hexDigit [] 362],
    [on 58 [] 353],
    [onAny hexDigit [] 364],
    [on 58 [] 358, onAny hexDigit [] 365],
    [on 58 [] 358, onAny hexDigit [] 366],
    [on 58 [] 358, onAny hexDigit [] 367],
    [on 58 [] 358],
    [on 58 [] 369],
    [on 2 [] 291, on 48 [] 370, on 49 [] 439, on 50 [] 442, on 93 [] 512, onAny digit [] 445,
      onAny hexLetter [] 446],
    -- 370
    [on 46 [] 294, on 58 [] 374, on 93 [] 512, onAny hexDigit [] 371],
    [on 58 [] 374, on 93 [] 512, onAny hexDigit [] 372],
    [on 58 [] 374, on 93 [] 512, onAny hexDigit [] 373],
    [on 58 [] 374, on 93 [] 512],
    [on 2 [] 291, on 48 [] 375, on 49 [] 431, on 50 [] 434, onAny digit [] 437,
      onAny hexLetter [] 438],
    [on 46 [] 294, on 58 [] 379, on 93 [] 512, onAny hexDigit [] 376],
    [on 58 [] 379, on 93 [] 512, onAny hexDigit [] 377],
    [on 58 [] 379, on 93 [] 512, onAny hexDigit [] 378],
    [on 58 [] 379, on 93 [] 512],
    [on 2 [] 291, on 48 [] 380, on 49 [] 423, on 50 [] 426, onAny digit [] 429,
      onAny hexLetter [] 430],
    -- 380
    [on 46 [] 294, on 58 [] 384, on 93 [] 512, onAny hexDigit [] 381],
    [on 58 [] 384, on 93 [] 512, onAny hexDigit [] 382],
    [on 58 [] 384, on 93 [] 512, onAny hexDigit [] 383],
    [on 58 [] 384, on 93 [] 512],
    [on 2 [] 291, on 48 [] 385, on 49 [] 415, on 50 [] 418, onAny digit [] 421,
      onAny hexLetter [] 422],
    [on 46 [] 294, on 58 [] 389, on 93 [] 512, onAny hexDigit [] 386],
    [on 58 [] 389, on 93 [] 512, onAny hexDigit [] 387],
    [on 58 [] 389, on 93 [] 512, onAny hexDigit [] 388],
    [on 58 [] 389, on 93 [] 512],
    [on 2 [] 291, on 48 [] 390, on 49 [] 407, on 50 [] 410, onAny digit [] 413,
      onAny hexLetter [] 414],
    -- 390
    [on 46 [] 294, on 58 [] 394, on 93 [] 512, onAny hexDigit [] 391],
    [on 58 [] 394, on 93 [] 512, onAny hexDigit [] 392],
    [on 58 [] 394, on 93 [] 512, onAny hexDigit [] 393],
    [on 58 [] 394, on 93 [] 512],
    [on 2 [] 291, on 48 [] 395, on 49 [] 399, on 50 [] 402, onAny digit [] 405,
      onAny hexLetter [] 406],
    [on 46 [] 294, on 58 [] 333, on 93 [] 512, onAny hexDigit [] 396],
    [on 58 [] 333, on 93 [] 512, onAny hexDigit [] 397],
    [on 58 [] 333, on 93 [] 512, onAny hexDigit [] 398],
    [on 58 [] 333, on 93 [] 512],
    [on 46 [] 294, on 58 [] 333, on 93 [] 512, onAny digit [] 400, onAny hexLetter [] 396],
    -- 400
    [on 46 [] 294, on 58 [] 333, on 93 [] 512, onAny digit [] 401, onAny hexLetter [] 397],
    [on 46 [] 294, on 58 [] 333, on 93 [] 512, onAny hexDigit [] 398],
    [on 46 [] 294, on 58 [] 333, on 53 [] 404, on 93 [] 512, onAny digit [] 403,
      onAny hexLetter [] 396],
    [on 46 [] 294, on 58 [] 333, on 93 [] 512, onAny hexDigit [] 397],
    [on 46 [] 294, on 58 [] 333, on 93 [] 512, onAny [(48, 53)] [] 401, onAny hexDigit [] 397],
    [on 46 [] 294, on 58 [] 333, on 93 [] 512, onAny digit [] 403, onAny hexLetter [] 396],
    [on 58 [] 333, on 93 [] 512, onAny hexDigit [] 396],
    [on 46 [] 294, on 58 [] 394, on 93 [] 512, onAny digit [] 408, onAny hexLetter [] 391],
    [on 46 [] 294, on 58 [] 394, on 93 [] 512, onAny digit [] 409, onAny hexLetter [] 392],
    [on 46 [] 294, on 58 [] 394, on 93 [] 512, onAny hexDigit [] 393],
    -- 410
    [on 46 [] 294, on 58 [] 394, on 53 [] 412, on 93 [] 512, onAny digit [] 411,
      onAny hexLetter [] 391],
    [on 46 [] 294, on 58 [] 394, on 93 [] 512, onAny hexDigit [] 392],
    [on 46 [] 294, on 58 [] 394, on 93 [] 512, onAny [(48, 53)] [] 409, onAny hexDigit [] 392],
    [on 46 [] 294, on 58 [] 394, on 93 [] 512, onAny digit [] 411, onAny hexLetter [] 391],
    [on 58 [] 394, on 93 [] 512, onAny hexDigit [] 391],
    [on 46 [] 294, on 58 [] 389, on 93 [] 512, onAny digit [] 416, onAny hexLetter [] 386],
    [on 46 [] 294, on 58 [] 389, on 93 [] 512, onAny digit [] 417, onAny hexLetter [] 387],
    [on 46 [] 294, on 58 [] 389, on 93 [] 512, onAny hexDigit [] 388],
    [on 46 [] 294, on 58 [] 389, on 53 [] 420, on 93 [] 512, onAny digit [] 419,
      onAny hexLetter [] 386],
    [on 46 [] 294, on 58 [] 389, on 93 [] 512, onAny hexDigit [] 387],
    -- 420
    [on 46 [] 294, on 58 [] 389, on 93 [] 512, onAny [(48, 53)] [] 417, onAny hexDigit [] 387],
    [on 46 [] 294, on 58 [] 389, on 93 [] 512, onAny digit [] 419, onAny hexLetter [] 386],
    [on 58 [] 389, on 93 [] 512, onAny hexDigit [] 386],
    [on 46 [] 294, on 58 [] 384, on 93 [] 512, onAny digit [] 424, onAny hexLetter [] 381],
    [on 46 [] 294, on 58 [] 384, on 93 [] 512, onAny digit [] 425, onAny hexLetter [] 382],
    [on 46 [] 294, on 58 [] 384, on 93 [] 512, onAny hexDigit [] 383],
    [on 46 [] 294, on 58 [] 384, on 53 [] 428, on 93 [] 512, onAny digit [] 427,
      onAny hexLetter [] 381],
    [on 46 [] 294, on 58 [] 384, on 93 [] 512, onAny hexDigit [] 382],
    [on 46 [] 294, on 58 [] 384, on 93 [] 512, onAny [(48, 53)] [] 425, onAny hexDigit [] 382],
    [on 46 [] 294, on 58 [] 384, on 93 [] 512, onAny digit [] 427, onAny hexLetter [] 381],
    -- 430
    [on 58 [] 384, on 93 [] 512, onAny hexDigit [] 381],
    [on 46 [] 294, on 58 [] 379, on 93 [] 512, onAny digit [] 432, onAny hexLetter [] 376],
    [on 46 [] 294, on 58 [] 379, on 93 [] 512, onAny digit [] 433, onAny hexLetter [] 377],
    [on 46 [] 294, on 58 [] 379, on 93 [] 512, onAny hexDigit [] 378],
    [on 46 [] 294, on 58 [] 379, on 53 [] 436, on 93 [] 512, onAny digit [] 435,
      onAny hexLetter [] 376],
    [on 46 [] 294, on 58 [] 379, on 93 [] 512, onAny hexDigit [] 377],
    [on 46 [] 294, on 58 [] 379, on 93 [] 512, onAny [(48, 53)] [] 433, onAny hexDigit [] 377],
    [on 46 [] 294, on 58 [] 379, on 93 [] 512, onAny digit [] 435, onAny hexLetter [] 376],
    [on 58 [] 379, on 93 [] 512, onAny hexDigit [] 376],
    [on 46 [] 294, on 58 [] 374, on 93 [] 512, onAny digit [] 440, onAny hexLetter [] 371],
    -- 440
    [on 46 [] 294, on 58 [] 374, on 93 [] 512, onAny digit [] 441, onAny hexLetter [] 372],
    [on 46 [] 294, on 58 [] 374, on 93 [] 512, onAny hexDigit [] 373],
    [on 46 [] 294, on 58 [] 374, on 53 [] 444, on 93 [] 512, onAny digit [] 443,
      onAny hexLetter [] 371],
    [on 46 [] 294, on 58 [] 374, on 93 [] 512, onAny hexDigit [] 372],
    [on 46 [] 294, on 58 [] 374, on 93 [] 512, onAny [(48, 53)] [] 441, onAny hexDigit [] 372],
    [on 46 [] 294, on 58 [] 374, on 93 [] 512, onAny digit [] 443, onAny hexLetter [] 371],
    [on 58 [] 374, on 93 [] 512, onAny hexDigit [] 371],
    [onAny hexDigit [] 448],
    [on 46 [] 449, onAny hexDigit [] 448],
    [onAny userinfoByte [] 450],
    -- 450
    [on 93 [] 512, onAny userinfoByte [] 450],
    [on 37 [] 3, on 35 [] 453, on 63 [] 456, on 47 [] 458, onAny letter [.marku] 508,
      onAny noColonByte [] 452],
    [on 37 [] 3, on 35 [] 453, on 47 [] 455, on 63 [] 456, onAny noColonByte [] 452],
    [on 37 [.marku] 1, onAny queryByte [.marku] 454],
    [on 37 [] 1, onAny queryByte [] 454],
    [on 37 [] 5, on 35 [] 453, on 63 [] 456, onAny pathByte [] 455],
    [on 37 [.marku] 7, on 35 [.marku, .saveQuery] 453, onAny queryByte [.marku] 457],
    [on 37 [] 7, on 35 [.saveQuery] 453, onAny queryByte [] 457],
    [on 37 [] 5, on 35 [] 453, on 63 [] 456, on 47 [] 459, onAny pchar [] 455],
    [on 2 [.markh] 9, on 37 [.markh] 31, on 91 [.markh] 38, on 35 [.markh, .saveHost] 453,
      on 47 [.markh, .saveHost] 455, on 63 [.markh, .saveHost] 456, on 58 [.markh, .saveHost] 468,
      on 64 [.markh, .saveUserinfo] 469, on 48 [.markh] 490, on 49 [.markh] 504,
      on 50 [.markh] 506, onAny digit [.markh] 505, onAny regNameByte [.markh] 467],
    -- 460
    [on 35 [.saveHost] 453, on 47 [.saveHost] 455, on 63 [.saveHost] 456, on 58 [.saveHost] 461],
    [on 35 [.markh, .savePort] 453, on 47 [.markh, .savePort] 455, on 63 [.markh, .savePort] 456,
      onAny digit [.markh] 462],
    [on 35 [.savePort] 453, on 47 [.savePort] 455, on 63 [.savePort] 456, onAny digit [] 462],
    [on 35 [.saveHost] 453, on 47 [.saveHost] 455, on 63 [.saveHost] 456, on 58 [.saveHost] 461,
      onAny digit [] 464],
    [on 35 [.saveHost] 453, on 47 [.saveHost] 455, on 63 [.saveHost] 456, on 58 [.saveHost] 461,
      onAny digit [] 460],
    [on 35 [.saveHost] 453, on 47 [.saveHost] 455, on 63 [.saveHost] 456, on 58 [.saveHost] 461,
      on 53 [] 466, onAny digit [] 460],
    [on 35 [.saveHost] 453, on 47 [.saveHost] 455, on 63 [.saveHost] 456, on 58 [.saveHost] 461,
      onAny [(48, 53)] [] 460],
    [on 37 [] 31, on 35 [.saveHost] 453, on 47 [.saveHost] 455, on 63 [.saveHost] 456,
      on 58 [.saveHost] 468, on 64 [.saveUserinfo] 469, onAny regNameByte [] 467],
    [on 37 [] 34, on 35 [.markh, .savePort] 453, on 47 [.markh, .savePort] 455,
      on 63 [.markh, .savePort] 456, on 64 [.saveUserinfo] 469, onAny digit [.markh] 489,
      onAny userinfoByte [] 33],
    [on 2 [.markh] 9, on 37 [.markh] 36, on 91 [.markh] 38, on 35 [.markh, .saveHost] 453,
      on 47 [.markh, .saveHost] 455, on 63 [.markh, .saveHost] 456, on 58 [.markh, .saveHost] 461,
      on 48 [.markh] 471, on 49 [.markh] 485, on 50 [.markh] 487, onAny digit [.markh] 486,
      onAny regNameByte [.markh] 470],
    -- 470
    [on 37 [] 36, on 35 [.saveHost] 453, on 47 [.saveHost] 455, on 63 [.saveHost] 456,
      on 58 [.saveHost] 461, onAny regNameByte [] 470],
    [on 37 [] 36, on 35 [.saveHost] 453, on 47 [.saveHost] 455, on 63 [.saveHost] 456,
      on 58 [.saveHost] 461, on 46 [] 472, onAny regNameByte [] 470],
    [on 2 [] 13, on 37 [] 36, on 35 [.saveHost] 453, on 47 [.saveHost] 455, on 63 [.saveHost] 456,
      on 58 [.saveHost] 461, on 48 [] 473, on 49 [] 481, on 50 [] 483, onAny digit [] 482,
      onAny regNameByte [] 470],
    [on 37 [] 36, on 35 [.saveHost] 453, on 47 [.saveHost] 455, on 63 [.saveHost] 456,
      on 58 [.saveHost] 461, on 46 [] 474, onAny regNameByte [] 470],
    [on 2 [] 17, on 37 [] 36, on 35 [.saveHost] 453, on 47 [.saveHost] 455, on 63 [.saveHost] 456,
      on 58 [.saveHost] 461, on 48 [] 475, on 49 [] 477, on 50 [] 479, onAny digit [] 478,
      onAny regNameByte [] 470],
    [on 37 [] 36, on 35 [.saveHost] 453, on 47 [.saveHost] 455, on 63 [.saveHost] 456,
      on 58 [.saveHost] 461, on 46 [] 476, onAny regNameByte [] 470],
    [on 2 [] 21, on 37 [] 36, on 35 [.saveHost] 453, on 47 [.saveHost] 455, on 63 [.saveHost] 456,
      on 58 [.saveHost] 461, onAny regNameByte [] 470],
    [on 37 [] 36, on 35 [.saveHost] 453, on 47 [.saveHost] 455, on 63 [.saveHost] 456,
      on 58 [.saveHost] 461, on 46 [] 476, onAny digit [] 478, onAny regNameByte [] 470],
    [on 37 [] 36, on 35 [.saveHost] 453, on 47 [.saveHost] 455, on 63 [.saveHost] 456,
      on 58 [.saveHost] 461, on 46 [] 476, onAny digit [] 475, onAny regNameByte [] 470],
    [on 37 [] 36, on 35 [.saveHost] 453, on 47 [.saveHost] 455, on 63 [.saveHost] 456,
      on 58 [.saveHost] 461, on 46 [] 476, on 53 [] 480, onAny digit [] 475,
      onAny regNameByte [] 470],
    -- 480
    [on 37 [] 36, on 35 [.saveHost] 453, on 47 [.saveHost] 455, on 63 [.saveHost] 456,
      on 58 [.saveHost] 461, on 46 [] 476, onAny [(48, 53)] [] 475, onAny regNameByte [] 470],
    [on 37 [] 36, on 35 [.saveHost] 453, on 47 [.saveHost] 455, on 63 [.saveHost] 456,
      on 58 [.saveHost] 461, on 46 [] 474, onAny digit [] 482, onAny regNameByte [] 470],
    [on 37 [] 36, on 35 [.saveHost] 453, on 47 [.saveHost] 455, on 63 [.saveHost] 456,
      on 58 [.saveHost] 461, on 46 [] 474, onAny digit [] 473, onAny regNameByte [] 470],
    [on 37 [] 36, on 35 [.saveHost] 453, on 47 [.saveHost] 455, on 63 [.saveHost] 456,
      on 58 [.saveHost] 461, on 46 [] 474, on 53 [] 484, onAny digit [] 473,
      onAny regNameByte [] 470],
    [on 37 [] 36, on 35 [.saveHost] 453, on 47 [.saveHost] 455, on 63 [.saveHost] 456,
      on 58 [.saveHost] 461, on 46 [] 474, onAny [(48, 53)] [] 473, onAny regNameByte [] 470],
    [on 37 [] 36, on 35 [.saveHost] 453, on 47 [.saveHost] 455, on 63 [.saveHost] 456,
      on 58 [.saveHost] 461, on 46 [] 472, onAny digit [] 486, onAny regNameByte [] 470],
    [on 37 [] 36, on 35 [.saveHost] 453, on 47 [.saveHost] 455, on 63 [.saveHost] 456,
      on 58 [.saveHost] 461, on 46 [] 472, onAny digit [] 471, onAny regNameByte [] 470],
    [on 37 [] 36, on 35 [.saveHost] 453, on 47 [.saveHost] 455, on 63 [.saveHost] 456,
      on 58 [.saveHost] 461, on 46 [] 472, on 53 [] 488, onAny digit [] 471,
      onAny regNameByte [] 470],
    [on 37 [] 36, on 35 [.saveHost] 453, on 47 [.saveHost] 455, on 63 [.saveHost] 456,
      on 58 [.saveHost] 461, on 46 [] 472, onAny [(48, 53)] [] 471, onAny regNameByte [] 470],
    [on 37 [] 34, on 35 [.savePort] 453, on 47 [.savePort] 455, on 63 [.savePort] 456,
      on 64 [.saveUserinfo] 469, onAny digit [] 489, onAny userinfoByte [] 33],
    -- 490
    [on 37 [] 31, on 35 [.saveHost] 453, on 47 [.saveHost] 455, on 63 [.saveHost] 456,
      on 58 [.saveHost] 468, on 64 [.saveUserinfo] 469, on 46 [] 491, onAny regNameByte [] 467],
    [on 2 [] 13, on 37 [] 31, on 35 [.saveHost] 453, on 47 [.saveHost] 455, on 63 [.saveHost] 456,
      on 58 [.saveHost] 468, on 64 [.saveUserinfo] 469, on 48 [] 492, on 49 [] 500, on 50 [] 502,
      onAny digit [] 501, onAny regNameByte [] 467],
    [on 37 [] 31, on 35 [.saveHost] 453, on 47 [.saveHost] 455, on 63 [.saveHost] 456,
      on 58 [.saveHost] 468, on 64 [.saveUserinfo] 469, on 46 [] 493, onAny regNameByte [] 467],
    [on 2 [] 17, on 37 [] 31, on 35 [.saveHost] 453, on 47 [.saveHost] 455, on 63 [.saveHost] 456,
      on 58 [.saveHost] 468, on 64 [.saveUserinfo] 469, on 48 [] 494, on 49 [] 496, on 50 [] 498,
      onAny digit [] 497, onAny regNameByte [] 467],
    [on 37 [] 31, on 35 [.saveHost] 453, on 47 [.saveHost] 455, on 63 [.saveHost] 456,
      on 58 [.saveHost] 468, on 64 [.saveUserinfo] 469, on 46 [] 495, onAny regNameByte [] 467],
    [on 2 [] 21, on 37 [] 31, on 35 [.saveHost] 453, on 47 [.saveHost] 455, on 63 [.saveHost] 456,
      on 58 [.saveHost] 468, on 64 [.saveUserinfo] 469, onAny regNameByte [] 467],
    [on 37 [] 31, on 35 [.saveHost] 453, on 47 [.saveHost] 455, on 63 [.saveHost] 456,
      on 58 [.saveHost] 468, on 64 [.saveUserinfo] 469, on 46 [] 495, onAny digit [] 497,
      onAny regNameByte [] 467],
    [on 37 [] 31, on 35 [.saveHost] 453, on 47 [.saveHost] 455, on 63 [.saveHost] 456,
      on 58 [.saveHost] 468, on 64 [.saveUserinfo] 469, on 46 [] 495, onAny digit [] 494,
      onAny regNameByte [] 467],
    [on 37 [] 31, on 35 [.saveHost] 453, on 47 [.saveHost] 455, on 63 [.saveHost] 456,
      on 58 [.saveHost] 468, on 64 [.saveUserinfo] 469, on 46 [] 495, on 53 [] 499,
      onAny digit [] 494, onAny regNameByte [] 467],
    [on 37 [] 31, on 35 [.saveHost] 453, on 47 [.saveHost] 455, on 63 [.saveHost] 456,
      on 58 [.saveHost] 468, on 64 [.saveUserinfo] 469, on 46 [] 495, onAny [(48, 53)] [] 494,
      onAny regNameByte [] 467],
    -- 500
    [on 37 [] 31, on 35 [.saveHost] 453, on 47 [.saveHost] 455, on 63 [.saveHost] 456,
      on 58 [.saveHost] 468, on 64 [.saveUserinfo] 469, on 46 [] 493, onAny digit [] 501,
      onAny regNameByte [] 467],
    [on 37 [] 31, on 35 [.saveHost] 453, on 47 [.saveHost] 455, on 63 [.saveHost] 456,
      on 58 [.saveHost] 468, on 64 [.saveUserinfo] 469, on 46 [] 493, onAny digit [] 492,
      onAny regNameByte [] 467],
    [on 37 [] 31, on 35 [.saveHost] 453, on 47 [.saveHost] 455, on 63 [.saveHost] 456,
      on 58 [.saveHost] 468, on 64 [.saveUserinfo] 469, on 46 [] 493, on 53 [] 503,
      onAny digit [] 492, onAny regNameByte [] 467],
    [on 37 [] 31, on 35 [.saveHost] 453, on 47 [.saveHost] 455, on 63 [.saveHost] 456,
      on 58 [.saveHost] 468, on 64 [.saveUserinfo] 469, on 46 [] 493, onAny [(48, 53)] [] 492,
      onAny regNameByte [] 467],
    [on 37 [] 31, on 35 [.saveHost] 453, on 47 [.saveHost] 455, on 63 [.saveHost] 456,
      on 58 [.saveHost] 468, on 64 [.saveUserinfo] 469, on 46 [] 491, onAny digit [] 505,
      onAny regNameByte [] 467],
    [on 37 [] 31, on 35 [.saveHost] 453, on 47 [.saveHost] 455, on 63 [.saveHost] 456,
      on 58 [.saveHost] 468, on 64 [.saveUserinfo] 469, on 46 [] 491, onAny digit [] 490,
      onAny regNameByte [] 467],
    [on 37 [] 31, on 35 [.saveHost] 453, on 47 [.saveHost] 455, on 63 [.saveHost] 456,
      on 58 [.saveHost] 468, on 64 [.saveUserinfo] 469, on 46 [] 491, on 53 [] 507,
      onAny digit [] 490, onAny regNameByte [] 467],
    [on 37 [] 31, on 35 [.saveHost] 453, on 47 [.saveHost] 455, on 63 [.saveHost] 456,
      on 58 [.saveHost] 468, on 64 [.saveUserinfo] 469, on 46 [] 491, onAny [(48, 53)] [] 490,
      onAny regNameByte [] 467],
    [on 37 [] 3, on 35 [] 453, on 47 [] 455, on 63 [] 456, on 58 [.saveScheme] 509,
      onAny schemeByte [] 508, onAny noColonByte [] 452],
    [on 37 [] 5, on 35 [] 453, on 63 [] 456, on 47 [] 510, onAny pchar [] 455],
    -- 510
    [on 37 [] 5, on 35 [] 453, on 63 [] 456, on 47 [] 511, onAny pchar [] 455],
    [on 2 [.markh] 229, on 37 [.markh] 253, on 91 [.markh] 260,
      on 35 [.markh, .saveHost, .savePath] 453, on 63 [.markh, .saveHost, .savePath] 456,
      on 47 [.markh, .saveHost] 513, on 58 [.markh, .saveHost] 521,
      on 64 [.markh, .saveUserinfo] 522, on 48 [.markh] 543, on 49 [.markh] 557,
      on 50 [.markh] 559, onAny digit [.markh] 558, onAny regNameByte [.markh] 520],
    [on 35 [.saveHost, .markh, .savePath] 453, on 63 [.saveHost, .markh, .savePath] 456,
      on 47 [.saveHost, .markh] 513, on 58 [.saveHost] 514],
    [on 37 [] 243, on 35 [.savePath] 453, on 63 [.savePath] 456, onAny pathByte [] 513],
    [on 35 [.markh, .savePort, .savePath] 453, on 63 [.markh, .savePort, .savePath] 456,
      on 47 [.markh, .savePort] 513, onAny digit [.markh] 515],
    [on 35 [.savePort, .markh, .savePath] 453, on 63 [.savePort, .markh, .savePath] 456,
      on 47 [.savePort, .markh] 513, onAny digit [] 515],
    [on 35 [.saveHost, .markh, .savePath] 453, on 63 [.saveHost, .markh, .savePath] 456,
      on 47 [.saveHost, .markh] 513, on 58 [.saveHost] 514, onAny digit [] 517],
    [on 35 [.saveHost, .markh, .savePath] 453, on 63 [.saveHost, .markh, .savePath] 456,
      on 47 [.saveHost, .markh] 513, on 58 [.saveHost] 514, onAny digit [] 512],
    [on 35 [.saveHost, .markh, .savePath] 453, on 63 [.saveHost, .markh, .savePath] 456,
      on 47 [.saveHost, .markh] 513, on 58 [.saveHost] 514, on 53 [] 519, onAny digit [] 512],
    [on 35 [.saveHost, .markh, .savePath] 453, on 63 [.saveHost, .markh, .savePath] 456,
      on 47 [.saveHost, .markh] 513, on 58 [.saveHost] 514, onAny [(48, 53)] [] 512],
    -- 520
    [on 37 [] 253, on 35 [.saveHost, .markh, .savePath] 453,
      on 63 [.saveHost, .markh, .savePath] 456, on 47 [.saveHost, .markh] 513,
      on 58 [.saveHost] 521, on 64 [.saveUserinfo] 522, onAny regNameByte [] 520],
    [on 37 [] 256, on 35 [.markh, .savePort, .savePath] 453,
      on 63 [.markh, .savePort, .savePath] 456, on 47 [.markh, .savePort] 513,
      on 64 [.saveUserinfo] 522, onAny digit [.markh] 542, onAny userinfoByte [] 255],
    [on 2 [.markh] 229, on 37 [.markh] 258, on 91 [.markh] 260,
      on 35 [.markh, .saveHost, .savePath] 453, on 63 [.markh, .saveHost, .savePath] 456,
      on 47 [.markh, .saveHost] 513, on 58 [.markh, .saveHost] 514, on 48 [.markh] 524,
      on 49 [.markh] 538, on 50 [.markh] 540, onAny digit [.markh] 539,
      onAny regNameByte [.markh] 523],
    [on 37 [] 258, on 35 [.saveHost, .markh, .savePath] 453,
      on 63 [.saveHost, .markh, .savePath] 456, on 47 [.saveHost, .markh] 513,
      on 58 [.saveHost] 514, onAny regNameByte [] 523],
    [on 37 [] 258, on 35 [.saveHost, .markh, .savePath] 453,
      on 63 [.saveHost, .markh, .savePath] 456, on 47 [.saveHost, .markh] 513,
      on 58 [.saveHost] 514, on 46 [] 525, onAny regNameByte [] 523],
    [on 2 [] 233, on 37 [] 258, on 35 [.saveHost, .markh, .savePath] 453,
      on 63 [.saveHost, .markh, .savePath] 456, on 47 [.saveHost, .markh] 513,
      on 58 [.saveHost] 514, on 48 [] 526, on 49 [] 534, on 50 [] 536, onAny digit [] 535,
      onAny regNameByte [] 523],
    [on 37 [] 258, on 35 [.saveHost, .markh, .savePath] 453,
      on 63 [.saveHost, .markh, .savePath] 456, on 47 [.saveHost, .markh] 513,
      on 58 [.saveHost] 514, on 46 [] 527, onAny regNameByte [] 523],
    [on 2 [] 237, on 37 [] 258, on 35 [.saveHost, .markh, .savePath] 453,
      on 63 [.saveHost, .markh, .savePath] 456, on 47 [.saveHost, .markh] 513,
      on 58 [.saveHost] 514, on 48 [] 528, on 49 [] 530, on 50 [] 532, onAny digit [] 531,
      onAny regNameByte [] 523],
    [on 37 [] 258, on 35 [.saveHost, .markh, .savePath] 453,
      on 63 [.saveHost, .markh, .savePath] 456, on 47 [.saveHost, .markh] 513,
      on 58 [.saveHost] 514, on 46 [] 529, onAny regNameByte [] 523],
    [on 2 [] 241, on 37 [] 258, on 35 [.saveHost, .markh, .savePath] 453,
      on 63 [.saveHost, .markh, .savePath] 456, on 47 [.saveHost, .markh] 513,
      on 58 [.saveHost] 514, onAny regNameByte [] 523],
    -- 530
    [on 37 [] 258, on 35 [.saveHost, .markh, .savePath] 453,
      on 63 [.saveHost, .markh, .savePath] 456, on 47 [.saveHost, .markh] 513,
      on 58 [.saveHost] 514, on 46 [] 529, onAny digit [] 531, onAny regNameByte [] 523],
    [on 37 [] 258, on 35 [.saveHost, .markh, .savePath] 453,
      on 63 [.saveHost, .markh, .savePath] 456, on 47 [.saveHost, .markh] 513,
      on 58 [.saveHost] 514, on 46 [] 529, onAny digit [] 528, onAny regNameByte [] 523],
    [on 37 [] 258, on 35 [.saveHost, .markh, .savePath] 453,
      on 63 [.saveHost, .markh, .savePath] 456, on 47 [.saveHost, .markh] 513,
      on 58 [.saveHost] 514, on 46 [] 529, on 53 [] 533, onAny digit [] 528,
      onAny regNameByte [] 523],
    [on 37 [] 258, on 35 [.saveHost, .markh, .savePath] 453,
      on 63 [.saveHost, .markh, .savePath] 456, on 47 [.saveHost, .markh] 513,
      on 58 [.saveHost] 514, on 46 [] 529, onAny [(48, 53)] [] 528, onAny regNameByte [] 523],
    [on 37 [] 258, on 35 [.saveHost, .markh, .savePath] 453,
      on 63 [.saveHost, .markh, .savePath] 456, on 47 [.saveHost, .markh] 513,
      on 58 [.saveHost] 514, on 46 [] 527, onAny digit [] 535, onAny regNameByte [] 523],
    [on 37 [] 258, on 35 [.saveHost, .markh, .savePath] 453,
      on 63 [.saveHost, .markh, .savePath] 456, on 47 [.saveHost, .markh] 513,
      on 58 [.saveHost] 514, on 46 [] 527, onAny digit [] 526, onAny regNameByte [] 523],
    [on 37 [] 258, on 35 [.saveHost, .markh, .savePath] 453,
      on 63 [.saveHost, .markh, .savePath] 456, on 47 [.saveHost, .markh] 513,
      on 58 [.saveHost] 514, on 46 [] 527, on 53 [] 537, onAny digit [] 526,
      onAny regNameByte [] 523],
    [on 37 [] 258, on 35 [.saveHost, .markh, .savePath] 453,
      on 63 [.saveHost, .markh, .savePath] 456, on 47 [.saveHost, .markh] 513,
      on 58 [.saveHost] 514, on 46 [] 527, onAny [(48, 53)] [] 526, onAny regNameByte [] 523],
    [on 37 [] 258, on 35 [.saveHost, .markh, .savePath] 453,
      on 63 [.saveHost, .markh, .savePath] 456, on 47 [.saveHost, .markh] 513,
      on 58 [.saveHost] 514, on 46 [] 525, onAny digit [] 539, onAny regNameByte [] 523],
    [on 37 [] 258, on 35 [.saveHost, .markh, .savePath] 453,
      on 63 [.saveHost, .markh, .savePath] 456, on 47 [.saveHost, .markh] 513,
      on 58 [.saveHost] 514, on 46 [] 525, onAny digit [] 524, onAny regNameByte [] 523],
    -- 540
    [on 37 [] 258, on 35 [.saveHost, .markh, .savePath] 453,
      on 63 [.saveHost, .markh, .savePath] 456, on 47 [.saveHost, .markh] 513,
      on 58 [.saveHost] 514, on 46 [] 525, on 53 [] 541, onAny digit [] 524,
      onAny regNameByte [] 523],
    [on 37 [] 258, on 35 [.saveHost, .markh, .savePath] 453,
      on 63 [.saveHost, .markh, .savePath] 456, on 47 [.saveHost, .markh] 513,
      on 58 [.saveHost] 514, on 46 [] 525, onAny [(48, 53)] [] 524, onAny regNameByte [] 523],
    [on 37 [] 256, on 35 [.savePort, .markh, .savePath] 453,
      on 63 [.savePort, .markh, .savePath] 456, on 47 [.savePort, .markh] 513,
      on 64 [.saveUserinfo] 522, onAny digit [] 542, onAny userinfoByte [] 255],
    [on 37 [] 253, on 35 [.saveHost, .markh, .savePath] 453,
      on 63 [.saveHost, .markh, .savePath] 456, on 47 [.saveHost, .markh] 513,
      on 58 [.saveHost] 521, on 64 [.saveUserinfo] 522, on 46 [] 544, onAny regNameByte [] 520],
    [on 2 [] 233, on 37 [] 253, on 35 [.saveHost, .markh, .savePath] 453,
      on 63 [.saveHost, .markh, .savePath] 456, on 47 [.saveHost, .markh] 513,
      on 58 [.saveHost] 521, on 64 [.saveUserinfo] 522, on 48 [] 545, on 49 [] 553, on 50 [] 555,
      onAny digit [] 554, onAny regNameByte [] 520],
    [on 37 [] 253, on 35 [.saveHost, .markh, .savePath] 453,
      on 63 [.saveHost, .markh, .savePath] 456, on 47 [.saveHost, .markh] 513,
      on 58 [.saveHost] 521, on 64 [.saveUserinfo] 522, on 46 [] 546, onAny regNameByte [] 520],
    [on 2 [] 237, on 37 [] 253, on 35 [.saveHost, .markh, .savePath] 453,
      on 63 [.saveHost, .markh, .savePath] 456, on 47 [.saveHost, .markh] 513,
      on 58 [.saveHost] 521, on 64 [.saveUserinfo] 522, on 48 [] 547, on 49 [] 549, on 50 [] 551,
      onAny digit [] 550, onAny regNameByte [] 520],
    [on 37 [] 253, on 35 [.saveHost, .markh, .savePath] 453,
      on 63 [.saveHost, .markh, .savePath] 456, on 47 [.saveHost, .markh] 513,
      on 58 [.saveHost] 521, on 64 [.saveUserinfo] 522, on 46 [] 548, onAny regNameByte [] 520],
    [on 2 [] 241, on 37 [] 253, on 35 [.saveHost, .markh, .savePath] 453,
      on 63 [.saveHost, .markh, .savePath] 456, on 47 [.saveHost, .markh] 513,
      on 58 [.saveHost] 521, on 64 [.saveUserinfo] 522, onAny regNameByte [] 520],
    [on 37 [] 253, on 35 [.saveHost, .markh, .savePath] 453,
      on 63 [.saveHost, .markh, .savePath] 456, on 47 [.saveHost, .markh] 513,
      on 58 [.saveHost] 521, on 64 [.saveUserinfo] 522, on 46 [] 548, onAny digit [] 550,
      onAny regNameByte [] 520],
    -- 550
    [on 37 [] 253, on 35 [.saveHost, .markh, .savePath] 453,
      on 63 [.saveHost, .markh, .savePath] 456, on 47 [.saveHost, .markh] 513,
      on 58 [.saveHost] 521, on 64 [.saveUserinfo] 522, on 46 [] 548, onAny digit [] 547,
      onAny regNameByte [] 520],
    [on 37 [] 253, on 35 [.saveHost, .markh, .savePath] 453,
      on 63 [.saveHost, .markh, .savePath] 456, on 47 [.saveHost, .markh] 513,
      on 58 [.saveHost] 521, on 64 [.saveUserinfo] 522, on 46 [] 548, on 53 [] 552,
      onAny digit [] 547, onAny regNameByte [] 520],
    [on 37 [] 253, on 35 [.saveHost, .markh, .savePath] 453,
      on 63 [.saveHost, .markh, .savePath] 456, on 47 [.saveHost, .markh] 513,
      on 58 [.saveHost] 521, on 64 [.saveUserinfo] 522, on 46 [] 548, onAny [(48, 53)] [] 547,
      onAny regNameByte [] 520],
    [on 37 [] 253, on 35 [.saveHost, .markh, .savePath] 453,
      on 63 [.saveHost, .markh, .savePath] 456, on 47 [.saveHost, .markh] 513,
      on 58 [.saveHost] 521, on 64 [.saveUserinfo] 522, on 46 [] 546, onAny digit [] 554,
      onAny regNameByte [] 520],
    [on 37 [] 253, on 35 [.saveHost, .markh, .savePath] 453,
      on 63 [.saveHost, .markh, .savePath] 456, on 47 [.saveHost, .markh] 513,
      on 58 [.saveHost] 521, on 64 [.saveUserinfo] 522, on 46 [] 546, onAny digit [] 545,
      onAny regNameByte [] 520],
    [on 37 [] 253, on 35 [.saveHost, .markh, .savePath] 453,
      on 63 [.saveHost, .markh, .savePath] 456, on 47 [.saveHost, .markh] 513,
      on 58 [.saveHost] 521, on 64 [.saveUserinfo] 522, on 46 [] 546, on 53 [] 556,
      onAny digit [] 545, onAny regNameByte [] 520],
    [on 37 [] 253, on 35 [.saveHost, .markh, .savePath] 453,
      on 63 [.saveHost, .markh, .savePath] 456, on 47 [.saveHost, .markh] 513,
      on 58 [.saveHost] 521, on 64 [.saveUserinfo] 522, on 46 [] 546, onAny [(48, 53)] [] 545,
      onAny regNameByte [] 520],
    [on 37 [] 253, on 35 [.saveHost, .markh, .savePath] 453,
      on 63 [.saveHost, .markh, .savePath] 456, on 47 [.saveHost, .markh] 513,
      on 58 [.saveHost] 521, on 64 [.saveUserinfo] 522, on 46 [] 544, onAny digit [] 558,
      onAny regNameByte [] 520],
    [on 37 [] 253, on 35 [.saveHost, .markh, .savePath] 453,
      on 63 [.saveHost, .markh, .savePath] 456, on 47 [.saveHost, .markh] 513,
      on 58 [.saveHost] 521, on 64 [.saveUserinfo] 522, on 46 [] 544, onAny digit [] 543,
      onAny regNameByte [] 520],
    [on 37 [] 253, on 35 [.saveHost, .markh, .savePath] 453,
      on 63 [.saveHost, .markh, .savePath] 456, on 47 [.saveHost, .markh] 513,
      on 58 [.saveHost] 521, on 64 [.saveUserinfo] 522, on 46 [] 544, on 53 [] 560,
      onAny digit [] 543, onAny regNameByte [] 520],
    -- 560
    [on 37 [] 253, on 35 [.saveHost, .markh, .savePath] 453,
      on 63 [.saveHost, .markh, .savePath] 456, on 47 [.saveHost, .markh] 513,
      on 58 [.saveHost] 521, on 64 [.saveUserinfo] 522, on 46 [] 544, onAny [(48, 53)] [] 543,
      onAny regNameByte [] 520]
  ]

def firstFinal : Nat := 451

def row (cs : Nat) : List (Arc Action) := table[cs]?.getD []

@[irreducible] def next (cs : Nat) (byte : UInt8) : Option (Edge Nat Action) :=
  follow (fun arc => ⟨arc.actions, arc.target, false⟩) (row cs) byte

/-! ## The end of the text -/

/-- What is done in a state in which the text ends. -/
def eofTable : List (List Action × List Nat) :=
  [
    ([.marku, .saveFragment], [453]),
    ([.saveFragment], [454]),
    ([.marku, .saveQuery], [456]),
    ([.saveQuery], [457]),
    ([.markh, .saveHost], [459, 469]),
    ([.saveHost], [460, 463, 464, 465, 466, 467, 470, 471, 472, 473, 474, 475, 476, 477, 478, 479,
      480, 481, 482, 483, 484, 485, 486, 487, 488, 490, 491, 492, 493, 494, 495, 496, 497, 498,
      499, 500, 501, 502, 503, 504, 505, 506, 507]),
    ([.markh, .savePort], [461, 468]),
    ([.savePort], [462, 489]),
    ([.markh, .saveHost, .savePath], [511, 522]),
    ([.saveHost, .markh, .savePath], [512, 516, 517, 518, 519, 520, 523, 524, 525, 526, 527, 528,
      529, 530, 531, 532, 533, 534, 535, 536, 537, 538, 539, 540, 541, 543, 544, 545, 546, 547,
      548, 549, 550, 551, 552, 553, 554, 555, 556, 557, 558, 559, 560]),
    ([.savePath], [513]),
    ([.markh, .savePort, .savePath], [514, 521]),
    ([.savePort, .markh, .savePath], [515, 542])
  ]

def eofActions (cs : Nat) : List Action :=
  match eofTable.find? fun entry => entry.2.contains cs with
  | some entry => entry.1
  | none => []

end Qslary.Uri

import Qslary.Log.Model

/-!
# Patterns

`LoggerFormatter::init` cuts a pattern into literal text and directives, and refuses the
patterns that leave an argument open or name a directive that does not exist.
-/

namespace Qslary.Log

open Qslary.Foundation

/-- A tuple of `init`: literal text is of kind 0, a directive 1, an argument left open 2. -/
structure Piece where
  text : Bytes
  arg : Bytes
  kind : Nat
  deriving DecidableEq, Repr

structure LoggerFormatter where
  mPartten : Bytes
  deriving DecidableEq, Repr

namespace LoggerFormatter

def isalpha (byte : UInt8) : Bool := 65 ≤ byte && byte ≤ 90 || 97 ≤ byte && byte ≤ 122

/-- What does not end the name of a directive; a closing brace does not. -/
def inName (byte : UInt8) : Bool := isalpha byte || byte = 125

/-- The loop over `j` behind a percent sign: the piece, and where the outer loop goes on. -/
def directive (rest : Bytes) : Piece × Bytes :=
  let format_str := rest.takeWhile inName
  match rest.dropWhile inName with
  | 123 :: inside =>
      match inside.dropWhile (· ≠ 125) with
      | [] => (⟨ascii "<<pattern error>>", format_str, 2⟩, [])
      | _ :: after => (⟨format_str, inside.takeWhile (· ≠ 125), 1⟩, after)
  | after => (⟨format_str, [], 1⟩, after)

def literal (nstr : Bytes) : List Piece := if nstr ≠ [] then [⟨nstr, [], 0⟩] else []

/-- The loop over `i`, with the literal text `nstr` that is not yet a piece. -/
def scan : Nat → Bytes → Bytes → List Piece
  | 0, nstr, _ => literal nstr
  | _ + 1, nstr, [] => literal nstr
  | fuel + 1, nstr, byte :: rest =>
      if byte ≠ 37 then scan fuel (nstr ++ [byte]) rest
      -- the second percent sign is looked at again
      else if rest.head? = some 37 then scan fuel (nstr ++ [37]) rest
      else
        let (piece, after) := directive rest
        if piece.kind = 1 then literal nstr ++ piece :: scan fuel [] after
        else piece :: scan fuel nstr after

/-- The pieces of a pattern; a turn of the loop takes one byte at least. -/
def pieces (f : LoggerFormatter) : List Piece := scan f.mPartten.length [] f.mPartten

/-- The keys of `s_format_items` -/
def formatItems : List String :=
  ["m", "p", "r", "c", "t", "n", "d", "f", "l", "T", "F", "N"]

/-- `m_error` after `init` -/
def isError (f : LoggerFormatter) : Bool :=
  f.pieces.any fun piece =>
    piece.kind = 2 || piece.kind ≠ 0 && !formatItems.any fun name => ascii name = piece.text

end LoggerFormatter

end Qslary.Log

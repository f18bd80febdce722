import Qslary.Uri.Table

/-!
# URIs

`URI::Create` runs the automaton over a text; its actions share one mark, from which the
parts are cut.  `dump` writes the parts behind one another.
-/

namespace Qslary.Uri

open Qslary.Foundation

structure URI where
  scheme : Bytes
  userinfo : Bytes
  host : Bytes
  path : Bytes
  query : Bytes
  fragment : Bytes
  /-- An `int32_t`. -/
  port : Int
  deriving DecidableEq, Repr

namespace URI

/-- `URI::URI` -/
def new : URI := ⟨[], [], [], [], [], [], 0⟩

/-! ## Parts -/

def isDefaultPort (u : URI) : Bool :=
  if u.port = 0 then true
  else if u.scheme = ascii "http" ∨ u.scheme = ascii "ws" then u.port = 80
  else if u.scheme = ascii "https" ∨ u.scheme = ascii "wss" then u.port = 443
  else false

def getPath (u : URI) : Bytes := if u.path = [] then ascii "/" else u.path

def GetPort (u : URI) : Int :=
  if u.port ≠ 0 then u.port
  else if u.scheme = ascii "http" ∨ u.scheme = ascii "ws" then 80
  else if u.scheme = ascii "https" ∨ u.scheme = ascii "wss" then 443
  else u.port

/-- `std::to_string` -/
def intText (n : Int) : Bytes := if n < 0 then 45 :: decimal n.natAbs else decimal n.natAbs

def dump (u : URI) : Bytes :=
  u.scheme ++ (ascii "://" ++ (u.userinfo ++ ((if u.userinfo = [] then [] else ascii "@") ++
    (u.host ++ ((if u.isDefaultPort then [] else ascii ":" ++ intText u.port) ++ (u.getPath ++
      ((if u.query = [] then [] else ascii "?") ++ (u.query ++
        ((if u.fragment = [] then [] else ascii "#") ++ u.fragment)))))))))

def toString (u : URI) : Bytes := u.dump

end URI

/-! ## Actions -/

/-- `atoi`; the value of a number that is no `int` is undefined. -/
def atoi (text : Bytes) : Option Int :=
  let text := text.dropWhile isspace
  let value : Int :=
    match text with
    | 45 :: digits => -digitsValue (digits.takeWhile isDigit)
    | 43 :: digits => digitsValue (digits.takeWhile isDigit)
    | digits => digitsValue (digits.takeWhile isDigit)
  if -2 ^ 31 ≤ value ∧ value < 2 ^ 31 then some value else none

/-- What the actions work on: `mark` is an offset into the text, or null. -/
structure Registers where
  mark : Option Nat
  uri : URI
  deriving DecidableEq, Repr

/-- `std::string(mark, fpc - mark)` -/
def slice (text : Bytes) (mark p : Nat) : Bytes := (text.drop mark).take (p - mark)

namespace Registers

/-- A null `mark` is no start of a string or of a number. -/
def exec (text : Bytes) (p : Nat) (r : Registers) : Action → Option Registers
  | .marku | .markh => some { r with mark := some p }
  | .saveScheme => do
      let mark ← r.mark
      some ⟨none, { r.uri with scheme := slice text mark p }⟩
  | .savePort =>
      if r.mark ≠ some p then do
        let mark ← r.mark
        let port ← atoi (text.drop mark)
        some ⟨none, { r.uri with port := port }⟩
      else some { r with mark := none }
  | .saveUserinfo =>
      match r.mark with
      | some mark => some ⟨none, { r.uri with userinfo := slice text mark p }⟩
      | none => some { r with mark := none }
  | .saveHost =>
      match r.mark with
      | some mark => some { r with uri := { r.uri with host := slice text mark p } }
      | none => some r
  | .savePath => do
      let mark ← r.mark
      some ⟨none, { r.uri with path := slice text mark p }⟩
  | .saveQuery => do
      let mark ← r.mark
      some ⟨none, { r.uri with query := slice text mark p }⟩
  | .saveFragment => do
      let mark ← r.mark
      some ⟨none, { r.uri with fragment := slice text mark p }⟩

end Registers

/-- An action of the scan; `none` once something undefined has been done. -/
def act (text : Bytes) (p : Nat) (r : Option Registers) (action : Action) : Option Registers :=
  r.bind fun r => r.exec text p action

/-- What `Create` does behind the scan: undefined, or null, or a URI. -/
def finish (uristr : Bytes) (scanned : Scanned Nat (Option Registers)) : Option (Option URI) :=
  match scanned.halt with
  | .ended cs => do
      let r ← (eofActions cs).foldl (act uristr uristr.length) scanned.state
      if firstFinal ≤ cs then some (some r.uri) else some none
  | _ => do
      let _ ← scanned.state
      some none

def Create (uristr : Bytes) : Option (Option URI) :=
  finish uristr (scan next (act uristr) 451 0 uristr (some ⟨none, .new⟩))

end Qslary.Uri

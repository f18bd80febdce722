import Mathlib.Logic.Function.Basic
import Qslary.Foundation.Text

/-!
# Configuration variables

`Config` keeps variables of any type under dotted names.  Loading a document flattens
it into nodes with their paths and hands each node's text to the variable of that name,
which converts it, tells its listeners, and stores it.
-/

namespace Qslary.Config

open Qslary.Foundation

/-! ## Documents -/

/-- `YAML::Node`, with the entries of a map in the order of its iterator. -/
inductive Node where
  | null
  | scalar (text : Bytes)
  | sequence (items : List Node)
  | map (entries : List (Node × Node))

namespace Node

/-- `Scalar()` is empty for anything but a scalar. -/
def Scalar : Node → Bytes
  | scalar text => text
  | _ => []

def IsScalar : Node → Bool
  | scalar _ => true
  | _ => false

end Node

/-- `prefix.empty() ? key : prefix + "." + key` -/
def join (path key : Bytes) : Bytes :=
  if path = [] then key else path ++ 46 :: key

/-- The alphabet of `listAllMember`. -/
def isMemberByte (byte : UInt8) : Bool :=
  97 ≤ byte && byte ≤ 122 || byte = 95 || byte = 46 || 48 ≤ byte && byte ≤ 57

mutual

/-- A path with another byte is logged and left out, with everything below it. -/
def listAllMember (path : Bytes) : Node → List (Bytes × Node)
  | .map entries =>
      if path.all isMemberByte then (path, .map entries) :: listEntries path entries else []
  | .sequence items => if path.all isMemberByte then [(path, .sequence items)] else []
  | .scalar text => if path.all isMemberByte then [(path, .scalar text)] else []
  | .null => if path.all isMemberByte then [(path, .null)] else []

def listEntries (path : Bytes) : List (Node × Node) → List (Bytes × Node)
  | [] => []
  | entry :: entries => listEntry path entry ++ listEntries path entries

def listEntry (path : Bytes) : Node × Node → List (Bytes × Node)
  | (key, value) => listAllMember (join path key.Scalar) value

end

/-! ## Variables -/

/-- A listener that throws does not return. -/
abbrev OnChangeCb (T : Type) := T → T → Bool

structure ConfigVar (T : Type) where
  mName : Bytes
  mVal : T
  mCbs : List (Nat × OnChangeCb T)

namespace ConfigVar

variable {T : Type} [DecidableEq T]

def new (name : Bytes) (default : T) : ConfigVar T := ⟨name, default, []⟩

/-- `none` if a listener throws; the store is not reached then. -/
def setValue (var : ConfigVar T) (v : T) : Option (ConfigVar T) :=
  if v = var.mVal then some var
  else if var.mCbs.all fun cb => cb.2 var.mVal v then some { var with mVal := v }
  else none

/-- `FromStr` converts, or throws; what is thrown there or by a listener is caught. -/
def formString (fromStr : Bytes → Option T) (var : ConfigVar T) (text : Bytes) :
    ConfigVar T × Bool :=
  match (fromStr text).bind var.setValue with
  | some stored => (stored, true)
  | none => (var, false)

end ConfigVar

/-- A variable of some type, with the conversion of that type. -/
structure ConfigBase where
  T : Type
  decEq : DecidableEq T
  fromStr : Bytes → Option T
  var : ConfigVar T

namespace ConfigBase

def formString (base : ConfigBase) (text : Bytes) : ConfigBase × Bool :=
  let _ := base.decEq
  let (var, done) := base.var.formString base.fromStr text
  ({ base with var := var }, done)

end ConfigBase

/-! ## The registry -/

abbrev ConfigVarMap := Bytes → Option ConfigBase

/-- The alphabet of `lookup`. -/
def isNameByte (byte : UInt8) : Bool :=
  97 ≤ byte && byte ≤ 122 || 65 ≤ byte && byte ≤ 90 || byte = 95 || byte = 46 ||
    48 ≤ byte && byte ≤ 57

/-- The registry after `lookup(name, default)`, which throws for a name it does not take. -/
def lookup (datas : ConfigVarMap) (name : Bytes) (default : ConfigBase) : Option ConfigVarMap :=
  if (datas name).isSome then some datas
  else if name.all isNameByte then some (Function.update datas name (some default))
  else none

/-- `tolower` in the C locale -/
def tolower (byte : UInt8) : UInt8 :=
  if 65 ≤ byte ∧ byte ≤ 90 then byte + 32 else byte

/-- What a variable is given to convert; `emit` is how a node is printed. -/
def nodeText (emit : Node → Bytes) (node : Node) : Bytes :=
  if node.IsScalar then node.Scalar else emit node

/-- The body of the loop of `loadFromYaml`. -/
def loadMember (emit : Node → Bytes) (datas : ConfigVarMap) (member : Bytes × Node) :
    ConfigVarMap :=
  if member.1 = [] then datas
  else
    let key := member.1.map tolower
    match datas key with
    | none => datas
    | some val => Function.update datas key (some (val.formString (nodeText emit member.2)).1)

def loadFromYaml (emit : Node → Bytes) (datas : ConfigVarMap) (root : Node) : ConfigVarMap :=
  (listAllMember [] root).foldl (loadMember emit) datas

end Qslary.Config

import Qslary.Config.Model
import Qslary.Foundation.RankedMap

/-!
# Log definitions

`LogDefine` is the configured form of a logger.  It is printed as a YAML map and read
back by two conversions of `base/Logger.cc`; sets of definitions are ordered by the name
alone and printed as sequences.
-/

namespace Qslary.Log

open Qslary.Foundation
open Qslary.Config (Node)

inductive LogLevel where
  | UNKONW | DEBUG | INFO | WARRING | ERROR | FATAL
  deriving DecidableEq, Repr

namespace LogLevel

def value : LogLevel → Nat
  | UNKONW => 0
  | DEBUG => 1
  | INFO => 2
  | WARRING => 3
  | ERROR => 4
  | FATAL => 5

def ToString : LogLevel → Bytes
  | UNKONW => ascii "UNKNOW"
  | DEBUG => ascii "DEBUG"
  | INFO => ascii "INFO"
  | WARRING => ascii "WARRING"
  | ERROR => ascii "ERROR"
  | FATAL => ascii "FATAL"

/-- The comparisons of `FromString`, in their order. -/
def texts : List (LogLevel × String) :=
  [ (DEBUG, "debug"), (INFO, "info"), (WARRING, "warring"), (ERROR, "error"), (FATAL, "fatal"),
    (DEBUG, "DEBUG"), (INFO, "INFO"), (WARRING, "WARRING"), (ERROR, "ERROR"), (FATAL, "FATAL") ]

def FromString (str : Bytes) : LogLevel :=
  match texts.find? fun entry => ascii entry.2 = str with
  | some entry => entry.1
  | none => UNKONW

end LogLevel

structure LogAppenderDefine where
  type : Int
  level : LogLevel
  formatter : Bytes
  file : Bytes
  deriving DecidableEq, Repr

structure LogDefine where
  name : Bytes
  level : LogLevel
  formatter : Bytes
  appenders : List LogAppenderDefine
  deriving DecidableEq, Repr

namespace LogDefine

/-- `operator<` compares names. -/
def rank (d : LogDefine) : List Nat := d.name.map UInt8.toNat

end LogDefine

/-- `std::set<LogDefine>` -/
abbrev LogDefineSet := RankedMap LogDefine.rank Unit

namespace LogDefineSet

def toList (s : LogDefineSet) : List LogDefine := s.entries.map Prod.fst

/-- The definition of the same name. -/
def find (s : LogDefineSet) (d : LogDefine) : Option LogDefine :=
  s.toList.find? fun other => other.rank = d.rank

end LogDefineSet

/-! ## Nodes -/

/-- What is used of yaml-cpp: `ss << node`, `YAML::Load` and `as<std::string>`, which may throw. -/
structure Yaml where
  emit : Node → Bytes
  load : Bytes → Option Node
  asString : Node → Option Bytes

/-- `node[key]` is undefined without such a key; on a scalar it throws. -/
def field (node : Node) (key : String) : Option (Option Node) :=
  match node with
  | .map entries =>
      some ((entries.find? fun entry => entry.1.Scalar = ascii key).map Prod.snd)
  | .scalar _ => none
  | _ => some none

def size : Node → Nat
  | .map entries => entries.length
  | .sequence items => items.length
  | _ => 0

/-- `node[x]`; in a map that is a key. -/
def item (node : Node) (x : Nat) : Option Node :=
  match node with
  | .sequence items => items[x]?
  | .map entries =>
      (entries.find? fun entry => entry.1.Scalar = decimal x).map Prod.snd
  | _ => none

def entry (key : String) (value : Bytes) : Node × Node := (.scalar (ascii key), .scalar value)

/-- A node that entries have been assigned to. -/
def mapOf (entries : List (Node × Node)) : Node := if entries.isEmpty then .null else .map entries

def sequenceOf (items : List Node) : Node := if items.isEmpty then .null else .sequence items

section

variable (yaml : Yaml)

/-! ## Reading -/

/-- `node[key].as<std::string>()` if it is defined, else a default. -/
def text (node : Node) (key : String) (default : Bytes) : Option Bytes := do
  match ← field node key with
  | some value => yaml.asString value
  | none => some default

/-- An appender that is not described well is left out. -/
def readAppender (a : Node) : Option (Option LogAppenderDefine) := do
  match ← field a "type" with
  | none => some none
  | some typeNode =>
      let type ← yaml.asString typeNode
      if type = ascii "FileLogAppender" then
        match ← field a "file" with
        | none => some none
        | some fileNode =>
            let file ← yaml.asString fileNode
            let formatter ← text yaml a "formatter" []
            some (some ⟨2, .UNKONW, formatter, file⟩)
      else if type = ascii "StdoutLogAppender" then
        let formatter ← text yaml a "formatter" []
        some (some ⟨1, .UNKONW, formatter, []⟩)
      else some none

/-- An undefined node has no fields. -/
def readItem (a : Option Node) : Option (Option LogAppenderDefine) :=
  match a with
  | some a => readAppender yaml a
  | none => some none

def readAppenders (node : Node) : Option (List LogAppenderDefine) := do
  match ← field node "appenders" with
  | none => some []
  | some appenders =>
      let read ← (List.range (size appenders)).mapM fun x => readItem yaml (item appenders x)
      some (read.filterMap id)

/-- `LexicalCast<std::string, LogDefine>` after `YAML::Load`; `none` if it throws. -/
def readDefine (n : Node) : Option LogDefine := do
  match ← field n "name" with
  | none => none
  | some nameNode =>
      let name ← yaml.asString nameNode
      let level ← text yaml n "level" []
      let formatter ← text yaml n "formatter" []
      let appenders ← readAppenders yaml n
      some ⟨name, LogLevel.FromString level, formatter, appenders⟩

def fromString (v : Bytes) : Option LogDefine := (yaml.load v).bind (readDefine yaml)

/-! ## Writing -/

def levelEntry (level : LogLevel) : List (Node × Node) :=
  if level ≠ .UNKONW then [entry "level" level.ToString] else []

def formatterEntry (formatter : Bytes) : List (Node × Node) :=
  if formatter ≠ [] then [entry "formatter" formatter] else []

def writeAppender (a : LogAppenderDefine) : Node :=
  mapOf <|
    (if a.type = 2 then
      [entry "type" (ascii "FileLogAppender"), entry "file" a.file]
    else if a.type = 1 then [entry "type" (ascii "StdoutLogAppender")]
    else []) ++
    levelEntry a.level ++ formatterEntry a.formatter

def writeDefine (i : LogDefine) : Node :=
  mapOf <|
    entry "name" i.name :: levelEntry i.level ++ formatterEntry i.formatter ++
    if i.appenders.isEmpty then []
    else [(.scalar (ascii "appenders"), .sequence (i.appenders.map writeAppender))]

/-- `LexicalCast<LogDefine, std::string>` -/
def toString (i : LogDefine) : Bytes := yaml.emit (writeDefine i)

/-! ## Sets -/

/-- `LexicalCast<std::set<T>, std::string>` -/
def setToString {T : Type} (cast : T → Bytes) (v : List T) : Option Bytes := do
  let items ← v.mapM fun i => yaml.load (cast i)
  some (yaml.emit (sequenceOf items))

/-- `LexicalCast<std::string, std::set<T>>` -/
def setFromString {T R : Type} [LinearOrder R] (rank : T → R) (cast : Bytes → Option T)
    (v : Bytes) : Option (RankedMap rank Unit) := do
  let node ← yaml.load v
  (List.range (size node)).foldlM
    (fun set i => do
      let x ← cast (yaml.emit ((item node i).getD .null))
      some (set.insert x ()))
    .empty

def setText (s : LogDefineSet) : Option Bytes := setToString yaml (toString yaml) s.toList

def setOfText (v : Bytes) : Option LogDefineSet :=
  setFromString yaml LogDefine.rank (fromString yaml) v

end

end Qslary.Log

import Qslary.Config.Registering
import Qslary.Foundation.ScopedLocks
import Qslary.Log.Following
import Qslary.Log.Scanning

/-!
# Locks of loggers and variables

The registry of variables, every variable, the manager of loggers, every logger and every
appender have a lock.  A call logs, tells listeners and asks for names inside of its locks, and
so takes others; these are the calls, with the scopes of their guards.  A null pointer that a
call goes through is a fault, which ends the process.
-/

namespace Qslary.Locks

open Qslary.Foundation Qslary.Foundation.ScopedLocks
open Qslary.Config (Node Registry OnChangeCb isMemberByte isNameByte join nodeText listAllMember
  tolower)
open Qslary.Log (LogLevel LogEvent LoggerFormatter Logs Output Yaml)

inductive Lock where
  | registry
  | configVar (ptr : Nat)
  | manager
  | logger (name : Bytes)
  | appender (ptr : Nat)
  deriving DecidableEq

/-- What the threads share; `names` are the keys of `m_loggers`, and `cout` is what has been
written to it. -/
structure Shared (ι α : Type) where
  logs : Logs
  names : RankedMap (List.map UInt8.toNat) Unit
  lastTime_ : Nat → Nat
  m_filestream : Nat → Bytes
  cout : Bytes
  now : Nat
  datas : Registry fun _ : ι => α
  fun_id : ι → Nat

/-- A null pointer: the formatter of an appender, or what the listener of the logs has left null. -/
inductive Fault where
  | formatter (p : Nat)
  | logger
  | ap
  deriving DecidableEq

/-- What a call returns, or the text of what it throws. -/
inductive Reply (α : Type) where
  | none
  | flag (b : Bool)
  | text (t : Bytes)
  | ptr (p : Option Nat)
  | formatter (f : Option LoggerFormatter)
  | value (v : α)

namespace Reply

variable {α : Type}

instance : Inhabited (Reply α) := ⟨.none⟩

def toText : Reply α → Bytes
  | .text t => t
  | _ => []

end Reply

abbrev Code (ι α : Type) := Prog (Shared ι α) Lock (Reply α) Fault

/-- What the calls rest on: the conversions of each type, the event that a statement makes of its
text, and what a listener does and throws. -/
structure Outside (ι α : Type) where
  FromStr : ι → Bytes → Except Bytes α
  ToStr : ι → α → Except Bytes Bytes
  typeName : ι → Bytes
  demangled : ι → Bytes
  event : Bytes → LogLevel → Bytes → LogEvent
  strftime : Bytes → UInt64 → Bytes
  yaml : Yaml
  listener : ι → Nat → α → α → Code ι α
  what : Nat → Bytes

def root : Bytes := ascii "root"

section

variable {ι α : Type}

namespace Shared

def onLogs (d : Shared ι α) (f : Logs → Logs) : Shared ι α := { d with logs := f d.logs }

/-- Writes a variable. -/
def onVariable (d : Shared ι α) (ptr : Nat)
    (f : Config.ConfigVar α → Config.ConfigVar α) : Shared ι α :=
  { d with datas := d.datas.modify ptr fun base => { base with var := f base.var } }

/-- After `LogManger::LogManger`, and before anything is looked up. -/
def start : Shared ι α where
  logs := .start
  names := RankedMap.empty.insert root ()
  lastTime_ _ := 0
  m_filestream _ := []
  cout := []
  now := 0
  datas := .empty
  fun_id _ := 0

def levelOf (d : Shared ι α) (name : Bytes) : Nat := d.logs.levelOf name

end Shared

/-! ## Appenders -/

def ret (f : Shared ι α → Reply α) : Code ι α := .read fun d => .done (f d)

def write (f : Shared ι α → Shared ι α) : Code ι α := .act f fun _ => .done .none

/-- A pointer that is null whatever there is. -/
def null (f : Fault) : Code ι α := .check (fun _ => some f) (.done .none)

/-- A function that is under a guard from its first line to its end. -/
def guarded (mode : Mode) (k : Lock) (body : Code ι α) : Code ι α := .scope mode k body .done

variable (out : Outside ι α)

namespace LoggerAppender

def setFormatter (p : Nat) (val : Option LoggerFormatter) : Code ι α :=
  guarded .exclusive (.appender p) (write (·.onLogs (·.setAppenderFormatter p val)))

def getForamter (p : Nat) : Code ι α :=
  guarded .exclusive (.appender p) (ret fun d => .formatter (d.logs.appenders p).mFormater)

def setLevel (p : Nat) (level : LogLevel) : Code ι α :=
  write (·.onLogs (·.setAppenderLevel p level))

/-- Goes through `m_formater`. -/
def withFormater (p : Nat) (code : Code ι α) : Code ι α :=
  .check
    (fun d => if (d.logs.appenders p).mFormater.isNone then some (.formatter p) else none) code

/-- `m_formater->format(logger, level, event)` -/
def format (d : Shared ι α) (p : Nat) (level : LogLevel) (event : LogEvent) : Bytes :=
  (d.logs.appenders p).mFormater.elim [] fun formatter =>
    formatter.format out.strftime level event

end LoggerAppender

namespace StdoutLogAppender

def log (p : Nat) (level : LogLevel) (event : LogEvent) : Code ι α :=
  .read fun d =>
    if (d.logs.appenders p).mLevel.value ≤ level.value then
      guarded .exclusive (.appender p) <| LoggerAppender.withFormater p <|
        write fun d => { d with cout := d.cout ++ LoggerAppender.format out d p level event }
    else .done .none

end StdoutLogAppender

namespace FileLogAppender

def reopen (p : Nat) : Code ι α :=
  guarded .exclusive (.appender p) <|
    write fun d => { d with m_filestream := Function.update d.m_filestream p [] }

/-- The second is looked at outside of the guard. -/
def log (p : Nat) (level : LogLevel) (event : LogEvent) : Code ι α :=
  .read fun d =>
    if (d.logs.appenders p).mLevel.value ≤ level.value then
      .read fun d =>
        let now := d.now
        .read fun d =>
          let reopened : Code ι α :=
            if now ≠ d.lastTime_ p then
              (reopen p).andThen fun _ =>
                write fun d => { d with lastTime_ := Function.update d.lastTime_ p now }
            else .done .none
          reopened.andThen fun _ =>
            guarded .exclusive (.appender p) <| LoggerAppender.withFormater p <|
              write fun d => { d with
                m_filestream := Function.update d.m_filestream p
                  (d.m_filestream p ++ LoggerAppender.format out d p level event) }
    else .done .none

end FileLogAppender

namespace LoggerAppender

def log (p : Nat) (level : LogLevel) (event : LogEvent) : Code ι α :=
  .read fun d =>
    match (d.logs.appenders p).output with
    | .stdout => StdoutLogAppender.log out p level event
    | .file _ => FileLogAppender.log out p level event

def typeEntries : Output → List (Node × Node)
  | .stdout => [Log.entry "type" (ascii "StdoutLogAppender")]
  | .file name => [Log.entry "type" (ascii "FileLogAppender"), Log.entry "file" name]

def toYamlString (p : Nat) : Code ι α :=
  guarded .exclusive (.appender p) <| ret fun d =>
    let a := d.logs.appenders p
    .text <| out.yaml.emit <| Log.mapOf <|
      typeEntries a.output ++ Log.levelEntry a.mLevel ++
        if a.mHasFormatter then
          a.mFormater.elim [] fun formatter => [Log.entry "formatter" formatter.mPartten]
        else []

end LoggerAppender

/-- `new StdoutLogAppender` or `new FileLogAppender(name)`, which opens its file. -/
def newAppender (output : Output) : Code ι α :=
  .act (fun d => { d.onLogs (·.newAppender output) with
      m_filestream := Function.update d.m_filestream d.logs.size [] }) fun d =>
    let p := d.logs.size
    match output with
    | .stdout => .done (.ptr (some p))
    | .file _ => (FileLogAppender.reopen p).andThen fun _ => .done (.ptr (some p))

/-! ## Loggers -/

namespace Logger

/-- `log`, if the root is asked in another way where there are no appenders. -/
def logOr (fallback : Code ι α) (name : Bytes) (level : LogLevel) (event : LogEvent) : Code ι α :=
  .read fun d =>
    if d.levelOf name ≤ level.value then
      guarded .exclusive (.logger name) <| .read fun d =>
        if d.logs.pointers name ≠ [] then
          .each (fun it => LoggerAppender.log out it level event) (d.logs.pointers name)
            fun _ => .done .none
        else fallback
    else .done .none

/-- Every logger but the root has the root for its `m_root`. -/
def log (name : Bytes) (level : LogLevel) (event : LogEvent) : Code ι α :=
  let m_root : Code ι α :=
    if name = root then .done .none else logOr out (.done .none) root level event
  logOr out m_root name level event

/-- A statement that logs. -/
def statement (name : Bytes) (level : LogLevel) (text : Bytes) : Code ι α :=
  .read fun d =>
    if d.levelOf name ≤ level.value then log out name level (out.event name level text)
    else .done .none

def setLevel (name : Bytes) (val : Nat) : Code ι α := write (·.onLogs (·.setLevel name val))

def setFormatter (name : Bytes) (val : Option LoggerFormatter) : Code ι α :=
  guarded .exclusive (.logger name) <|
    .act (·.onLogs (·.modify name fun logger => { logger with mFormatter := val })) fun d =>
      .each
        (fun i => guarded .exclusive (.appender i) <|
          write (·.onLogs (·.modifyAppender i (Logs.followFormatter val))))
        (d.logs.pointers name) fun _ => .done .none

/-- `setFormatter(const std::string &)` -/
def setFormatterText (name : Bytes) (val : Bytes) : Code ι α :=
  if (⟨val⟩ : LoggerFormatter).isError then .done .none else setFormatter name (some ⟨val⟩)

def getFormatter (name : Bytes) : Code ι α :=
  guarded .exclusive (.logger name) (ret fun d => .formatter (d.logs.formatterOf name))

def addAppender (name : Bytes) (appender : Nat) : Code ι α :=
  guarded .exclusive (.logger name) <|
    (LoggerAppender.getForamter appender).andThen fun formatter =>
      let given : Code ι α :=
        match formatter with
        | .formatter (some _) => .done .none
        | _ => guarded .exclusive (.appender appender) <| write fun d =>
            d.onLogs (·.modifyAppender appender fun a =>
              { a with mFormater := d.logs.formatterOf name })
      given.andThen fun _ =>
        write (·.onLogs (·.modify name fun logger =>
          { logger with mAppenders := logger.mAppenders ++ [appender] }))

def delAppender (name : Bytes) (appender : Nat) : Code ι α :=
  guarded .exclusive (.logger name) (write (·.onLogs (·.delAppender name appender)))

def clearAppender (name : Bytes) : Code ι α :=
  guarded .exclusive (.logger name) (write (·.onLogs (·.clearAppender name)))

/-- `YAML::Load`, which may throw. -/
def load (code : Code ι α) : Code ι α :=
  code.andThen fun r =>
    match out.yaml.load r.toText with
    | some _ => .done r
    | none => .throw .none

def nodes (rs : List (Reply α)) : List Node := rs.filterMap fun r => out.yaml.load r.toText

def levelText (level : Nat) : Bytes :=
  match [LogLevel.DEBUG, .INFO, .WARRING, .ERROR, .FATAL].find? fun l => l.value = level with
  | some level => level.ToString
  | none => ascii "UNKNOW"

def toYamlString (name : Bytes) : Code ι α :=
  guarded .exclusive (.logger name) <| .read fun d =>
    let entries :=
      Log.entry "name" name ::
        ((if d.levelOf name ≠ 0 then [Log.entry "level" (levelText (d.levelOf name))] else []) ++
          (d.logs.formatterOf name).elim [] fun formatter =>
            [Log.entry "formatter" formatter.mPartten])
    .each (fun i => load out (LoggerAppender.toYamlString out i)) (d.logs.pointers name) fun rs =>
      .done <| .text <| out.yaml.emit <| .map <|
        entries ++
          if rs = [] then [] else [(.scalar (ascii "appenders"), .sequence (nodes out rs))]

end Logger

namespace LogManger

def getLogger (name : Bytes) : Code ι α :=
  guarded .exclusive .manager <| write fun d =>
    { d.onLogs (·.getLogger name) with names := d.names.insert name () }

def toYamlString : Code ι α :=
  guarded .exclusive .manager <| .read fun d =>
    .each (fun i => Logger.load out (Logger.toYamlString out i)) (d.names.entries.map Prod.fst)
      fun rs => .done (.text (out.yaml.emit (Log.sequenceOf (Logger.nodes out rs))))

end LogManger

/-! ## Variables -/

namespace ConfigVar

def getValue (ptr : Nat) : Code ι α :=
  guarded .shared (.configVar ptr) <| ret fun d =>
    d.datas.cells[ptr]?.elim .none fun base => .value base.var.mVal

/-- `i.second(m_val, v)` -/
def tell (T : ι) (v m_val : α) (i : Nat × OnChangeCb α) : Code ι α :=
  (out.listener T i.1 m_val v).andThen fun _ =>
    if i.2 m_val v then .done .none else .throw (.text (out.what i.1))

/-- The inner guard is left before the outer one; the flag says that the function returns there. -/
def setValue [DecidableEq α] (ptr : Nat) (v : α) : Code ι α :=
  .scope .shared (.configVar ptr)
    (.read fun d =>
      match d.datas.cells[ptr]? with
      | none => .done (.flag true)
      | some base =>
          if v = base.var.mVal then .done (.flag true)
          else .each (tell out base.T v base.var.mVal) base.var.mCbs fun _ => .done (.flag false))
    fun returns =>
      match returns with
      | .flag true => .done .none
      | _ => guarded .exclusive (.configVar ptr) <|
          write (·.onVariable ptr fun var => { var with mVal := v })

/-- What is thrown is caught, and logged when the guard has been left. -/
def toString (ptr : Nat) : Code ι α :=
  .read fun d =>
    match d.datas.cells[ptr]? with
    | none => .done (.text [])
    | some base =>
        .attempt
          (guarded .shared (.configVar ptr) <| .read fun d =>
            match d.datas.cells[ptr]? with
            | none => .done (.text [])
            | some base =>
                match out.ToStr base.T base.var.mVal with
                | .ok text => .done (.text text)
                | .error what => .throw (.text what))
          (fun e => (Logger.statement out root .ERROR
              (ascii "Config::toString exception" ++ e.toText ++ ascii "convert: " ++
                out.demangled base.T ++ ascii " to std::string ")).andThen
            fun _ => .done (.text []))
          .done

def formString [DecidableEq α] (ptr : Nat) (val : Bytes) : Code ι α :=
  .read fun d =>
    match d.datas.cells[ptr]? with
    | none => .done .none
    | some base =>
        .attempt
          (match out.FromStr base.T val with
          | .ok v => (setValue out ptr v).andThen fun _ => .done (.flag true)
          | .error what => .throw (.text what))
          (fun e => (Logger.statement out root .ERROR
              (ascii "Config::fromString exception " ++ e.toText ++
                ascii " convert string to " ++ out.demangled base.T)).andThen
            fun _ => .done (.flag false))
          .done

/-- `fun_id` is one for all variables of a type. -/
def addListener [DecidableEq ι] (T : ι) (ptr : Nat) (cb : OnChangeCb α) : Code ι α :=
  guarded .exclusive (.configVar ptr) <|
    .act (fun d =>
      { d.onVariable ptr fun var => { var with mCbs := var.mCbs ++ [(d.fun_id T + 1, cb)] } with
        fun_id := Function.update d.fun_id T (d.fun_id T + 1) })
      fun d => .done (.ptr (some (d.fun_id T + 1)))

def delListener (ptr : Nat) (key : Nat) : Code ι α :=
  guarded .exclusive (.configVar ptr) <|
    write (·.onVariable ptr fun var =>
      { var with mCbs := var.mCbs.filter fun entry => entry.1 ≠ key })

def clearLister (ptr : Nat) : Code ι α :=
  guarded .exclusive (.configVar ptr) <|
    write (·.onVariable ptr fun var => { var with mCbs := [] })

def getListener (ptr : Nat) (key : Nat) : Code ι α :=
  guarded .shared (.configVar ptr) <| ret fun d =>
    .ptr <| d.datas.cells[ptr]?.bind fun base =>
      (base.var.mCbs.find? fun entry => entry.1 = key).map Prod.fst

end ConfigVar

namespace Config

mutual

/-- What `listAllMember` leaves out with an error. -/
def invalidMembers (path : Bytes) : Node → List (Bytes × Node)
  | .map entries =>
      if path.all isMemberByte then invalidEntries path entries else [(path, .map entries)]
  | .sequence items => if path.all isMemberByte then [] else [(path, .sequence items)]
  | .scalar text => if path.all isMemberByte then [] else [(path, .scalar text)]
  | .null => if path.all isMemberByte then [] else [(path, .null)]

def invalidEntries (path : Bytes) : List (Node × Node) → List (Bytes × Node)
  | [] => []
  | entry :: entries => invalidEntry path entry ++ invalidEntries path entries

def invalidEntry (path : Bytes) : Node × Node → List (Bytes × Node)
  | (key, value) => invalidMembers (join path key.Scalar) value

end

/-- `lookup<T>(name, default_value, description)` -/
def lookup [DecidableEq ι] (T : ι) (name : Bytes) (default : α) (description : Bytes) :
    Code ι α :=
  guarded .exclusive .registry <| .read fun d =>
    match d.datas.index name with
    | some it =>
        match d.datas.dynamicPointerCast T it with
        | some tmp =>
            (Logger.statement out root .INFO
              (ascii "Lookup name = " ++ name ++ ascii " is exists")).andThen
                fun _ => .done (.ptr (some tmp))
        | none => .read fun d =>
            -- the text is put together only if the statement is to log
            if d.levelOf root ≤ LogLevel.ERROR.value then
              (ConfigVar.toString out it).andThen fun value =>
                (Logger.log out root .ERROR (out.event root .ERROR
                  (ascii "Lookup name = " ++ name ++ ascii " is exists but type is not " ++
                    out.typeName T ++ ascii " real type is " ++
                    (d.datas.cells[it]?.elim [] fun base => out.typeName base.T) ++
                    ascii " value is " ++ value.toText))).andThen fun _ => .done (.ptr none)
            else .done (.ptr none)
    | none =>
        if name.all isNameByte then
          .act (fun d => { d with
              datas := d.datas.add name ⟨T, Config.ConfigVar.new name default, description⟩ })
            fun d => .done (.ptr (some d.datas.cells.length))
        else
          (Logger.statement out root .ERROR (ascii "Lookup name is invalid" ++ name)).andThen
            fun _ => .throw (.text name)

/-- `lookup<T>(name)` -/
def lookupTyped [DecidableEq ι] (T : ι) (name : Bytes) : Code ι α :=
  guarded .shared .registry <| ret fun d =>
    .ptr ((d.datas.index name).bind (d.datas.dynamicPointerCast T))

def LookUpBase (name : Bytes) : Code ι α :=
  guarded .shared .registry <| ret fun d => .ptr (d.datas.index name)

/-- The body of the loop of `loadFromYaml`. -/
def loadMember [DecidableEq α] (member : Bytes × Node) : Code ι α :=
  if member.1 = [] then .done .none
  else
    (LookUpBase (member.1.map tolower)).andThen fun val =>
      match val with
      | .ptr (some ptr) => ConfigVar.formString out ptr (nodeText out.yaml.emit member.2)
      | _ => .done .none

/-- The error of `listAllMember`. -/
def logInvalid (member : Bytes × Node) : Code ι α :=
  Logger.statement out root .ERROR
    (ascii " config invalid name " ++ member.1 ++ ascii " : " ++ out.yaml.emit member.2)

def loadFromYaml [DecidableEq α] (node : Node) : Code ι α :=
  .each (logInvalid out) (invalidMembers [] node) fun _ =>
    .each (loadMember out) (listAllMember [] node) fun _ => .done .none

end Config

/-! ## The listener of the logs -/

def inOrder (codes : List (Code ι α)) : Code ι α := .each id codes fun _ => .done .none

namespace LogIniter

/-- The body of the loop over `i.appenders`; `ap` stays null for another type. -/
def applyAppender (name : Bytes) (a : Log.LogAppenderDefine) : Code ι α :=
  match Logs.outputOf a with
  | none => null .ap
  | some output => (newAppender output).andThen fun ap =>
      match ap with
      | .ptr (some p) =>
          inOrder [LoggerAppender.setLevel p a.level,
            if Logs.isFormatter a.formatter then
              LoggerAppender.setFormatter p (some ⟨a.formatter⟩)
            else .done .none,
            Logger.addAppender name p]
      | _ => .done .none

def configure (i : Log.LogDefine) : Code ι α :=
  inOrder <|
    [LogManger.getLogger i.name, Logger.setLevel i.name i.level.value,
      if i.formatter ≠ [] then Logger.setFormatterText i.name i.formatter else .done .none,
      Logger.clearAppender i.name] ++ i.appenders.map (applyAppender i.name)

/-- The body of the loop over `new_value`; `logger` stays null for what has not changed. -/
def applyDefine (old : Log.LogDefineSet) (i : Log.LogDefine) : Code ι α :=
  if old.find i = some i then null .logger else configure i

/-- The body of the loop over `old_value`. -/
def removeDefine (new : Log.LogDefineSet) (i : Log.LogDefine) : Code ι α :=
  if (new.find i).isNone then
    inOrder [LogManger.getLogger i.name, Logger.setLevel i.name 100, Logger.clearAppender i.name]
  else .done .none

def listener (old new : Log.LogDefineSet) : Code ι α :=
  inOrder <|
    Logger.statement out root .INFO (ascii " on_logger_config change") ::
      new.toList.map (applyDefine old) ++ old.toList.map (removeDefine new)

end LogIniter

/-! ## Calls -/

/-- What a thread can call; time passes between the calls and in them. -/
inductive Call (ι α : Type) where
  | tick
  | statement (name : Bytes) (level : LogLevel) (text : Bytes)
  | log (name : Bytes) (level : LogLevel) (event : LogEvent)
  | setLevel (name : Bytes) (val : Nat)
  | setFormatter (name : Bytes) (val : Option LoggerFormatter)
  | setFormatterText (name : Bytes) (val : Bytes)
  | getFormatter (name : Bytes)
  | addAppender (name : Bytes) (appender : Nat)
  | delAppender (name : Bytes) (appender : Nat)
  | clearAppender (name : Bytes)
  | loggerToYamlString (name : Bytes)
  | newAppender (output : Output)
  | setAppenderLevel (p : Nat) (level : LogLevel)
  | setAppenderFormatter (p : Nat) (val : Option LoggerFormatter)
  | getForamter (p : Nat)
  | reopen (p : Nat)
  | appenderToYamlString (p : Nat)
  | getLogger (name : Bytes)
  | toYamlString
  | getValue (ptr : Nat)
  | setValue (ptr : Nat) (v : α)
  | toString (ptr : Nat)
  | formString (ptr : Nat) (val : Bytes)
  | addListener (T : ι) (ptr : Nat) (cb : OnChangeCb α)
  | delListener (ptr : Nat) (key : Nat)
  | clearLister (ptr : Nat)
  | getListener (ptr : Nat) (key : Nat)
  | lookup (T : ι) (name : Bytes) (default : α) (description : Bytes)
  | lookupTyped (T : ι) (name : Bytes)
  | LookUpBase (name : Bytes)
  | loadFromYaml (node : Node)

def Call.code [DecidableEq ι] [DecidableEq α] : Call ι α → Code ι α
  | .tick => write fun d => { d with now := d.now + 1 }
  | .statement name level text => Logger.statement out name level text
  | .log name level event => Logger.log out name level event
  | .setLevel name val => Logger.setLevel name val
  | .setFormatter name val => Logger.setFormatter name val
  | .setFormatterText name val => Logger.setFormatterText name val
  | .getFormatter name => Logger.getFormatter name
  | .addAppender name appender => Logger.addAppender name appender
  | .delAppender name appender => Logger.delAppender name appender
  | .clearAppender name => Logger.clearAppender name
  | .loggerToYamlString name => Logger.toYamlString out name
  | .newAppender output => Locks.newAppender output
  | .setAppenderLevel p level => LoggerAppender.setLevel p level
  | .setAppenderFormatter p val => LoggerAppender.setFormatter p val
  | .getForamter p => LoggerAppender.getForamter p
  | .reopen p => FileLogAppender.reopen p
  | .appenderToYamlString p => LoggerAppender.toYamlString out p
  | .getLogger name => LogManger.getLogger name
  | .toYamlString => LogManger.toYamlString out
  | .getValue ptr => ConfigVar.getValue ptr
  | .setValue ptr v => ConfigVar.setValue out ptr v
  | .toString ptr => ConfigVar.toString out ptr
  | .formString ptr val => ConfigVar.formString out ptr val
  | .addListener T ptr cb => ConfigVar.addListener T ptr cb
  | .delListener ptr key => ConfigVar.delListener ptr key
  | .clearLister ptr => ConfigVar.clearLister ptr
  | .getListener ptr key => ConfigVar.getListener ptr key
  | .lookup T name default description => Config.lookup out T name default description
  | .lookupTyped T name => Config.lookupTyped T name
  | .LookUpBase name => Config.LookUpBase name
  | .loadFromYaml node => Config.loadFromYaml out node

end

end Qslary.Locks

import Qslary.Log.Pattern
import Mathlib.Logic.Function.Basic

/-!
# Loggers and appenders

Loggers hold appenders through pointers, so that two loggers may hold the same one.  An
appender without a formatter of its own is given the formatter of its logger.  Logging through
an appender that has none goes through a null pointer.
-/

namespace Qslary.Log

open Qslary.Foundation

inductive Output where
  | stdout
  | file (name : Bytes)
  deriving DecidableEq, Repr

structure LoggerAppender where
  output : Output
  mFormater : Option LoggerFormatter
  mHasFormatter : Bool
  mLevel : LogLevel
  deriving DecidableEq, Repr

structure Logger where
  mLevel : Nat
  mAppenders : List Nat
  mFormatter : Option LoggerFormatter
  deriving DecidableEq, Repr

/-- A new appender of either class. -/
def LoggerAppender.new (output : Output) : LoggerAppender := ⟨output, none, false, .DEBUG⟩

/-- The pattern of a new logger. -/
def defaultPattern : Bytes :=
  ascii "%d\x7b%Y-%m-%d %H:%M:%S\x7d%T%t%T%N%T%F%T[%p]%T[%c]%T%f:%l%T%m%n"

def Logger.new : Logger := ⟨LogLevel.DEBUG.value, [], some ⟨defaultPattern⟩⟩

/-- The loggers by name, and the appenders by address: below `size` stand those there are. -/
structure Logs where
  mLoggers : Bytes → Option Logger
  appenders : Nat → LoggerAppender
  size : Nat

namespace Logs

/-- Loggers point to appenders that exist. -/
def Valid (s : Logs) : Prop :=
  ∀ name logger, s.mLoggers name = some logger → ∀ p ∈ logger.mAppenders, p < s.size

/-- Writes a field of a logger. -/
def modify (s : Logs) (name : Bytes) (f : Logger → Logger) : Logs :=
  { s with mLoggers := Function.update s.mLoggers name ((s.mLoggers name).map f) }

/-- Writes a field of an appender. -/
def modifyAppender (s : Logs) (p : Nat) (f : LoggerAppender → LoggerAppender) : Logs :=
  { s with appenders := Function.update s.appenders p (f (s.appenders p)) }

def pointers (s : Logs) (name : Bytes) : List Nat :=
  (s.mLoggers name).elim [] Logger.mAppenders

def formatterOf (s : Logs) (name : Bytes) : Option LoggerFormatter :=
  (s.mLoggers name).bind Logger.mFormatter

/-! ## The manager -/

/-- The state after `getLogger(name)`. -/
def getLogger (s : Logs) (name : Bytes) : Logs :=
  if (s.mLoggers name).isSome then s
  else { s with mLoggers := Function.update s.mLoggers name (some .new) }

/-! ## Loggers -/

def setLevel (s : Logs) (name : Bytes) (val : Nat) : Logs :=
  s.modify name fun logger => { logger with mLevel := val }

/-- An appender with a formatter of its own keeps it. -/
def followFormatter (val : Option LoggerFormatter) (a : LoggerAppender) : LoggerAppender :=
  if !a.mHasFormatter then { a with mFormater := val } else a

/-- `setFormatter(LoggerFormatter::ptr)` -/
def setFormatter (s : Logs) (name : Bytes) (val : Option LoggerFormatter) : Logs :=
  let stored := s.modify name fun logger => { logger with mFormatter := val }
  (stored.pointers name).foldl (fun s i => s.modifyAppender i (followFormatter val)) stored

/-- `setFormatter(const std::string &)` -/
def setFormatterText (s : Logs) (name : Bytes) (val : Bytes) : Logs :=
  let new_val : LoggerFormatter := ⟨val⟩
  if new_val.isError then s else s.setFormatter name (some new_val)

def clearAppender (s : Logs) (name : Bytes) : Logs :=
  s.modify name fun logger => { logger with mAppenders := [] }

def addAppender (s : Logs) (name : Bytes) (appender : Nat) : Logs :=
  let given :=
    if (s.appenders appender).mFormater.isNone then
      s.modifyAppender appender fun a => { a with mFormater := s.formatterOf name }
    else s
  given.modify name fun logger => { logger with mAppenders := logger.mAppenders ++ [appender] }

/-! ## Appenders -/

/-- `new StdoutLogAppender` or `new FileLogAppender(name)` -/
def newAppender (s : Logs) (output : Output) : Logs :=
  { s with appenders := Function.update s.appenders s.size (.new output), size := s.size + 1 }

def setAppenderLevel (s : Logs) (appender : Nat) (level : LogLevel) : Logs :=
  s.modifyAppender appender fun a => { a with mLevel := level }

/-- `LoggerAppender::setFormatter` -/
def setAppenderFormatter (s : Logs) (appender : Nat) (val : Option LoggerFormatter) : Logs :=
  s.modifyAppender appender fun a =>
    { a with mFormater := val, mHasFormatter := val.isSome }

/-! ## Logging -/

def levelOf (s : Logs) (name : Bytes) : Nat := (s.mLoggers name).elim 0 Logger.mLevel

/-- `log` of either class, which changes no logger; `none` if it goes through a null formatter. -/
def logAppender (s : Logs) (p : Nat) (level : LogLevel) : Option Logs :=
  if (s.appenders p).mLevel.value ≤ level.value then (s.appenders p).mFormater.map fun _ => s
  else some s

/-- `log`, if the root is asked in another way where there are no appenders. -/
def logOr (s : Logs) (fallback : Option Logs) (name : Bytes) (level : LogLevel) : Option Logs :=
  if s.levelOf name ≤ level.value then
    if s.pointers name ≠ [] then
      (s.pointers name).foldlM (fun s it => s.logAppender it level) s
    else fallback
  else some s

/-- Every logger but the root has the root for its `m_root`. -/
def log (s : Logs) (name : Bytes) (level : LogLevel) : Option Logs :=
  let m_root :=
    if name = ascii "root" then some s else s.logOr (some s) (ascii "root") level
  s.logOr m_root name level

/-- The loggers and appenders of a new manager. -/
def start : Logs :=
  let empty : Logs := ⟨fun _ => none, fun _ => .new .stdout, 0⟩
  ((empty.getLogger (ascii "root")).newAppender .stdout).addAppender (ascii "root") 0

theorem start_valid : start.Valid := by
  have hloggers : start.mLoggers =
      Function.update (fun _ => none) (ascii "root")
        (some ⟨LogLevel.DEBUG.value, [0], some ⟨defaultPattern⟩⟩) := by
    simp [start, getLogger, newAppender, addAppender, modifyAppender, modify, formatterOf,
      LoggerAppender.new, Logger.new]
  intro name logger hlogger p hp
  rw [hloggers] at hlogger
  by_cases hname : name = ascii "root"
  · rw [hname, Function.update_self, Option.some_inj] at hlogger
    rw [← hlogger] at hp
    rw [List.mem_singleton.mp hp]
    exact Nat.one_pos
  · rw [Function.update_of_ne hname] at hlogger
    cases hlogger

end Logs

/-- What the program can have made of loggers and appenders. -/
structure LogManger extends Logs where
  valid : toLogs.Valid

/-- After `LogManger::LogManger`. -/
def LogManger.new : LogManger := ⟨.start, Logs.start_valid⟩

end Qslary.Log

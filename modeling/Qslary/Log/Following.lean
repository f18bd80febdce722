import Qslary.Foundation.Transition
import Qslary.Log.Reloading

/-!
# Appenders that follow their logger

An appender without a formatter of its own holds a copy of its logger's.  The copy is made
when the appender is attached without any, and when the logger's formatter changes while
the appender is attached.  A copy that is already there when the appender is attached is
left as it is.
-/

namespace Qslary.Log

open Qslary.Foundation

namespace Logs

/-- The loop of `delAppender` erases the first pointer that is equal. -/
def delAppender (s : Logs) (name : Bytes) (appender : Nat) : Logs :=
  s.modify name fun logger => { logger with mAppenders := logger.mAppenders.erase appender }

end Logs

inductive FormatterCall where
  | getLogger (name : Bytes)
  | newAppender (output : Output)
  | addAppender (name : Bytes) (appender : Nat)
  | delAppender (name : Bytes) (appender : Nat)
  | clearAppender (name : Bytes)
  | setFormatter (name : Bytes) (val : Option LoggerFormatter)
  | setFormatterText (name : Bytes) (val : Bytes)
  | setAppenderFormatter (appender : Nat) (val : Option LoggerFormatter)
  deriving DecidableEq

/-- The formatter is there: the one that was last set, or the one of the logger. -/
def LoggerAppender.UpToDate (a : LoggerAppender) (lastSet formatter : Option LoggerFormatter) :
    Prop :=
  a.mFormater.isSome ∧ a.mFormater = if a.mHasFormatter then lastSet else formatter

/-- A formatter of the appender's own is there, and is the one that was last set. -/
def LoggerAppender.Owns (a : LoggerAppender) (lastSet : Option LoggerFormatter) : Prop :=
  a.mHasFormatter = true → a.mFormater.isSome ∧ a.mFormater = lastSet

/-- The loggers, and what `LoggerAppender::setFormatter` was last given for each appender. -/
structure Followed where
  logs : Logs
  lastSet : Nat → Option LoggerFormatter

namespace Followed

/-- Calls are made on loggers and appenders that exist. -/
def guard (s : Followed) : FormatterCall → Bool
  | .getLogger _ => true
  | .newAppender _ => true
  | .addAppender name appender => (s.logs.mLoggers name).isSome && decide (appender < s.logs.size)
  | .delAppender name appender => (s.logs.mLoggers name).isSome && decide (appender < s.logs.size)
  | .clearAppender name => (s.logs.mLoggers name).isSome
  | .setFormatter name _ => (s.logs.mLoggers name).isSome
  | .setFormatterText name _ => (s.logs.mLoggers name).isSome
  | .setAppenderFormatter appender _ => decide (appender < s.logs.size)

def perform (s : Followed) : FormatterCall → Followed
  | .getLogger name => { s with logs := s.logs.getLogger name }
  | .newAppender output => { s with logs := s.logs.newAppender output }
  | .addAppender name appender => { s with logs := s.logs.addAppender name appender }
  | .delAppender name appender => { s with logs := s.logs.delAppender name appender }
  | .clearAppender name => { s with logs := s.logs.clearAppender name }
  | .setFormatter name val => { s with logs := s.logs.setFormatter name val }
  | .setFormatterText name val => { s with logs := s.logs.setFormatterText name val }
  | .setAppenderFormatter appender val =>
      ⟨s.logs.setAppenderFormatter appender val, Function.update s.lastSet appender val⟩

def machine : Machine Followed FormatterCall Empty where
  guard := guard
  exec s call := .ok (s.perform call)

/-- The state after `LogManger::LogManger`. -/
def start : Followed := ⟨.start, fun _ => none⟩

/-- Every appender that is attached to a logger is up to date. -/
def Follows (s : Followed) : Prop :=
  ∀ name, ∀ p ∈ s.logs.pointers name,
    (s.logs.appenders p).UpToDate (s.lastSet p) (s.logs.formatterOf name)

/-- The appenders of the logger that have no formatter of their own can be given this one. -/
def Spreads (s : Followed) (name : Bytes) (val : Option LoggerFormatter) : Prop :=
  ∀ p ∈ s.logs.pointers name, (s.logs.appenders p).mHasFormatter = false →
    val.isSome ∧ ∀ other, other ≠ name → p ∈ s.logs.pointers other → s.logs.formatterOf other = val

/-- The calls after which every appender is up to date. -/
def KeepsUp (s : Followed) : FormatterCall → Prop
  | .addAppender name appender =>
      (s.logs.appenders appender).mHasFormatter = true ∨
        (s.logs.formatterOf name).isSome ∧
          ((s.logs.appenders appender).mFormater = none ∨
            (s.logs.appenders appender).mFormater = s.logs.formatterOf name)
  | .setFormatter name val => s.Spreads name val
  | .setFormatterText name val =>
      (⟨val⟩ : LoggerFormatter).isError = true ∨ s.Spreads name (some ⟨val⟩)
  | .setAppenderFormatter appender val =>
      val.isSome ∨ ∀ name, appender ∉ s.logs.pointers name
  | _ => True

/-- What holds in any case: pointers are valid, and formatters of one's own are there. -/
structure Sound (s : Followed) : Prop where
  valid : ∀ name, ∀ p ∈ s.logs.pointers name, p < s.logs.size
  own : ∀ p, (s.logs.appenders p).Owns (s.lastSet p)

end Followed

/-! ## What a call changes -/

namespace Logs

variable {s : Logs} {name : Bytes} {logger : Logger}

theorem pointers_modify (h : s.mLoggers name = some logger) (f : Logger → Logger) (other : Bytes) :
    (s.modify name f).pointers other =
      if other = name then (f logger).mAppenders else s.pointers other := by
  by_cases hother : other = name <;> simp [modify_eq h, pointers, hother]

theorem formatterOf_modify (h : s.mLoggers name = some logger) (f : Logger → Logger)
    (other : Bytes) :
    (s.modify name f).formatterOf other =
      if other = name then (f logger).mFormatter else s.formatterOf other := by
  by_cases hother : other = name <;> simp [modify_eq h, formatterOf, hother]

theorem pointers_eq (h : s.mLoggers name = some logger) : s.pointers name = logger.mAppenders := by
  rw [pointers, h]
  rfl

theorem formatterOf_eq (h : s.mLoggers name = some logger) :
    s.formatterOf name = logger.mFormatter := by
  rw [formatterOf, h]
  rfl

theorem pointers_getLogger (s : Logs) (name other : Bytes) :
    (s.getLogger name).pointers other = s.pointers other ∧
      ((s.getLogger name).pointers other ≠ [] →
        (s.getLogger name).formatterOf other = s.formatterOf other) := by
  rw [getLogger]
  split
  · exact ⟨rfl, fun _ => rfl⟩
  · rename_i hnone
    have habsent : s.mLoggers name = none := by simpa using hnone
    by_cases hother : other = name
    · subst hother
      simp [pointers, habsent, Logger.new]
    · simp [pointers, formatterOf, hother]

/-- The appender after `addAppender`. -/
def given (formatter : Option LoggerFormatter) (a : LoggerAppender) : LoggerAppender :=
  if a.mFormater.isNone then { a with mFormater := formatter } else a

theorem given_of_isSome {formatter : Option LoggerFormatter} {a : LoggerAppender}
    (h : a.mFormater.isSome) : given formatter a = a := by
  simp [given, Option.isSome_iff_ne_none.mp h]

theorem upToDate_given_iff {formatter lastSet : Option LoggerFormatter} {a : LoggerAppender}
    (hown : a.Owns lastSet) :
    (given formatter a).UpToDate lastSet formatter ↔
      a.mHasFormatter = true ∨
        formatter.isSome ∧ (a.mFormater = none ∨ a.mFormater = formatter) := by
  obtain ⟨output, mFormater, mHasFormatter, mLevel⟩ := a
  cases mHasFormatter with
  | true =>
      obtain ⟨hsome, hlast⟩ := hown rfl
      rw [given_of_isSome hsome]
      simp_all [LoggerAppender.UpToDate]
  | false =>
      cases mFormater with
      | none => simp [given, LoggerAppender.UpToDate]
      | some own =>
          rw [given_of_isSome rfl]
          simp only [LoggerAppender.UpToDate, Option.isSome_some, true_and]
          constructor
          · rintro rfl
            simp
          · rintro (h | ⟨-, h | h⟩)
            · cases h
            · cases h
            · exact h

theorem upToDate_follow_iff {val lastSet formatter : Option LoggerFormatter} {a : LoggerAppender}
    (hown : a.mHasFormatter = false) :
    (followFormatter val a).UpToDate lastSet formatter ↔ val.isSome ∧ val = formatter := by
  simp [followFormatter, LoggerAppender.UpToDate, hown]

theorem upToDate_follow_of_own {val lastSet formatter : Option LoggerFormatter}
    {a : LoggerAppender} (hhas : a.mHasFormatter = true) (hown : a.Owns lastSet) :
    (followFormatter val a).UpToDate lastSet formatter := by
  simpa [followFormatter, LoggerAppender.UpToDate, hhas] using hown hhas

theorem appenders_addAppender (s : Logs) (name : Bytes) (appender p : Nat) :
    (s.addAppender name appender).appenders p =
      if p = appender then given (s.formatterOf name) (s.appenders p) else s.appenders p := by
  by_cases hp : p = appender
  · subst hp
    cases hnone : (s.appenders p).mFormater.isNone <;>
      simp [addAppender, modify, modifyAppender, given, hnone]
  · cases hnone : (s.appenders appender).mFormater.isNone <;>
      simp [addAppender, modify, modifyAppender, hnone, hp]

theorem mLoggers_addAppender (s : Logs) (name : Bytes) (appender : Nat) :
    (s.addAppender name appender).mLoggers =
      (s.modify name fun logger =>
        { logger with mAppenders := logger.mAppenders ++ [appender] }).mLoggers := by
  cases hnone : (s.appenders appender).mFormater.isNone <;>
    simp [addAppender, modify, modifyAppender, hnone]

theorem pointers_addAppender (h : s.mLoggers name = some logger) (appender : Nat) (other : Bytes) :
    (s.addAppender name appender).pointers other =
      if other = name then logger.mAppenders ++ [appender] else s.pointers other := by
  rw [← pointers_modify h fun logger => { logger with mAppenders := logger.mAppenders ++ [appender] },
    pointers, mLoggers_addAppender]
  rfl

theorem formatterOf_addAppender (h : s.mLoggers name = some logger) (appender : Nat)
    (other : Bytes) : (s.addAppender name appender).formatterOf other = s.formatterOf other := by
  have hmodify := formatterOf_modify h
    (fun logger => { logger with mAppenders := logger.mAppenders ++ [appender] }) other
  rw [formatterOf, mLoggers_addAppender]
  refine hmodify.trans ?_
  split
  · rename_i hother
    rw [hother, formatterOf_eq h]
  · rfl

theorem pointers_setFormatter (h : s.mLoggers name = some logger) (val : Option LoggerFormatter)
    (other : Bytes) : (s.setFormatter name val).pointers other = s.pointers other := by
  by_cases hother : other = name
  · subst hother
    simp [setFormatter_eq h, pointers, h]
  · simp [setFormatter_eq h, pointers, hother]

theorem formatterOf_setFormatter (h : s.mLoggers name = some logger)
    (val : Option LoggerFormatter) (other : Bytes) :
    (s.setFormatter name val).formatterOf other =
      if other = name then val else s.formatterOf other := by
  by_cases hother : other = name <;> simp [setFormatter_eq h, formatterOf, hother]

theorem appenders_setFormatter (h : s.mLoggers name = some logger) (val : Option LoggerFormatter)
    (p : Nat) :
    (s.setFormatter name val).appenders p =
      if p ∈ s.pointers name then followFormatter val (s.appenders p) else s.appenders p := by
  rw [setFormatter_eq h, pointers_eq h]

end Logs

namespace Followed

variable {s s' : Followed} {name : Bytes}

/-! ## One call -/

/-- Calls that attach nothing and change nothing that is attached. -/
theorem follows_of_detached (h : s.Follows)
    (hpointers : ∀ name, ∀ p ∈ s'.logs.pointers name, p ∈ s.logs.pointers name ∧
      s'.logs.formatterOf name = s.logs.formatterOf name)
    (hsame : ∀ name, ∀ p ∈ s.logs.pointers name, s'.logs.appenders p = s.logs.appenders p)
    (hlast : s'.lastSet = s.lastSet) : s'.Follows := by
  intro name p hp
  obtain ⟨hold, hformatter⟩ := hpointers name p hp
  rw [hsame name p hold, hformatter, hlast]
  exact h name p hold

theorem follows_getLogger (h : s.Follows) :
    (s.perform (.getLogger name)).Follows := by
  refine follows_of_detached h (fun other p hp => ?_) (fun other p _ => ?_) rfl
  · obtain ⟨hpointers, hformatter⟩ := Logs.pointers_getLogger s.logs name other
    have hne : (s.logs.getLogger name).pointers other ≠ [] := List.ne_nil_of_mem hp
    exact ⟨hpointers ▸ hp, hformatter hne⟩
  · change (s.logs.getLogger name).appenders p = _
    rw [Logs.getLogger]
    split <;> rfl

theorem follows_newAppender (hsound : s.Sound) (h : s.Follows) (output : Output) :
    (s.perform (.newAppender output)).Follows := by
  refine follows_of_detached h (fun _ p hp => ⟨hp, rfl⟩) (fun other p hp => ?_) rfl
  exact Function.update_of_ne (hsound.valid other p hp).ne _ _

theorem follows_delAppender {logger : Logger} (hlogger : s.logs.mLoggers name = some logger)
    (h : s.Follows) (appender : Nat) : (s.perform (.delAppender name appender)).Follows := by
  refine follows_of_detached h (fun other p hp => ?_) (fun _ _ _ => rfl) rfl
  change p ∈ (s.logs.delAppender name appender).pointers other at hp
  rw [Logs.delAppender, Logs.pointers_modify hlogger] at hp
  have hformatter := Logs.formatterOf_modify hlogger
    (fun logger => { logger with mAppenders := logger.mAppenders.erase appender }) other
  by_cases hother : other = name
  · subst hother
    rw [if_pos rfl] at hp hformatter
    rw [Logs.pointers_eq hlogger, Logs.formatterOf_eq hlogger]
    exact ⟨List.mem_of_mem_erase hp, hformatter⟩
  · rw [if_neg hother] at hp hformatter
    exact ⟨hp, hformatter⟩

theorem follows_clearAppender {logger : Logger} (hlogger : s.logs.mLoggers name = some logger)
    (h : s.Follows) : (s.perform (.clearAppender name)).Follows := by
  refine follows_of_detached h (fun other p hp => ?_) (fun _ _ _ => rfl) rfl
  change p ∈ (s.logs.clearAppender name).pointers other at hp
  rw [Logs.clearAppender, Logs.pointers_modify hlogger] at hp
  have hformatter := Logs.formatterOf_modify hlogger
    (fun logger => { logger with mAppenders := [] }) other
  by_cases hother : other = name
  · rw [if_pos hother] at hp
    cases hp
  · rw [if_neg hother] at hp hformatter
    exact ⟨hp, hformatter⟩

theorem follows_addAppender_iff {logger : Logger} (hlogger : s.logs.mLoggers name = some logger)
    (hsound : s.Sound) (h : s.Follows) (appender : Nat) :
    (s.perform (.addAppender name appender)).Follows ↔ s.KeepsUp (.addAppender name appender) := by
  have happenders := Logs.appenders_addAppender s.logs name appender
  have hpointers := Logs.pointers_addAppender hlogger appender
  have hformatters := Logs.formatterOf_addAppender hlogger appender
  have hattached : ∀ other p, p ∈ (s.logs.addAppender name appender).pointers other →
      p ∈ s.logs.pointers other ∨ other = name ∧ p = appender := by
    intro other p hp
    rw [hpointers] at hp
    split at hp
    · rename_i hother
      rw [hother, Logs.pointers_eq hlogger]
      rcases List.mem_append.mp hp with hold | hnew
      · exact Or.inl hold
      · exact Or.inr ⟨rfl, List.mem_singleton.mp hnew⟩
    · exact Or.inl hp
  constructor
  · intro hafter
    have hmem : appender ∈ (s.logs.addAppender name appender).pointers name := by
      simp [hpointers]
    have hup := hafter name appender hmem
    change ((s.logs.addAppender name appender).appenders appender).UpToDate (s.lastSet appender)
      ((s.logs.addAppender name appender).formatterOf name) at hup
    rw [happenders, if_pos rfl, hformatters] at hup
    exact (Logs.upToDate_given_iff (hsound.own appender)).mp hup
  · intro hkeeps other p hp
    change ((s.logs.addAppender name appender).appenders p).UpToDate (s.lastSet p)
      ((s.logs.addAppender name appender).formatterOf other)
    rw [happenders, hformatters]
    rcases hattached other p hp with hold | ⟨rfl, rfl⟩
    · have hup := h other p hold
      rw [Logs.given_of_isSome hup.1, ite_self]
      exact hup
    · rw [if_pos rfl]
      exact (Logs.upToDate_given_iff (hsound.own p)).mpr hkeeps

theorem follows_setFormatter_iff {logger : Logger} (hlogger : s.logs.mLoggers name = some logger)
    (hsound : s.Sound) (h : s.Follows) (val : Option LoggerFormatter) :
    (s.perform (.setFormatter name val)).Follows ↔ s.Spreads name val := by
  have hfollows : (s.perform (.setFormatter name val)).Follows ↔
      ∀ other, ∀ p ∈ s.logs.pointers other,
        (if p ∈ s.logs.pointers name then Logs.followFormatter val (s.logs.appenders p)
          else s.logs.appenders p).UpToDate (s.lastSet p)
          (if other = name then val else s.logs.formatterOf other) := by
    simp only [Follows, perform, Logs.pointers_setFormatter hlogger,
      Logs.formatterOf_setFormatter hlogger, Logs.appenders_setFormatter hlogger]
  rw [hfollows]
  constructor
  · intro hafter p hp hown
    have hup := hafter name p hp
    rw [if_pos hp, if_pos rfl] at hup
    refine ⟨((Logs.upToDate_follow_iff hown).mp hup).1, fun other hother hmem => ?_⟩
    have hup := hafter other p hmem
    rw [if_pos hp, if_neg hother] at hup
    exact ((Logs.upToDate_follow_iff hown).mp hup).2.symm
  · intro hspreads other p hp
    by_cases hmem : p ∈ s.logs.pointers name
    · rw [if_pos hmem]
      cases hown : (s.logs.appenders p).mHasFormatter with
      | true => exact Logs.upToDate_follow_of_own hown (hsound.own p)
      | false =>
          obtain ⟨hsome, hothers⟩ := hspreads p hmem hown
          refine (Logs.upToDate_follow_iff hown).mpr ⟨hsome, ?_⟩
          split
          · rfl
          · rename_i hother
            exact (hothers other hother hp).symm
    · have hother : other ≠ name := fun heq => hmem (heq ▸ hp)
      rw [if_neg hmem, if_neg hother]
      exact h other p hp

theorem follows_setAppenderFormatter_iff (h : s.Follows) (appender : Nat)
    (val : Option LoggerFormatter) :
    (s.perform (.setAppenderFormatter appender val)).Follows ↔
      s.KeepsUp (.setAppenderFormatter appender val) := by
  have hfollows : (s.perform (.setAppenderFormatter appender val)).Follows ↔
      ∀ name, ∀ p ∈ s.logs.pointers name,
        ((s.logs.setAppenderFormatter appender val).appenders p).UpToDate
          (Function.update s.lastSet appender val p) (s.logs.formatterOf name) := Iff.rfl
  rw [hfollows]
  constructor
  · intro hafter
    by_cases hval : val.isSome
    · exact Or.inl hval
    · refine Or.inr fun name hmem => hval ?_
      have hup := (hafter name appender hmem).1
      simpa [Logs.setAppenderFormatter, Logs.modifyAppender] using hup
  · intro hkeeps name p hp
    by_cases hp' : p = appender
    · subst hp'
      rcases hkeeps with hval | hdetached
      · simp [Logs.setAppenderFormatter, Logs.modifyAppender, LoggerAppender.UpToDate, hval]
      · exact absurd hp (hdetached name)
    · simpa [Logs.setAppenderFormatter, Logs.modifyAppender, hp'] using h name p hp

theorem follows_setFormatterText_iff {logger : Logger}
    (hlogger : s.logs.mLoggers name = some logger) (hsound : s.Sound) (h : s.Follows)
    (val : Bytes) :
    (s.perform (.setFormatterText name val)).Follows ↔ s.KeepsUp (.setFormatterText name val) := by
  cases herror : (⟨val⟩ : LoggerFormatter).isError with
  | true =>
      have hsame : s.perform (.setFormatterText name val) = s := by
        simp [perform, Logs.setFormatterText, herror]
      rw [hsame]
      exact iff_of_true h (Or.inl herror)
  | false =>
      have hset : s.perform (.setFormatterText name val) =
          s.perform (.setFormatter name (some ⟨val⟩)) := by
        simp [perform, Logs.setFormatterText, herror]
      rw [hset, follows_setFormatter_iff hlogger hsound h]
      simp [KeepsUp, herror]

theorem follows_perform_iff {call : FormatterCall} (hsound : s.Sound) (h : s.Follows)
    (hguard : s.guard call = true) : (s.perform call).Follows ↔ s.KeepsUp call := by
  cases call with
  | getLogger name => exact iff_of_true (follows_getLogger h) trivial
  | newAppender output => exact iff_of_true (follows_newAppender hsound h output) trivial
  | addAppender name appender =>
      obtain ⟨logger, hlogger⟩ := Option.isSome_iff_exists.mp (Bool.and_eq_true_iff.mp hguard).1
      exact follows_addAppender_iff hlogger hsound h appender
  | delAppender name appender =>
      obtain ⟨logger, hlogger⟩ := Option.isSome_iff_exists.mp (Bool.and_eq_true_iff.mp hguard).1
      exact iff_of_true (follows_delAppender hlogger h appender) trivial
  | clearAppender name =>
      obtain ⟨logger, hlogger⟩ := Option.isSome_iff_exists.mp hguard
      exact iff_of_true (follows_clearAppender hlogger h) trivial
  | setFormatter name val =>
      obtain ⟨logger, hlogger⟩ := Option.isSome_iff_exists.mp hguard
      exact follows_setFormatter_iff hlogger hsound h val
  | setFormatterText name val =>
      obtain ⟨logger, hlogger⟩ := Option.isSome_iff_exists.mp hguard
      exact follows_setFormatterText_iff hlogger hsound h val
  | setAppenderFormatter appender val => exact follows_setAppenderFormatter_iff h appender val

/-! ## Pointers stay valid -/

theorem size_le_perform {call : FormatterCall} (hguard : s.guard call = true) :
    s.logs.size ≤ (s.perform call).logs.size := by
  cases call with
  | getLogger name =>
      simp only [perform, Logs.getLogger]
      split <;> exact Nat.le_refl _
  | newAppender output => exact Nat.le_succ _
  | addAppender name appender =>
      simp only [perform, Logs.addAppender]
      split <;> exact Nat.le_refl _
  | delAppender name appender => exact Nat.le_refl _
  | clearAppender name => exact Nat.le_refl _
  | setFormatter name val =>
      obtain ⟨logger, hlogger⟩ := Option.isSome_iff_exists.mp hguard
      simp only [perform, Logs.setFormatter_eq hlogger, le_refl]
  | setFormatterText name val =>
      obtain ⟨logger, hlogger⟩ := Option.isSome_iff_exists.mp hguard
      simp only [perform, Logs.setFormatterText]
      split
      · exact Nat.le_refl _
      · simp only [Logs.setFormatter_eq hlogger, le_refl]
  | setAppenderFormatter appender val => exact Nat.le_refl _

/-- A pointer that a logger holds was held before, or is the one that was added. -/
theorem pointers_perform {call : FormatterCall} (hguard : s.guard call = true) {p : Nat}
    (hp : p ∈ (s.perform call).logs.pointers name) :
    p ∈ s.logs.pointers name ∨ p < s.logs.size := by
  cases call with
  | getLogger other =>
      exact Or.inl ((Logs.pointers_getLogger s.logs other name).1 ▸ hp)
  | newAppender output => exact Or.inl hp
  | addAppender other appender =>
      obtain ⟨hsome, happender⟩ := Bool.and_eq_true_iff.mp hguard
      obtain ⟨logger, hlogger⟩ := Option.isSome_iff_exists.mp hsome
      change p ∈ (s.logs.addAppender other appender).pointers name at hp
      rw [Logs.pointers_addAppender hlogger] at hp
      split at hp
      · rename_i hname
        rw [hname, Logs.pointers_eq hlogger]
        rcases List.mem_append.mp hp with hold | hnew
        · exact Or.inl hold
        · rw [List.mem_singleton.mp hnew]
          exact Or.inr (of_decide_eq_true happender)
      · exact Or.inl hp
  | delAppender other appender =>
      obtain ⟨logger, hlogger⟩ := Option.isSome_iff_exists.mp (Bool.and_eq_true_iff.mp hguard).1
      change p ∈ (s.logs.delAppender other appender).pointers name at hp
      rw [Logs.delAppender, Logs.pointers_modify hlogger] at hp
      split at hp
      · rename_i hname
        rw [hname, Logs.pointers_eq hlogger]
        exact Or.inl (List.mem_of_mem_erase hp)
      · exact Or.inl hp
  | clearAppender other =>
      obtain ⟨logger, hlogger⟩ := Option.isSome_iff_exists.mp hguard
      change p ∈ (s.logs.clearAppender other).pointers name at hp
      rw [Logs.clearAppender, Logs.pointers_modify hlogger] at hp
      split at hp
      · cases hp
      · exact Or.inl hp
  | setFormatter other val =>
      obtain ⟨logger, hlogger⟩ := Option.isSome_iff_exists.mp hguard
      exact Or.inl (Logs.pointers_setFormatter hlogger val name ▸ hp)
  | setFormatterText other val =>
      obtain ⟨logger, hlogger⟩ := Option.isSome_iff_exists.mp hguard
      change p ∈ (s.logs.setFormatterText other val).pointers name at hp
      simp only [Logs.setFormatterText] at hp
      split at hp
      · exact Or.inl hp
      · exact Or.inl (Logs.pointers_setFormatter hlogger _ name ▸ hp)
  | setAppenderFormatter appender val => exact Or.inl hp

/-! ## Formatters of one's own stay -/

theorem owns_given {formatter lastSet : Option LoggerFormatter} {a : LoggerAppender}
    (h : a.Owns lastSet) : (Logs.given formatter a).Owns lastSet := by
  intro hhas
  have hown : a.mHasFormatter = true := by
    rw [Logs.given] at hhas
    split at hhas <;> exact hhas
  rw [Logs.given_of_isSome (h hown).1]
  exact h hown

theorem owns_follow {val lastSet : Option LoggerFormatter} {a : LoggerAppender}
    (h : a.Owns lastSet) : (Logs.followFormatter val a).Owns lastSet := by
  cases hown : a.mHasFormatter with
  | true => simpa [Logs.followFormatter, hown] using h
  | false => simp [Logs.followFormatter, LoggerAppender.Owns, hown]

theorem owns_setFormatter {logger : Logger} (hlogger : s.logs.mLoggers name = some logger)
    (hsound : s.Sound) (val : Option LoggerFormatter) (p : Nat) :
    ((s.logs.setFormatter name val).appenders p).Owns (s.lastSet p) := by
  rw [Logs.appenders_setFormatter hlogger]
  split
  · exact owns_follow (hsound.own p)
  · exact hsound.own p

theorem owns_perform {call : FormatterCall} (hsound : s.Sound) (hguard : s.guard call = true)
    (p : Nat) : ((s.perform call).logs.appenders p).Owns ((s.perform call).lastSet p) := by
  cases call with
  | getLogger name =>
      simp only [perform, Logs.getLogger]
      split <;> exact hsound.own p
  | newAppender output =>
      by_cases hp : p = s.logs.size
      · simp [perform, Logs.newAppender, LoggerAppender.new, LoggerAppender.Owns, hp]
      · simpa [perform, Logs.newAppender, hp] using hsound.own p
  | addAppender name appender =>
      change ((s.logs.addAppender name appender).appenders p).Owns (s.lastSet p)
      rw [Logs.appenders_addAppender]
      split
      · exact owns_given (hsound.own p)
      · exact hsound.own p
  | delAppender name appender => exact hsound.own p
  | clearAppender name => exact hsound.own p
  | setFormatter name val =>
      obtain ⟨logger, hlogger⟩ := Option.isSome_iff_exists.mp hguard
      exact owns_setFormatter hlogger hsound val p
  | setFormatterText name val =>
      obtain ⟨logger, hlogger⟩ := Option.isSome_iff_exists.mp hguard
      simp only [perform, Logs.setFormatterText]
      split
      · exact hsound.own p
      · exact owns_setFormatter hlogger hsound _ p
  | setAppenderFormatter appender val =>
      by_cases hp : p = appender
      · subst hp
        simp [perform, Logs.setAppenderFormatter, Logs.modifyAppender, LoggerAppender.Owns]
      · simpa [perform, Logs.setAppenderFormatter, Logs.modifyAppender, hp] using hsound.own p

theorem sound_perform {call : FormatterCall} (hsound : s.Sound) (hguard : s.guard call = true) :
    (s.perform call).Sound where
  valid name p hp := by
    have hsize := size_le_perform hguard
    rcases pointers_perform hguard hp with hold | hnew
    · exact Nat.lt_of_lt_of_le (hsound.valid name p hold) hsize
    · exact Nat.lt_of_lt_of_le hnew hsize
  own := owns_perform hsound hguard

/-! ## Runs -/

theorem step_eq_some_iff {call : FormatterCall} :
    machine.step s call = some s' ↔ s.guard call = true ∧ s.perform call = s' := by
  rw [Machine.step_eq_some_iff]
  exact and_congr_right fun _ => by simp [machine]

theorem start_pointers {p : Nat} (hp : p ∈ start.logs.pointers name) :
    name = ascii "root" ∧ p = 0 := by
  by_cases hname : name = ascii "root"
  · subst hname
    simp [start, Logs.start, Logs.pointers, Logs.getLogger, Logs.newAppender, Logs.addAppender,
      Logs.modifyAppender, Logs.modify, LoggerAppender.new, Logger.new] at hp
    exact ⟨rfl, hp⟩
  · simp [start, Logs.start, Logs.pointers, Logs.getLogger, Logs.newAppender, Logs.addAppender,
      Logs.modifyAppender, Logs.modify, LoggerAppender.new, hname] at hp

theorem start_appenders (p : Nat) : (start.logs.appenders p).mHasFormatter = false := by
  by_cases hp : p = 0 <;>
    simp [start, Logs.start, Logs.getLogger, Logs.newAppender, Logs.addAppender,
      Logs.modifyAppender, Logs.modify, LoggerAppender.new, hp]

theorem start_sound : start.Sound where
  valid name p hp := by
    rw [(start_pointers hp).2]
    exact Nat.one_pos
  own p hown := by
    rw [start_appenders] at hown
    cases hown

theorem start_follows : start.Follows := by
  intro name p hp
  obtain ⟨rfl, rfl⟩ := start_pointers hp
  simp [start, Logs.start, Logs.formatterOf, Logs.getLogger, Logs.newAppender, Logs.addAppender,
    Logs.modifyAppender, Logs.modify, LoggerAppender.new, Logger.new, LoggerAppender.UpToDate]

/-- Appenders follow their loggers as long as no call leaves one behind. -/
theorem follows_iff (calls : List FormatterCall) (s : Followed)
    (hrun : machine.run start calls = some s) :
    start.Follows ∧ (machine.Always (fun _ _ after => after.Follows) start calls ↔
      machine.Meets KeepsUp start calls) := by
  refine ⟨start_follows, ?_⟩
  have hexact : ∀ {s : Followed} {call : FormatterCall} {s' : Followed}, s.Sound ∧ s.Follows →
      machine.step s call = some s' → (s'.Follows ↔ s.KeepsUp call) := by
    rintro s call s' ⟨hsound, hfollows⟩ hstep
    obtain ⟨hguard, rfl⟩ := step_eq_some_iff.mp hstep
    exact follows_perform_iff hsound hfollows hguard
  have hstays : ∀ {s : Followed} {call : FormatterCall} {s' : Followed}, s.Sound ∧ s.Follows →
      s.KeepsUp call → machine.step s call = some s' → s'.Sound ∧ s'.Follows := by
    rintro s call s' hboth hkeeps hstep
    refine ⟨?_, (hexact hboth hstep).mpr hkeeps⟩
    obtain ⟨hguard, rfl⟩ := step_eq_some_iff.mp hstep
    exact sound_perform hboth.1 hguard
  exact Machine.always_iff_meets_of_run hexact hstays ⟨start_sound, start_follows⟩ hrun

/-- The logger gets another formatter, and a second appender that then gets its own. -/
def attached : List FormatterCall :=
  [.setFormatter (ascii "root") (some ⟨ascii "%m%n"⟩), .newAppender .stdout,
    .addAppender (ascii "root") 1, .setAppenderFormatter 1 (some ⟨ascii "%p%n"⟩)]

theorem follows_attached :
    machine.Always (fun _ _ after => after.Follows) start attached := by
  have hrun : (machine.run start attached).isSome = true := by decide
  obtain ⟨s, hs⟩ := Option.isSome_iff_exists.mp hrun
  refine (follows_iff attached s hs).2.mpr ⟨?_, ?_⟩
  · intro p hp _
    refine ⟨rfl, fun other hother hmem => ?_⟩
    exact absurd (start_pointers hmem).1 hother
  · intro first hfirst
    obtain ⟨-, rfl⟩ := step_eq_some_iff.mp hfirst
    refine ⟨trivial, fun second hsecond => ?_⟩
    obtain ⟨-, rfl⟩ := step_eq_some_iff.mp hsecond
    refine ⟨Or.inr (by decide), fun third _ => ⟨Or.inl rfl, fun _ _ => trivial⟩⟩

/-- The appender is detached while the logger gets another formatter. -/
def reattached : List FormatterCall :=
  [.newAppender .stdout, .addAppender (ascii "root") 1, .delAppender (ascii "root") 1,
    .setFormatterText (ascii "root") (ascii "%m%n"), .addAppender (ascii "root") 1]

/-- It comes back with the old formatter; an attached appender can also lose its formatter. -/
theorem follows_fails :
    (∃ s, machine.run start reattached = some s ∧ ¬ s.Follows) ∧
      ∃ s, machine.run start [.setAppenderFormatter 0 none] = some s ∧ ¬ s.Follows := by
  constructor
  · have hrun : ((machine.run start reattached).map fun s =>
        (decide (1 ∈ s.logs.pointers (ascii "root")), s.logs.appenders 1,
          s.logs.formatterOf (ascii "root"))) =
        some (true, ⟨.stdout, some ⟨defaultPattern⟩, false, .DEBUG⟩, some ⟨ascii "%m%n"⟩) := by
      decide
    obtain ⟨s, hs, heq⟩ := Option.map_eq_some_iff.mp hrun
    simp only [Prod.mk.injEq, decide_eq_true_eq] at heq
    obtain ⟨hmem, happender, hformatter⟩ := heq
    refine ⟨s, hs, fun hfollows => ?_⟩
    have hup := (hfollows (ascii "root") 1 hmem).2
    rw [happender, hformatter] at hup
    have hdiffer : some (⟨defaultPattern⟩ : LoggerFormatter) ≠ some ⟨ascii "%m%n"⟩ := by decide
    exact hdiffer hup
  · have hrun : ((machine.run start [.setAppenderFormatter 0 none]).map fun s =>
        (decide (0 ∈ s.logs.pointers (ascii "root")), (s.logs.appenders 0).mFormater)) =
        some (true, none) := by decide
    obtain ⟨s, hs, heq⟩ := Option.map_eq_some_iff.mp hrun
    simp only [Prod.mk.injEq, decide_eq_true_eq] at heq
    refine ⟨s, hs, fun hfollows => ?_⟩
    have hup := (hfollows (ascii "root") 0 heq.1).1
    rw [heq.2] at hup
    cases hup

end Followed

end Qslary.Log

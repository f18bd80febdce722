import Qslary.Log.Loggers

/-!
# Reloading the configuration

The listener of `LogIniter` logs that it is called, makes new and changed definitions into
loggers and silences the loggers of removed ones.  For a definition that has not changed it
goes through a null pointer.
-/

namespace Qslary.Log

open Qslary.Foundation

namespace Logs

/-- A text that `setFormatter` takes. -/
def isFormatter (text : Bytes) : Bool := text ≠ [] && !(⟨text⟩ : LoggerFormatter).isError

/-- The class that `ap` is made of; it stays null for another type. -/
def outputOf (a : LogAppenderDefine) : Option Output :=
  if a.type = 1 then some .stdout
  else if a.type = 2 then some (.file a.file)
  else none

/-- The body of the loop over `i.appenders`; `none` if it goes through a null `ap`. -/
def applyAppender (name : Bytes) (s : Logs) (a : LogAppenderDefine) : Option Logs := do
  let output ← outputOf a
  let ap := s.size
  let s := (s.newAppender output).setAppenderLevel ap a.level
  let s :=
    if isFormatter a.formatter then s.setAppenderFormatter ap (some ⟨a.formatter⟩) else s
  some (s.addAppender name ap)

/-- What is done with a logger, whatever it was. -/
def configure (s : Logs) (i : LogDefine) : Option Logs :=
  let s := s.setLevel i.name i.level.value
  let s := if i.formatter ≠ [] then s.setFormatterText i.name i.formatter else s
  i.appenders.foldlM (applyAppender i.name) (s.clearAppender i.name)

/-- The body of the loop over `new_value`; `none` if it goes through a null pointer. -/
def applyDefine (old : LogDefineSet) (s : Logs) (i : LogDefine) : Option Logs :=
  match old.find i with
  | none => (s.getLogger i.name).configure i
  | some it =>
      if i ≠ it then (s.getLogger i.name).configure i
      -- `logger` stays null
      else none

/-- The body of the loop over `old_value`. -/
def removeDefine (new : LogDefineSet) (s : Logs) (i : LogDefine) : Logs :=
  if (new.find i).isNone then
    ((s.getLogger i.name).setLevel i.name 100).clearAppender i.name
  else s

/-- The listener. -/
def reload (old new : LogDefineSet) (s : Logs) : Option Logs := do
  let s ← s.log (ascii "root") .INFO
  let s ← new.toList.foldlM (applyDefine old) s
  some (old.toList.foldl (removeDefine new) s)

/-! ## What a definition asks for -/

/-- The formatter that a logger ends with. -/
def formatterFor (s : Logs) (i : LogDefine) : Option LoggerFormatter :=
  if isFormatter i.formatter then some ⟨i.formatter⟩
  else (s.getLogger i.name).formatterOf i.name

/-- The appender for a definition, in a logger with a formatter. -/
def appenderFor (formatter : Option LoggerFormatter) (a : LogAppenderDefine) : LoggerAppender where
  output := if a.type = 1 then .stdout else .file a.file
  mFormater := if isFormatter a.formatter then some ⟨a.formatter⟩ else formatter
  mHasFormatter := isFormatter a.formatter
  mLevel := a.level

/-- What becomes of an appender that was there: its logger may be given another formatter. -/
def respread (s : Logs) (p : Nat) (a : LoggerAppender) (i : LogDefine) : LoggerAppender :=
  if isFormatter i.formatter ∧ p ∈ s.pointers i.name then followFormatter (some ⟨i.formatter⟩) a
  else a

/-! ## Operations on one logger -/

variable {s : Logs} {name : Bytes} {logger : Logger}

theorem modify_eq (h : s.mLoggers name = some logger) (f : Logger → Logger) :
    s.modify name f =
      { s with mLoggers := Function.update s.mLoggers name (some (f logger)) } := by
  rw [modify, h]
  rfl

theorem followFormatter_idem (val : Option LoggerFormatter) (a : LoggerAppender) :
    followFormatter val (followFormatter val a) = followFormatter val a := by
  unfold followFormatter
  split <;> simp_all

theorem foldl_modifyAppender {f : LoggerAppender → LoggerAppender} (hf : ∀ a, f (f a) = f a)
    (pointers : List Nat) (s : Logs) :
    pointers.foldl (fun s i => s.modifyAppender i f) s =
      { s with
        appenders := fun p => if p ∈ pointers then f (s.appenders p) else s.appenders p } := by
  induction pointers generalizing s with
  | nil => rfl
  | cons i pointers ih =>
      rw [List.foldl_cons, ih]
      simp only [modifyAppender, mk.injEq, true_and, and_true]
      funext p
      by_cases hp : p = i
      · subst hp
        simp [hf]
      · simp [hp]

theorem setFormatter_eq (h : s.mLoggers name = some logger) (val : Option LoggerFormatter) :
    s.setFormatter name val =
      { s with
        mLoggers := Function.update s.mLoggers name (some { logger with mFormatter := val })
        appenders := fun p =>
          if p ∈ logger.mAppenders then followFormatter val (s.appenders p)
          else s.appenders p } := by
  rw [setFormatter, modify_eq h, foldl_modifyAppender (followFormatter_idem val)]
  simp [pointers]

/-- A logger with one more appender, at an address that was free. -/
def withAppender (s : Logs) (name : Bytes) (logger : Logger) (a : LogAppenderDefine) : Logs where
  mLoggers := Function.update s.mLoggers name
    (some { logger with mAppenders := logger.mAppenders ++ [s.size] })
  appenders := Function.update s.appenders s.size (appenderFor logger.mFormatter a)
  size := s.size + 1

theorem applyAppender_eq (h : s.mLoggers name = some logger) {a : LogAppenderDefine}
    (htype : a.type = 1 ∨ a.type = 2) :
    applyAppender name s a = some (s.withAppender name logger a) := by
  have houtput : outputOf a = some (if a.type = 1 then .stdout else .file a.file) := by
    rcases htype with htype | htype <;> simp [outputOf, htype]
  rw [applyAppender, houtput]
  simp only [Option.bind_eq_bind, Option.bind_some, Option.some.injEq, withAppender]
  by_cases hformatter : isFormatter a.formatter = true
  · rw [if_pos hformatter]
    simp [addAppender, modify, modifyAppender, setAppenderFormatter, setAppenderLevel,
      newAppender, LoggerAppender.new, appenderFor, h, hformatter]
  · rw [if_neg hformatter]
    simp [addAppender, modify, modifyAppender, setAppenderLevel,
      newAppender, LoggerAppender.new, appenderFor, formatterOf, h, hformatter]

theorem foldlM_none {S A : Type} {f : S → A → Option S} {l : List A} {a : A} (ha : a ∈ l)
    (hnone : ∀ s, f s a = none) (s : S) : l.foldlM f s = none := by
  induction l generalizing s with
  | nil => cases ha
  | cons head l ih =>
      rw [List.foldlM_cons]
      rcases List.mem_cons.mp ha with rfl | hrest
      · rw [hnone]
        rfl
      · cases f s head with
        | none => rfl
        | some next => exact ih hrest next

/-- Appenders are made one after the other, at addresses that were free. -/
theorem applyAppenders_eq {appenders : List LogAppenderDefine}
    (h : s.mLoggers name = some logger) (htypes : ∀ a ∈ appenders, a.type = 1 ∨ a.type = 2) :
    ∃ next, appenders.foldlM (applyAppender name) s = some next ∧
      next.mLoggers = Function.update s.mLoggers name (some { logger with
        mAppenders := logger.mAppenders ++ List.range' s.size appenders.length }) ∧
      next.size = s.size + appenders.length ∧
      (∀ p < s.size, next.appenders p = s.appenders p) ∧
      (List.range' s.size appenders.length).map next.appenders =
        appenders.map (appenderFor logger.mFormatter) := by
  induction appenders generalizing s logger with
  | nil =>
      refine ⟨s, rfl, ?_, rfl, fun p _ => rfl, rfl⟩
      simp [h]
  | cons a appenders ih =>
      have hadded : (s.withAppender name logger a).mLoggers name =
          some { logger with mAppenders := logger.mAppenders ++ [s.size] } :=
        Function.update_self ..
      have hsucc : (s.withAppender name logger a).size = s.size + 1 := rfl
      obtain ⟨next, hrun, hloggers, hsize, hold, hnew⟩ :=
        ih hadded fun b hb => htypes b (List.mem_cons_of_mem _ hb)
      rw [hsucc] at hloggers hsize hold hnew
      refine ⟨next, ?_, ?_, ?_, ?_, ?_⟩
      · rw [List.foldlM_cons, applyAppender_eq h (htypes a List.mem_cons_self)]
        exact hrun
      · rw [hloggers, withAppender, List.length_cons, List.range'_succ]
        simp
      · rw [hsize, List.length_cons]
        omega
      · intro p hp
        rw [hold p (Nat.lt_succ_of_lt hp)]
        exact Function.update_of_ne (Nat.ne_of_lt hp) ..
      · rw [List.length_cons, List.range'_succ, List.map_cons, List.map_cons, hnew,
          hold s.size (Nat.lt_succ_self _)]
        exact congrArg (· :: _) (Function.update_self ..)

/-! ## One definition -/

/-- What the listener leaves of a definition that is new or differs. -/
structure Configured (s : Logs) (i : LogDefine) (next : Logs) : Prop where
  logger : ∃ pointers, next.mLoggers i.name =
      some ⟨i.level.value, pointers, s.formatterFor i⟩ ∧
    pointers.map next.appenders = i.appenders.map (appenderFor (s.formatterFor i)) ∧
    ∀ p ∈ pointers, s.size ≤ p ∧ p < next.size
  others : ∀ name, name ≠ i.name → next.mLoggers name = s.mLoggers name
  appenders : ∀ p < s.size, next.appenders p = s.respread p (s.appenders p) i
  size : s.size ≤ next.size

theorem setFormatterText_eq (s : Logs) (name text : Bytes) :
    (if text ≠ [] then s.setFormatterText name text else s) =
      if isFormatter text then s.setFormatter name (some ⟨text⟩) else s := by
  by_cases hempty : text = []
  · simp [hempty, isFormatter]
  · by_cases herror : (⟨text⟩ : LoggerFormatter).isError = true
    · simp [hempty, isFormatter, setFormatterText, herror]
    · simp [hempty, isFormatter, setFormatterText, herror]

theorem formatterFor_eq (h : s.mLoggers name = some logger) {i : LogDefine}
    (hname : i.name = name) :
    s.formatterFor i =
      if isFormatter i.formatter then some ⟨i.formatter⟩ else logger.mFormatter := by
  rw [formatterFor, getLogger, formatterOf, hname, h]
  simp [h]

/-- The state in which a definition's appenders are made. -/
def cleared (s : Logs) (i : LogDefine) : Logs where
  mLoggers := Function.update s.mLoggers i.name (some ⟨i.level.value, [], s.formatterFor i⟩)
  appenders p := s.respread p (s.appenders p) i
  size := s.size

theorem configure_eq {i : LogDefine} (h : s.mLoggers i.name = some logger) :
    s.configure i = i.appenders.foldlM (applyAppender i.name) (s.cleared i) := by
  have hlevel : (s.setLevel i.name i.level.value).mLoggers i.name =
      some { logger with mLevel := i.level.value } := by
    rw [setLevel, modify_eq h]
    exact Function.update_self ..
  have hpointers : s.pointers i.name = logger.mAppenders := by
    rw [pointers, h]
    rfl
  rw [configure, setFormatterText_eq, cleared, formatterFor_eq h rfl]
  congr 1
  by_cases hformatter : isFormatter i.formatter = true
  · rw [if_pos hformatter, setFormatter_eq hlevel, clearAppender,
      modify_eq (Function.update_self ..)]
    simp [setLevel, modify_eq h, respread, hformatter, hpointers]
  · rw [if_neg hformatter, clearAppender, modify_eq hlevel]
    simp [setLevel, modify_eq h, respread, hformatter]

theorem configure_spec {i : LogDefine} (h : s.mLoggers i.name = some logger)
    (htypes : ∀ a ∈ i.appenders, a.type = 1 ∨ a.type = 2) :
    ∃ next, s.configure i = some next ∧ Configured s i next := by
  have hcleared : (s.cleared i).mLoggers i.name =
      some ⟨i.level.value, [], s.formatterFor i⟩ := Function.update_self ..
  obtain ⟨next, hrun, hloggers, hsize, hold, hnew⟩ := applyAppenders_eq hcleared htypes
  refine ⟨next, (configure_eq h).trans hrun, ?_, ?_, hold, ?_⟩
  · refine ⟨List.range' s.size i.appenders.length, ?_, hnew, ?_⟩
    · rw [hloggers, Function.update_self]
      rfl
    · intro p hp
      obtain ⟨hfirst, hlast⟩ := List.mem_range'_1.mp hp
      rw [hsize]
      exact ⟨hfirst, hlast⟩
  · intro name hname
    rw [hloggers, Function.update_of_ne hname]
    exact Function.update_of_ne hname ..
  · rw [hsize]
    exact Nat.le_add_right _ _

/-- A definition is new, or differs from the one before it. -/
def Changed (old : LogDefineSet) (i : LogDefine) : Prop := old.find i ≠ some i

/-- A definition that can be made into appenders. -/
def Typed (i : LogDefine) : Prop := ∀ a ∈ i.appenders, a.type = 1 ∨ a.type = 2

theorem applyDefine_eq {old : LogDefineSet} {i : LogDefine} (h : Changed old i) (s : Logs) :
    applyDefine old s i = (s.getLogger i.name).configure i := by
  rw [applyDefine]
  split
  · rfl
  · rename_i it hit
    exact if_pos fun heq => h (by rw [hit, heq])

theorem getLogger_spec (s : Logs) (name : Bytes) :
    (∃ logger, (s.getLogger name).mLoggers name = some logger) ∧
      (s.getLogger name).pointers name = s.pointers name ∧
      (s.getLogger name).appenders = s.appenders ∧ (s.getLogger name).size = s.size ∧
      ∀ other, other ≠ name → (s.getLogger name).mLoggers other = s.mLoggers other := by
  unfold getLogger
  split
  · rename_i hsome
    exact ⟨Option.isSome_iff_exists.mp hsome, rfl, rfl, rfl, fun _ _ => rfl⟩
  · rename_i hnone
    refine ⟨⟨.new, Function.update_self ..⟩, ?_, rfl, rfl, fun other hother => ?_⟩
    · simp [pointers, Option.not_isSome_iff_eq_none.mp hnone, Logger.new]
    · exact Function.update_of_ne hother ..

theorem applyDefine_spec {old : LogDefineSet} {i : LogDefine} (h : Changed old i) (htyped : Typed i)
    (s : Logs) : ∃ next, applyDefine old s i = some next ∧ Configured s i next := by
  obtain ⟨⟨logger, hlogger⟩, hpointers, happenders, hsize, hothers⟩ := getLogger_spec s i.name
  obtain ⟨next, hrun, hnext⟩ := configure_spec hlogger htyped
  have hfor : (s.getLogger i.name).formatterFor i = s.formatterFor i := by
    unfold formatterFor
    congr 2
    rw [getLogger, if_pos (by rw [hlogger]; rfl)]
  rw [applyDefine_eq h]
  refine ⟨next, hrun, ?_, ?_, ?_, ?_⟩
  · rw [← hfor, ← hsize]
    exact hnext.logger
  · intro name hname
    rw [hnext.others name hname, hothers name hname]
  · intro p hp
    rw [hnext.appenders p (by rwa [hsize]), happenders, respread, hpointers]
    rfl
  · rw [← hsize]
    exact hnext.size

/-! ## All definitions -/

theorem Valid.pointers_lt (h : s.Valid) {p : Nat} (hp : p ∈ s.pointers name) : p < s.size := by
  rw [pointers] at hp
  cases hlogger : s.mLoggers name with
  | none =>
      rw [hlogger] at hp
      cases hp
  | some logger =>
      rw [hlogger] at hp
      exact h name logger hlogger p hp

theorem Configured.valid {i : LogDefine} {next : Logs} (h : Configured s i next) (hs : s.Valid) :
    next.Valid := by
  intro name logger hlogger p hp
  by_cases hname : name = i.name
  · obtain ⟨pointers, hnew, -, hrange⟩ := h.logger
    rw [hname, hnew, Option.some_inj] at hlogger
    rw [← hlogger] at hp
    exact (hrange p hp).2
  · rw [h.others name hname] at hlogger
    exact Nat.lt_of_lt_of_le (hs name logger hlogger p hp) h.size

theorem formatterFor_congr {i : LogDefine} {t : Logs}
    (h : t.mLoggers i.name = s.mLoggers i.name) : t.formatterFor i = s.formatterFor i := by
  unfold formatterFor formatterOf getLogger
  rw [h]
  split
  · rfl
  · split
    · rw [h]
    · simp

theorem respread_congr {i : LogDefine} {t : Logs}
    (h : t.mLoggers i.name = s.mLoggers i.name) (p : Nat) (a : LoggerAppender) :
    t.respread p a i = s.respread p a i := by
  rw [respread, respread, pointers, pointers, h]

theorem foldl_respread_of_not_mem {p : Nat} {defines : List LogDefine}
    (h : ∀ i ∈ defines, p ∉ s.pointers i.name) (a : LoggerAppender) :
    defines.foldl (s.respread p) a = a := by
  induction defines with
  | nil => rfl
  | cons i defines ih =>
      rw [List.foldl_cons, respread, if_neg fun hp => h i List.mem_cons_self hp.2]
      exact ih fun j hj => h j (List.mem_cons_of_mem _ hj)

theorem foldl_respread_congr {t : Logs} {defines : List LogDefine}
    (h : ∀ i ∈ defines, t.mLoggers i.name = s.mLoggers i.name) (p : Nat) (a : LoggerAppender) :
    defines.foldl (t.respread p) a = defines.foldl (s.respread p) a := by
  refine List.foldl_ext _ _ _ fun a i hi => ?_
  exact respread_congr (h i hi) p a

/-- What the first loop of the listener leaves. -/
structure Applied (s : Logs) (defines : List LogDefine) (next : Logs) : Prop where
  loggers : ∀ i ∈ defines, ∃ pointers, next.mLoggers i.name =
      some ⟨i.level.value, pointers, s.formatterFor i⟩ ∧
    pointers.map next.appenders = i.appenders.map (appenderFor (s.formatterFor i))
  others : ∀ name, (∀ i ∈ defines, i.name ≠ name) → next.mLoggers name = s.mLoggers name
  appenders : ∀ p < s.size, next.appenders p = defines.foldl (s.respread p) (s.appenders p)
  valid : next.Valid

theorem applyDefines_spec {old : LogDefineSet} {defines : List LogDefine} (hs : s.Valid)
    (hchanged : ∀ i ∈ defines, Changed old i) (htyped : ∀ i ∈ defines, Typed i)
    (hnames : defines.Pairwise fun first second => first.name ≠ second.name) :
    ∃ next, defines.foldlM (applyDefine old) s = some next ∧ Applied s defines next := by
  induction defines generalizing s with
  | nil =>
      exact ⟨s, rfl, fun i hi => absurd hi List.not_mem_nil, fun _ _ => rfl, fun _ _ => rfl, hs⟩
  | cons i defines ih =>
      obtain ⟨hname, hrest⟩ := List.pairwise_cons.mp hnames
      obtain ⟨mid, hfirst, hmid⟩ := applyDefine_spec (hchanged i List.mem_cons_self)
        (htyped i List.mem_cons_self) s
      obtain ⟨next, hrun, hnext⟩ := ih (hmid.valid hs)
        (fun j hj => hchanged j (List.mem_cons_of_mem _ hj))
        (fun j hj => htyped j (List.mem_cons_of_mem _ hj)) hrest
      have hsame : ∀ j ∈ defines, mid.mLoggers j.name = s.mLoggers j.name :=
        fun j hj => hmid.others j.name (hname j hj).symm
      refine ⟨next, ?_, ?_, ?_, ?_, hnext.valid⟩
      · rw [List.foldlM_cons, hfirst]
        exact hrun
      · intro j hj
        rcases List.mem_cons.mp hj with rfl | hj
        · -- the new appenders belong to no logger that comes later
          obtain ⟨pointers, hlogger, hmap, hrange⟩ := hmid.logger
          refine ⟨pointers, ?_, ?_⟩
          · rw [hnext.others j.name fun k hk => (hname k hk).symm, hlogger]
          · rw [← hmap]
            refine List.map_congr_left fun p hp => ?_
            rw [hnext.appenders p (hrange p hp).2]
            refine foldl_respread_of_not_mem (fun k hk hmem => ?_) _
            have hmem' : p ∈ s.pointers k.name := by
              rwa [Logs.pointers, hsame k hk] at hmem
            exact absurd (hs.pointers_lt hmem') (Nat.not_lt.mpr (hrange p hp).1)
        · obtain ⟨pointers, hlogger, hmap⟩ := hnext.loggers j hj
          rw [formatterFor_congr (hsame j hj)] at hlogger hmap
          exact ⟨pointers, hlogger, hmap⟩
      · intro name hother
        rw [hnext.others name fun j hj => hother j (List.mem_cons_of_mem _ hj),
          hmid.others name (hother i List.mem_cons_self).symm]
      · intro p hp
        rw [hnext.appenders p (Nat.lt_of_lt_of_le hp hmid.size), hmid.appenders p hp,
          foldl_respread_congr hsame]
        rfl

/-! ## Removed definitions -/

/-- A logger that is silent. -/
def Silent (s : Logs) (name : Bytes) : Prop :=
  ∃ logger, s.mLoggers name = some logger ∧ logger.mLevel = 100 ∧ logger.mAppenders = []

theorem removeDefine_spec (new : LogDefineSet) (s : Logs) (i : LogDefine) :
    (removeDefine new s i).appenders = s.appenders ∧ (removeDefine new s i).size = s.size ∧
      (new.find i = none → (removeDefine new s i).Silent i.name) ∧
      ∀ name, (new.find i = none → i.name ≠ name) →
        (removeDefine new s i).mLoggers name = s.mLoggers name := by
  unfold removeDefine
  split
  · rename_i hnone
    rw [Option.isNone_iff_eq_none] at hnone
    obtain ⟨⟨logger, hlogger⟩, -, happenders, hsize, hothers⟩ := getLogger_spec s i.name
    rw [setLevel, modify_eq hlogger, clearAppender, modify_eq (Function.update_self ..)]
    refine ⟨happenders, hsize, fun _ => ⟨_, Function.update_self .., rfl, rfl⟩, ?_⟩
    intro name hname
    simp only [Function.update_idem]
    rw [Function.update_of_ne (hname hnone).symm, hothers name (hname hnone).symm]
  · rename_i hsome
    rw [Option.isNone_iff_eq_none] at hsome
    exact ⟨rfl, rfl, fun hnone => absurd hnone hsome, fun _ _ => rfl⟩

theorem removeDefine_valid (new : LogDefineSet) (i : LogDefine) (hs : s.Valid) :
    (removeDefine new s i).Valid := by
  obtain ⟨-, hsize, hsilent, hothers⟩ := removeDefine_spec new s i
  intro name logger hlogger p hp
  by_cases hhere : new.find i = none ∧ i.name = name
  · obtain ⟨silent, hlookup, -, hempty⟩ := hsilent hhere.1
    rw [hhere.2, hlogger, Option.some_inj] at hlookup
    rw [hlookup, hempty] at hp
    cases hp
  · rw [hothers name fun hnone heq => hhere ⟨hnone, heq⟩] at hlogger
    rw [hsize]
    exact hs name logger hlogger p hp

theorem removeDefines_valid (new : LogDefineSet) (defines : List LogDefine) (hs : s.Valid) :
    (defines.foldl (removeDefine new) s).Valid := by
  induction defines generalizing s with
  | nil => exact hs
  | cons i defines ih => exact ih (removeDefine_valid new i hs)

theorem removeDefines_spec (new : LogDefineSet) (defines : List LogDefine) (s : Logs) :
    (defines.foldl (removeDefine new) s).appenders = s.appenders ∧
      (∀ name, (∀ i ∈ defines, new.find i = none → i.name ≠ name) →
        (defines.foldl (removeDefine new) s).mLoggers name = s.mLoggers name) ∧
      ∀ name, (s.Silent name ∨ ∃ i ∈ defines, new.find i = none ∧ i.name = name) →
        (defines.foldl (removeDefine new) s).Silent name := by
  induction defines generalizing s with
  | nil => exact ⟨rfl, fun _ _ => rfl, fun name h => h.resolve_right (by simp)⟩
  | cons i defines ih =>
      obtain ⟨happenders, -, hsilent, hothers⟩ := removeDefine_spec new s i
      obtain ⟨hrun, hkept, hsilenced⟩ := ih (removeDefine new s i)
      refine ⟨hrun.trans happenders, ?_, ?_⟩
      · intro name hname
        rw [List.foldl_cons, hkept name fun j hj => hname j (List.mem_cons_of_mem _ hj),
          hothers name (hname i List.mem_cons_self)]
      · intro name hname
        refine hsilenced name ?_
        by_cases hhere : new.find i = none ∧ i.name = name
        · exact .inl (hhere.2 ▸ hsilent hhere.1)
        · rcases hname with ⟨logger, hlogger, hlevel⟩ | ⟨j, hj, hremoved⟩
          · refine .inl ⟨logger, ?_, hlevel⟩
            rw [hothers name fun hnone heq => hhere ⟨hnone, heq⟩, hlogger]
          · rcases List.mem_cons.mp hj with rfl | hj
            · exact absurd hremoved hhere
            · exact .inr ⟨j, hj, hremoved⟩

end Logs

/-! ## Sets of definitions -/

theorem LogDefine.rank_eq_iff {d e : LogDefine} : d.rank = e.rank ↔ d.name = e.name :=
  (List.map_injective_iff.mpr fun _ _ => UInt8.toNat_inj.mp).eq_iff

namespace LogDefineSet

variable {set : LogDefineSet} {d e : LogDefine}

theorem find_eq_none_iff : set.find d = none ↔ ∀ e ∈ set.toList, e.name ≠ d.name := by
  simp [find, List.find?_eq_none, LogDefine.rank_eq_iff]

theorem names_ne (set : LogDefineSet) :
    set.toList.Pairwise fun first second => first.name ≠ second.name := by
  refine List.pairwise_map.mpr (set.sorted.imp fun hlt heq => ?_)
  rw [LogDefine.rank_eq_iff.mpr heq] at hlt
  exact lt_irrefl _ hlt

end LogDefineSet

namespace Logs

variable {s : Logs}

/-! ## Shared appenders -/

/-- The last definition to give its formatter to an appender that its logger holds. -/
def lastGiver (s : Logs) (p : Nat) (defines : List LogDefine) : Option LogDefine :=
  (defines.filter fun i => isFormatter i.formatter ∧ p ∈ s.pointers i.name).getLast?

theorem lastGiver_concat (s : Logs) (p : Nat) (defines : List LogDefine) (i : LogDefine) :
    s.lastGiver p (defines ++ [i]) =
      if isFormatter i.formatter ∧ p ∈ s.pointers i.name then some i
      else s.lastGiver p defines := by
  rw [lastGiver, List.filter_append]
  split
  · rename_i hgives
    rw [List.filter_cons_of_pos (by simpa using hgives), List.filter_nil, List.getLast?_concat]
  · rename_i hgives
    rw [List.filter_cons_of_neg (by simpa using hgives), List.filter_nil, List.append_nil]
    rfl

theorem followFormatter_follow (val other : Option LoggerFormatter) (a : LoggerAppender) :
    followFormatter val (followFormatter other a) = followFormatter val a := by
  cases hformatter : a.mHasFormatter <;> simp [followFormatter, hformatter]

theorem followFormatter_eq_iff {val : Option LoggerFormatter} {a : LoggerAppender} :
    followFormatter val a = a ↔ (a.mHasFormatter = false → a.mFormater = val) := by
  obtain ⟨output, formatter, hasFormatter, level⟩ := a
  cases hasFormatter <;> simp [followFormatter, eq_comm]

theorem foldl_respread_eq (s : Logs) (p : Nat) (defines : List LogDefine) (a : LoggerAppender) :
    defines.foldl (s.respread p) a =
      match s.lastGiver p defines with
      | none => a
      | some i => followFormatter (some ⟨i.formatter⟩) a := by
  induction defines using List.reverseRecOn with
  | nil => rfl
  | append_singleton defines i ih =>
      rw [List.foldl_append, List.foldl_cons, List.foldl_nil, ih, lastGiver_concat, respread]
      split
      · cases s.lastGiver p defines with
        | none => rfl
        | some giver => exact followFormatter_follow ..
      · rfl

/-! ## A reload -/

/-- No record of a level reaches an appender of the logger that has no formatter. -/
def Formats (s : Logs) (name : Bytes) (level : LogLevel) : Prop :=
  s.levelOf name ≤ level.value → ∀ p ∈ s.pointers name,
    (s.appenders p).mLevel.value ≤ level.value → (s.appenders p).mFormater ≠ none

theorem logAppender_eq_some_iff {p : Nat} {level : LogLevel} {next : Logs} :
    s.logAppender p level = some next ↔
      next = s ∧ ((s.appenders p).mLevel.value ≤ level.value →
        (s.appenders p).mFormater ≠ none) := by
  unfold logAppender
  split
  · rename_i hlevel
    rw [Option.map_eq_some_iff, Option.ne_none_iff_exists']
    constructor
    · rintro ⟨formatter, hformatter, rfl⟩
      exact ⟨rfl, fun _ => ⟨formatter, hformatter⟩⟩
    · rintro ⟨rfl, h⟩
      obtain ⟨formatter, hformatter⟩ := h hlevel
      exact ⟨formatter, hformatter, rfl⟩
  · rename_i hlevel
    simp [hlevel, eq_comm]

theorem foldlM_logAppender_iff {pointers : List Nat} {level : LogLevel} {next : Logs} :
    pointers.foldlM (fun s it => s.logAppender it level) s = some next ↔
      next = s ∧ ∀ p ∈ pointers, (s.appenders p).mLevel.value ≤ level.value →
        (s.appenders p).mFormater ≠ none := by
  induction pointers with
  | nil => simp [eq_comm]
  | cons p pointers ih =>
      rw [List.foldlM_cons, Option.bind_eq_bind, Option.bind_eq_some_iff, List.forall_mem_cons]
      constructor
      · rintro ⟨mid, hmid, hrest⟩
        obtain ⟨rfl, hfirst⟩ := logAppender_eq_some_iff.mp hmid
        obtain ⟨rfl, hothers⟩ := ih.mp hrest
        exact ⟨rfl, hfirst, hothers⟩
      · rintro ⟨rfl, hfirst, hothers⟩
        exact ⟨next, logAppender_eq_some_iff.mpr ⟨rfl, hfirst⟩, ih.mpr ⟨rfl, hothers⟩⟩

/-- The root has no logger behind it. -/
theorem log_root_iff {level : LogLevel} {next : Logs} :
    s.log (ascii "root") level = some next ↔ next = s ∧ s.Formats (ascii "root") level := by
  simp only [log, logOr, if_true, Formats]
  split
  · rename_i hlevel
    split
    · rw [foldlM_logAppender_iff, forall_prop_of_true hlevel]
    · rename_i hnone
      simp [not_not.mp hnone, eq_comm]
  · rename_i hlevel
    simp [hlevel, eq_comm]

/-- A logger of a definition that has been added, changed or removed. -/
def Affected (old new : LogDefineSet) (name : Bytes) : Prop :=
  (∃ i ∈ new.toList, Changed old i ∧ i.name = name) ∨
    ∃ i ∈ old.toList, new.find i = none ∧ i.name = name

/-- The logger is as it was, and so are its appenders. -/
def Unchanged (s next : Logs) (name : Bytes) : Prop :=
  next.mLoggers name = s.mLoggers name ∧
    ∀ p ∈ s.pointers name, next.appenders p = s.appenders p

/-- What a reload is for. -/
structure Reloaded (old new : LogDefineSet) (s next : Logs) : Prop where
  configured : ∀ i ∈ new.toList, Changed old i →
    ∃ pointers, next.mLoggers i.name = some ⟨i.level.value, pointers, s.formatterFor i⟩ ∧
      pointers.map next.appenders = i.appenders.map (appenderFor (s.formatterFor i))
  silenced : ∀ i ∈ old.toList, new.find i = none → next.Silent i.name
  others : ∀ name, ¬Affected old new name → s.Unchanged next name

/-- No appender of another logger is given a formatter that it did not have. -/
def Unshared (old new : LogDefineSet) (s : Logs) : Prop :=
  ∀ name, ¬Affected old new name → ∀ p ∈ s.pointers name, ∀ i,
    s.lastGiver p new.toList = some i → (s.appenders p).mHasFormatter = false →
      (s.appenders p).mFormater = some ⟨i.formatter⟩

theorem applyAppender_none {name : Bytes} {a : LogAppenderDefine} (h : ¬(a.type = 1 ∨ a.type = 2))
    (s : Logs) : applyAppender name s a = none := by
  rw [not_or] at h
  rw [applyAppender, outputOf, if_neg h.1, if_neg h.2]
  rfl

/-- A definition that has not changed stops the listener, and so does an appender of no
class. -/
theorem applyDefine_none {old : LogDefineSet} {i : LogDefine} (h : ¬(Changed old i ∧ Typed i))
    (s : Logs) : applyDefine old s i = none := by
  by_cases hchanged : Changed old i
  · have htyped : ¬Typed i := fun htyped => h ⟨hchanged, htyped⟩
    rw [Typed, not_forall₂] at htyped
    obtain ⟨a, ha, htype⟩ := htyped
    rw [applyDefine_eq hchanged]
    exact foldlM_none ha (applyAppender_none htype) _
  · rw [Changed, not_not] at hchanged
    rw [applyDefine, hchanged]
    exact if_neg (not_not.mpr rfl)

/-- An appender keeps its formatter if the last definition to give it one gives it that. -/
theorem unshared_iff {old new : LogDefineSet} {next : Logs} (hs : s.Valid)
    (happenders : ∀ p < s.size,
      next.appenders p = new.toList.foldl (s.respread p) (s.appenders p)) :
    Unshared old new s ↔ ∀ name, ¬Affected old new name → ∀ p ∈ s.pointers name,
      next.appenders p = s.appenders p := by
  have hkeeps : ∀ p < s.size, (next.appenders p = s.appenders p ↔ ∀ i,
      s.lastGiver p new.toList = some i → (s.appenders p).mHasFormatter = false →
        (s.appenders p).mFormater = some ⟨i.formatter⟩) := by
    intro p hp
    rw [happenders p hp, foldl_respread_eq]
    cases hgiver : s.lastGiver p new.toList with
    | none => simp
    | some i =>
        rw [followFormatter_eq_iff]
        simp
  refine forall₂_congr fun name _ => forall₂_congr fun p hp => ?_
  exact (hkeeps p (hs.pointers_lt hp)).symm

/-- A reload that meets no null pointer. -/
theorem reload_spec {old new : LogDefineSet} (hs : s.Valid)
    (hformats : s.Formats (ascii "root") .INFO)
    (hdefines : ∀ i ∈ new.toList, Changed old i ∧ Typed i) :
    ∃ next, reload old new s = some next ∧ next.Valid ∧
      (Reloaded old new s next ↔ Unshared old new s) := by
  obtain ⟨mid, hmid, happlied⟩ := applyDefines_spec hs (fun i hi => (hdefines i hi).1)
    (fun i hi => (hdefines i hi).2) new.names_ne
  obtain ⟨happenders, hkept, hsilent⟩ := removeDefines_spec new old.toList mid
  have hrun : reload old new s = some (old.toList.foldl (removeDefine new) mid) := by
    rw [reload, log_root_iff.mpr ⟨rfl, hformats⟩, Option.bind_eq_bind, Option.bind_some, hmid]
    rfl
  have hspread : ∀ p < s.size, (old.toList.foldl (removeDefine new) mid).appenders p =
      new.toList.foldl (s.respread p) (s.appenders p) := by
    intro p hp
    rw [happenders, happlied.appenders p hp]
  refine ⟨_, hrun, removeDefines_valid new old.toList happlied.valid, ?_⟩
  rw [unshared_iff hs hspread]
  refine ⟨fun h name hname => (h.others name hname).2, fun h => ⟨?_, ?_, ?_⟩⟩
  · intro i hi _
    -- a name of the new set is not removed
    rw [hkept i.name fun j _ hnone heq =>
      LogDefineSet.find_eq_none_iff.mp hnone i hi heq.symm, happenders]
    exact happlied.loggers i hi
  · intro i hi hnone
    exact hsilent i.name (.inr ⟨i, hi, hnone, rfl⟩)
  · intro name hname
    refine ⟨?_, h name hname⟩
    rw [hkept name fun i hi hnone heq => hname (.inr ⟨i, hi, hnone, heq⟩)]
    exact happlied.others name fun i hi heq => hname (.inl ⟨i, hi, (hdefines i hi).1, heq⟩)

/-- A null pointer on the way leaves nothing behind. -/
theorem conditions_of_reload {old new : LogDefineSet} {next : Logs}
    (h : reload old new s = some next) :
    s.Formats (ascii "root") .INFO ∧ ∀ i ∈ new.toList, Changed old i ∧ Typed i := by
  obtain ⟨logged, hlogged, hrest⟩ := Option.bind_eq_some_iff.mp h
  obtain ⟨rfl, hformats⟩ := log_root_iff.mp hlogged
  obtain ⟨mid, hmid, -⟩ := Option.bind_eq_some_iff.mp hrest
  refine ⟨hformats, fun i hi => ?_⟩
  by_contra hnone
  rw [foldlM_none hi (applyDefine_none hnone)] at hmid
  cases hmid

/-- A reload does what it is for, and leaves a manager, if and only if no appender of the root that
its own record reaches is without a formatter, no definition stays as it was, every appender is of
a class, and no appender that is given a formatter is shared with a logger that has another. -/
theorem reload_iff (old new : LogDefineSet) (m : LogManger) :
    (∃ next : LogManger, reload old new m.toLogs = some next.toLogs ∧
        Reloaded old new m.toLogs next.toLogs) ↔
      m.Formats (ascii "root") .INFO ∧ (∀ i ∈ new.toList, Changed old i) ∧
        (∀ i ∈ new.toList, Typed i) ∧ Unshared old new m.toLogs := by
  constructor
  · rintro ⟨next, hnext, hreloaded⟩
    obtain ⟨hformats, hdefines⟩ := conditions_of_reload hnext
    refine ⟨hformats, fun i hi => (hdefines i hi).1, fun i hi => (hdefines i hi).2, ?_⟩
    obtain ⟨reloaded, hrun, -, hiff⟩ := reload_spec m.valid hformats hdefines
    rw [hrun, Option.some_inj] at hnext
    exact hiff.mp (hnext ▸ hreloaded)
  · rintro ⟨hformats, hchanged, htyped, hunshared⟩
    obtain ⟨reloaded, hrun, hvalid, hiff⟩ :=
      reload_spec m.valid hformats fun i hi => ⟨hchanged i hi, htyped i hi⟩
    exact ⟨⟨reloaded, hvalid⟩, hrun, hiff.mpr hunshared⟩

/-- One definition is kept and one is added. -/
theorem reload_of_unchanged :
    ¬∃ next,
      reload (RankedMap.empty.insert ⟨ascii "root", .INFO, [], []⟩ ())
          ((RankedMap.empty.insert ⟨ascii "root", .INFO, [], []⟩ ()).insert
            ⟨ascii "system", .DEBUG, [], [⟨1, .DEBUG, [], []⟩]⟩ ())
          LogManger.new.toLogs = some next := by
  have hnone : reload (RankedMap.empty.insert ⟨ascii "root", .INFO, [], []⟩ ())
      ((RankedMap.empty.insert ⟨ascii "root", .INFO, [], []⟩ ()).insert
        ⟨ascii "system", .DEBUG, [], [⟨1, .DEBUG, [], []⟩]⟩ ())
      LogManger.new.toLogs = none := rfl
  rw [hnone]
  rintro ⟨next, hnext⟩
  cases hnext

end Logs

end Qslary.Log

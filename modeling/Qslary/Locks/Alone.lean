import Qslary.Locks.Order

/-!
# Calls without other threads

A call that no other call is under way with does to the loggers what the operation of the same
name does; and a new value of the logs makes of them what reloading it does.
-/

namespace Qslary.Locks

open Qslary.Foundation Qslary.Foundation.ScopedLocks
open Qslary.Log (LogLevel LogEvent LoggerFormatter Logs Output)

section

variable {ι α : Type} {d : Shared ι α}

/-- What a program makes of the loggers, whatever it does besides; where that is nothing, it stops
at a null pointer. -/
def Does (code : Code ι α) (f : Logs → Option Logs) : Prop :=
  ∀ d, code.Comes Shared.logs d (f d.logs)

theorem does_done (r : Reply α) : Does (.done r : Code ι α) some := fun _ => Prog.comes_done rfl

theorem does_read {next : Shared ι α → Code ι α} {f : Logs → Option Logs}
    (h : ∀ d, (next d).Comes Shared.logs d (f d.logs)) : Does (.read next) f :=
  fun d => Prog.comes_act (h d)

theorem does_ret (g : Shared ι α → Reply α) : Does (ret g) some :=
  does_read fun _ => Prog.comes_done rfl

theorem does_write {g : Shared ι α → Shared ι α} {f : Logs → Logs}
    (h : ∀ d, (g d).logs = f d.logs) : Does (write g) fun logs => some (f logs) :=
  fun d => Prog.comes_act (Prog.comes_done (h d))

theorem comes_guarded {mode : Mode} {k : Lock} {body : Code ι α} {o : Option Logs}
    (h : body.Comes Shared.logs d o) : (guarded mode k body).Comes Shared.logs d o := by
  have hscope : (guarded mode k body).Comes Shared.logs d (o.bind some) :=
    Prog.comes_scope h fun _ _ _ => Prog.comes_done rfl
  rw [Option.bind_fun_some] at hscope
  exact hscope

theorem does_guarded {mode : Mode} {k : Lock} {body : Code ι α} {f : Logs → Option Logs}
    (h : Does body f) : Does (guarded mode k body) f := fun d => comes_guarded (h d)

theorem does_ite {cond : Prop} [Decidable cond] {yes no : Code ι α} {f : Logs → Option Logs}
    (hyes : Does yes f) (hno : Does no f) : Does (if cond then yes else no) f := by
  split
  · exact hyes
  · exact hno

theorem does_andThen {code : Code ι α} {more : Reply α → Code ι α} {f g : Logs → Option Logs}
    (h : Does code f) (hmore : ∀ r, Does (more r) g) :
    Does (code.andThen more) fun logs => (f logs).bind g :=
  fun d => Prog.comes_andThen (h d) fun d' r _ => hmore r d'

theorem does_each {A : Type} {code : A → Code ι α} {g : A → Logs → Option Logs} {as : List A}
    (hcode : ∀ a ∈ as, Does (code a) (g a)) (r : Reply α) :
    Does (.each code as fun _ => .done r) fun logs =>
      as.foldlM (fun logs a => g a logs) logs := by
  intro d
  have heach : (Prog.each code as fun _ => .done r).Comes Shared.logs d
      ((as.foldlM (fun logs a => g a logs) d.logs).bind some) :=
    Prog.comes_each hcode fun _ _ _ => Prog.comes_done rfl
  rw [Option.bind_fun_some] at heach
  exact heach

theorem foldlM_some {S A : Type} (f : S → A → S) (s : S) (as : List A) :
    as.foldlM (fun s a => some (f s a)) s = some (as.foldl f s) := List.foldlM_pure

variable (out : Outside ι α)

/-! ## Logging -/

theorem FileLogAppender.reopen_does (p : Nat) : Does (FileLogAppender.reopen p : Code ι α) some :=
  does_guarded (does_write (f := id) fun _ => rfl)

namespace LoggerAppender

theorem withFormater_does {p : Nat} {g : Shared ι α → Shared ι α} (hg : ∀ d, (g d).logs = d.logs) :
    Does (withFormater p (write g)) fun logs => (logs.appenders p).mFormater.map fun _ => logs := by
  intro d
  dsimp only
  cases hformatter : (d.logs.appenders p).mFormater with
  | none => exact Prog.comes_check (fun htest => by simp [hformatter] at htest) fun _ _ => rfl
  | some formatter =>
      exact Prog.comes_check (fun _ => does_write (f := id) hg d)
        fun f htest => by simp [hformatter] at htest

theorem log_does (p : Nat) (level : LogLevel) (event : LogEvent) :
    Does (log out p level event) (·.logAppender p level) := by
  refine does_read fun d => ?_
  cases (d.logs.appenders p).output with
  | stdout =>
      refine does_read (f := (·.logAppender p level)) (fun d => ?_) d
      dsimp only [Logs.logAppender]
      split
      · exact does_guarded (withFormater_does (g := fun d : Shared ι α =>
          { d with cout := d.cout ++ format out d p level event }) fun _ => rfl) d
      · exact Prog.comes_done rfl
  | file name =>
      have hformats : Does (guarded .exclusive (.appender p) <| withFormater p <|
          write fun d : Shared ι α => { d with
            m_filestream := Function.update d.m_filestream p
              (d.m_filestream p ++ format out d p level event) })
          fun logs => (logs.appenders p).mFormater.map fun _ => logs :=
        does_guarded (withFormater_does fun _ => rfl)
      refine does_read (f := (·.logAppender p level)) (fun d => ?_) d
      dsimp only [Logs.logAppender]
      split
      · refine Prog.comes_act (Prog.comes_act ?_)
        refine does_andThen (f := some) (does_ite ?_ (does_done _)) (fun r => hformats) d
        exact does_andThen (g := some) (FileLogAppender.reopen_does p)
          fun r => does_write (f := id) fun _ => rfl
      · exact Prog.comes_done rfl

end LoggerAppender

namespace Logger

theorem logOr_comes {fallback : Code ι α} {o : Option Logs} (name : Bytes) (level : LogLevel)
    (event : LogEvent) (h : fallback.Comes Shared.logs d o) :
    (logOr out fallback name level event).Comes Shared.logs d (d.logs.logOr o name level) := by
  refine Prog.comes_act (Prog.comes_ite (fun _ => comes_guarded (Prog.comes_act ?_))
    fun _ => Prog.comes_done rfl)
  refine Prog.comes_ite (fun _ => ?_) fun _ => h
  exact does_each (fun it _ => LoggerAppender.log_does out it level event) .none d

theorem log_does (name : Bytes) (level : LogLevel) (event : LogEvent) :
    Does (log out name level event) (·.log name level) := by
  refine fun d => logOr_comes out name level event ?_
  exact Prog.comes_ite (fun _ => Prog.comes_done rfl)
    fun _ => logOr_comes out root level event (Prog.comes_done rfl)

/-- The level is looked at twice. -/
theorem statement_does (name : Bytes) (level : LogLevel) (text : Bytes) :
    Does (statement out name level text) (·.log name level) := by
  refine does_read fun d => ?_
  by_cases hlevel : d.levelOf name ≤ level.value
  · rw [if_pos hlevel]
    exact log_does out name level _ d
  · have hsilent : d.logs.log name level = some d.logs := if_neg hlevel
    rw [if_neg hlevel, hsilent]
    exact Prog.comes_done rfl

end Logger

/-! ## Loggers and appenders -/

theorem newAppender_leads (output : Output) (d : Shared ι α) :
    (newAppender output).Leads d fun d' r =>
      d'.logs = d.logs.newAppender output ∧ r = .ptr (some d.logs.size) := by
  refine Prog.leads_act ?_
  cases output with
  | stdout => exact Prog.leads_done ⟨rfl, rfl⟩
  | file name =>
      exact Prog.leads_andThen (FileLogAppender.reopen_does d.logs.size _) fun _ _ hd =>
        Prog.leads_done ⟨hd, rfl⟩

theorem newAppender_does (output : Output) :
    Does (newAppender output : Code ι α) fun logs => some (logs.newAppender output) :=
  fun d => (newAppender_leads output d).mono fun _ _ h => h.1

theorem LogManger.getLogger_does (name : Bytes) :
    Does (LogManger.getLogger name : Code ι α) fun logs => some (logs.getLogger name) :=
  does_guarded (does_write fun _ => rfl)

namespace LoggerAppender

theorem setLevel_does (p : Nat) (level : Log.LogLevel) :
    Does (setLevel p level : Code ι α) fun logs => some (logs.setAppenderLevel p level) :=
  does_write fun _ => rfl

theorem setFormatter_does (p : Nat) (val : Option LoggerFormatter) :
    Does (setFormatter p val : Code ι α) fun logs => some (logs.setAppenderFormatter p val) :=
  does_guarded (does_write fun _ => rfl)

end LoggerAppender

namespace Logger

theorem setLevel_does (name : Bytes) (val : Nat) :
    Does (setLevel name val : Code ι α) fun logs => some (logs.setLevel name val) :=
  does_write fun _ => rfl

theorem clearAppender_does (name : Bytes) :
    Does (clearAppender name : Code ι α) fun logs => some (logs.clearAppender name) :=
  does_guarded (does_write fun _ => rfl)

theorem pointers_modify (logs : Logs) (name : Bytes) (val : Option LoggerFormatter) :
    (logs.modify name fun logger => { logger with mFormatter := val }).pointers name =
      logs.pointers name := by
  simp only [Logs.pointers, Logs.modify, Function.update_self]
  cases logs.mLoggers name <;> rfl

theorem setFormatter_does (name : Bytes) (val : Option LoggerFormatter) :
    Does (setFormatter name val : Code ι α) fun logs => some (logs.setFormatter name val) := by
  refine does_guarded fun d => Prog.comes_act ?_
  have hfollows : ∀ i ∈ d.logs.pointers name,
      Does (guarded .exclusive (.appender i) <|
        write (·.onLogs (·.modifyAppender i (Logs.followFormatter val))) : Code ι α)
        fun logs => some (logs.modifyAppender i (Logs.followFormatter val)) :=
    fun i _ => does_guarded (does_write fun _ => rfl)
  have heach := does_each hfollows .none
    (d.onLogs (·.modify name fun logger => { logger with mFormatter := val }))
  simp only [foldlM_some] at heach
  dsimp only [Logs.setFormatter]
  rw [pointers_modify]
  exact heach

theorem addAppender_does (name : Bytes) (appender : Nat) :
    Does (addAppender name appender : Code ι α) fun logs =>
      some (logs.addAppender name appender) := by
  refine does_guarded fun d => ?_
  have hformatter : (LoggerAppender.getForamter appender : Code ι α).Leads d fun d' r =>
      d' = d ∧ r = .formatter (d.logs.appenders appender).mFormater :=
    Prog.leads_scope (Prog.leads_act (Prog.leads_done ⟨rfl, rfl⟩)) fun d' r h => Prog.leads_done h
  refine Prog.leads_andThen hformatter ?_
  rintro d' _ ⟨rfl, rfl⟩
  cases hgiven : (d'.logs.appenders appender).mFormater with
  | some formatter =>
      refine Prog.leads_act (Prog.leads_done ?_)
      simp [Shared.onLogs, Logs.addAppender, hgiven]
  | none =>
      have hgives : Does (guarded .exclusive (.appender appender) (write fun d : Shared ι α =>
          d.onLogs (·.modifyAppender appender fun a =>
            { a with mFormater := d.logs.formatterOf name })))
          fun logs => some (logs.modifyAppender appender fun a =>
            { a with mFormater := logs.formatterOf name }) :=
        does_guarded (does_write fun _ => rfl)
      refine Prog.leads_andThen (hgives d') fun d'' r hd'' => Prog.leads_act (Prog.leads_done ?_)
      simp [Shared.onLogs, Logs.addAppender, hgiven, hd'']

theorem setFormatterText_does (name val : Bytes) :
    Does (setFormatterText name val : Code ι α) fun logs =>
      some (logs.setFormatterText name val) := by
  intro d
  simp only [setFormatterText, Logs.setFormatterText]
  split
  · exact Prog.comes_done rfl
  · exact setFormatter_does name _ d

end Logger

/-- The operation on the loggers that a call is named after; `none` of it is a null pointer. -/
def Call.onLogs : Call ι α → Option (Logs → Option Logs)
  | .setLevel name val => some fun logs => some (logs.setLevel name val)
  | .setFormatter name val => some fun logs => some (logs.setFormatter name val)
  | .setFormatterText name val => some fun logs => some (logs.setFormatterText name val)
  | .addAppender name appender => some fun logs => some (logs.addAppender name appender)
  | .delAppender name appender => some fun logs => some (logs.delAppender name appender)
  | .clearAppender name => some fun logs => some (logs.clearAppender name)
  | .newAppender output => some fun logs => some (logs.newAppender output)
  | .setAppenderLevel p level => some fun logs => some (logs.setAppenderLevel p level)
  | .setAppenderFormatter p val => some fun logs => some (logs.setAppenderFormatter p val)
  | .getLogger name => some fun logs => some (logs.getLogger name)
  | .statement name level _ | .log name level _ => some (·.log name level)
  | .getFormatter _ | .getForamter _ | .reopen _ | .tick => some some
  | _ => none

theorem Call.does [DecidableEq ι] [DecidableEq α] {c : Call ι α} {f : Logs → Option Logs}
    (hc : c.onLogs = some f) : Does (c.code out) f := by
  cases c with
  | tick => cases hc; exact does_write (f := id) fun _ => rfl
  | statement => cases hc; exact Logger.statement_does out _ _ _
  | log => cases hc; exact Logger.log_does out _ _ _
  | setLevel => cases hc; exact Logger.setLevel_does _ _
  | setFormatter => cases hc; exact Logger.setFormatter_does _ _
  | setFormatterText => cases hc; exact Logger.setFormatterText_does _ _
  | getFormatter => cases hc; exact does_guarded (does_ret _)
  | addAppender => cases hc; exact Logger.addAppender_does _ _
  | delAppender => cases hc; exact does_guarded (does_write fun _ => rfl)
  | clearAppender => cases hc; exact Logger.clearAppender_does _
  | newAppender => cases hc; exact newAppender_does _
  | setAppenderLevel => cases hc; exact LoggerAppender.setLevel_does _ _
  | setAppenderFormatter => cases hc; exact LoggerAppender.setFormatter_does _ _
  | getForamter => cases hc; exact does_guarded (does_ret _)
  | reopen => cases hc; exact FileLogAppender.reopen_does _
  | getLogger => cases hc; exact LogManger.getLogger_does _
  | _ => cases hc

/-! ## The listener of the logs -/

/-- One program after the other does one operation after the other. -/
theorem does_cons {code : Code ι α} {codes : List (Code ι α)} {f g : Logs → Option Logs}
    (h : Does code f) (hrest : Does (inOrder codes) g) :
    Does (inOrder (code :: codes)) fun logs => (f logs).bind g :=
  does_andThen h fun _ => hrest

theorem does_nil : Does (inOrder [] : Code ι α) some := does_done _

/-- A loop of programs, and what is to be done behind it. -/
theorem does_map_append {A : Type} {code : A → Code ι α} {g : A → Logs → Option Logs}
    {more : List (Code ι α)} {f : Logs → Option Logs} (hcode : ∀ a, Does (code a) (g a))
    (hmore : Does (inOrder more) f) (as : List A) :
    Does (inOrder (as.map code ++ more)) fun logs =>
      (as.foldlM (fun logs a => g a logs) logs).bind f := by
  induction as with
  | nil => exact hmore
  | cons a as ih =>
      have hall := does_cons (hcode a) ih
      simp only [List.foldlM_cons, Option.bind_eq_bind, Option.bind_assoc]
      exact hall

theorem does_map {A : Type} {code : A → Code ι α} {g : A → Logs → Option Logs}
    (hcode : ∀ a, Does (code a) (g a)) (as : List A) :
    Does (inOrder (as.map code)) fun logs => as.foldlM (fun logs a => g a logs) logs := by
  have hall := does_map_append hcode does_nil as
  simp only [List.append_nil, Option.bind_fun_some] at hall
  exact hall

theorem does_null (f : Fault) : Does (null f : Code ι α) fun _ => none :=
  fun _ => Prog.comes_check (fun h => by cases h) fun _ _ => rfl

namespace LogIniter

theorem applyAppender_does (name : Bytes) (a : Log.LogAppenderDefine) :
    Does (applyAppender name a : Code ι α) fun logs => Logs.applyAppender name logs a := by
  intro d
  dsimp only [applyAppender, Logs.applyAppender]
  cases Logs.outputOf a with
  | none => exact does_null .ap d
  | some output =>
      refine Prog.comes_andThen_of_leads (newAppender_leads output d) ?_
      rintro d₁ _ ⟨hd₁, rfl⟩
      have hformatter : Does (if Logs.isFormatter a.formatter = true then
            LoggerAppender.setFormatter d.logs.size (some ⟨a.formatter⟩) else .done .none :
              Code ι α)
          fun logs => some (if Logs.isFormatter a.formatter = true then
            logs.setAppenderFormatter d.logs.size (some ⟨a.formatter⟩) else logs) := by
        split
        · exact LoggerAppender.setFormatter_does _ _
        · exact does_done _
      have hlevel := LoggerAppender.setLevel_does (ι := ι) (α := α) d.logs.size a.level
      have hall := does_cons hlevel (does_cons hformatter
        (does_cons (Logger.addAppender_does name d.logs.size) does_nil)) d₁
      rw [hd₁] at hall
      exact hall

theorem configure_does (i : Log.LogDefine) :
    Does (configure i : Code ι α) fun logs => (logs.getLogger i.name).configure i := by
  have hformatter : Does (if i.formatter ≠ [] then Logger.setFormatterText i.name i.formatter
        else .done .none : Code ι α)
      fun logs =>
        some (if i.formatter ≠ [] then logs.setFormatterText i.name i.formatter else logs) := by
    split
    · exact Logger.setFormatterText_does _ _
    · exact does_done _
  exact does_cons (LogManger.getLogger_does _) (does_cons (Logger.setLevel_does _ _)
    (does_cons hformatter (does_cons (Logger.clearAppender_does _)
      (does_map (applyAppender_does i.name) i.appenders))))

theorem applyDefine_does (old : Log.LogDefineSet) (i : Log.LogDefine) :
    Does (applyDefine old i : Code ι α) fun logs => Logs.applyDefine old logs i := by
  intro d
  dsimp only [applyDefine, Logs.applyDefine]
  cases hfind : old.find i with
  | none => exact configure_does i d
  | some it =>
      by_cases hsame : it = i
      · rw [hsame, if_pos rfl]
        simp only [ne_eq, not_true_eq_false, if_false]
        exact does_null .logger d
      · rw [if_neg fun heq => hsame (Option.some_inj.mp heq)]
        dsimp only
        rw [if_pos (Ne.symm hsame)]
        exact configure_does i d

theorem removeDefine_does (new : Log.LogDefineSet) (i : Log.LogDefine) :
    Does (removeDefine new i : Code ι α) fun logs => some (logs.removeDefine new i) := by
  unfold removeDefine Logs.removeDefine
  split
  · exact does_cons (LogManger.getLogger_does _) (does_cons (Logger.setLevel_does _ _)
      (does_cons (Logger.clearAppender_does _) does_nil))
  · exact does_done _

/-- The listener reloads the loggers. -/
theorem listener_does (old new : Log.LogDefineSet) :
    Does (listener out old new) fun logs => logs.reload old new := by
  have hall := does_cons (Logger.statement_does out root .INFO (ascii " on_logger_config change"))
    (does_map_append (applyDefine_does old)
      (does_map (removeDefine_does new) old.toList) new.toList)
  simp only [foldlM_some] at hall
  exact hall

end LogIniter

theorem part_onVariable {ptr : Nat} {v old : α} {cbs : List (Nat × Config.OnChangeCb α)}
    (h : part (.configVar ptr) d = some (old, cbs)) :
    part (.configVar ptr) (d.onVariable ptr fun var => { var with mVal := v }) = some (v, cbs) := by
  obtain ⟨base, hbase, hvar⟩ := Option.map_eq_some_iff.mp h
  cases hvar
  simp [part, Shared.onVariable, Interned.modify, hbase]

namespace ConfigVar

variable {out} {ptr : Nat} {v : α} {f : Nat → Logs → Option Logs}
  {base : Config.Variable fun _ : ι => α}

theorem tell_does {T : ι} {m_val : α} {i : Nat × Config.OnChangeCb α} {g : Logs → Option Logs}
    (hreturns : i.2 m_val v = true) (h : Does (out.listener T i.1 m_val v) g) :
    Does (tell out T v m_val i) g := by
  intro d
  have hdone : ∀ r : Reply α, Does (if i.2 m_val v then .done .none
      else .throw (.text (out.what i.1)) : Code ι α) some := by
    intro r
    rw [if_pos hreturns]
    exact does_done _
  have hthen := does_andThen h hdone d
  simp only [Option.bind_fun_some] at hthen
  exact hthen

variable [DecidableEq α]

/-- A new value of a variable whose listeners return: they do in turn what each of them does, and
the value is stored beside them. -/
theorem setValue_leads (hlisteners : out.ListenersDisciplined)
    (hbase : d.datas.cells[ptr]? = some base) (hnew : v ≠ base.var.mVal)
    (hreturns : ∀ i ∈ base.var.mCbs, i.2 base.var.mVal v = true)
    (hdo : ∀ i ∈ base.var.mCbs, Does (out.listener base.T i.1 base.var.mVal v) (f i.1))
    {logs : Logs} (htold : base.var.mCbs.foldlM (fun logs i => f i.1 logs) d.logs = some logs) :
    (setValue out ptr v).Leads d fun d' _ =>
      d'.logs = logs ∧ part (.configVar ptr) d' = some (v, base.var.mCbs) := by
  refine Prog.leads_scope (P := fun d' r => (d'.logs = logs ∧ r = .flag false) ∧
    part (.configVar ptr) d' = some (base.var.mVal, base.var.mCbs)) (Prog.Leads.and ?_ ?_) ?_
  · refine Prog.leads_act ?_
    dsimp only [id]
    rw [hbase]
    dsimp only
    rw [if_neg hnew]
    refine Prog.leads_each (l := Shared.logs) (g := fun logs i => f i.1 logs)
      (fun i hi => tell_does (hreturns i hi) (hdo i hi)) htold fun rs d' hd' => ?_
    exact Prog.leads_done ⟨hd', rfl⟩
  · -- the listeners run while the variable is locked, and write nothing of it
    have hbody := (ConfigVar.setValue_disciplined out hlisteners ptr v).2.1
    refine hbody.part_eval List.mem_cons_self (by simp) ?_
    rw [part, hbase]
    rfl
  · rintro d' _ ⟨⟨hd', rfl⟩, hpart⟩
    refine Prog.leads_scope (P := fun d'' _ => d''.logs = logs ∧
      part (.configVar ptr) d'' = some (v, base.var.mCbs)) ?_ fun d'' _ hd'' => Prog.leads_done hd''
    exact Prog.leads_act (Prog.leads_done ⟨hd', part_onVariable hpart⟩)

theorem setValue_fault (hbase : d.datas.cells[ptr]? = some base) (hnew : v ≠ base.var.mVal)
    (hreturns : ∀ i ∈ base.var.mCbs, i.2 base.var.mVal v = true)
    (hdo : ∀ i ∈ base.var.mCbs, Does (out.listener base.T i.1 base.var.mVal v) (f i.1))
    (htold : base.var.mCbs.foldlM (fun logs i => f i.1 logs) d.logs = none) :
    ∃ e, (setValue out ptr v).eval d = .error e := by
  have hbody := does_each (fun i hi => tell_does (hreturns i hi) (hdo i hi)) (.flag false) d
  dsimp only at hbody
  rw [htold] at hbody
  obtain ⟨e, he⟩ := hbody
  refine ⟨e, ?_⟩
  simp only [setValue, Prog.eval, Prog.read, id, hbase, if_neg hnew, he]

end ConfigVar

end

/-! ## Runs -/

section

variable {ι α W : Type} [DecidableEq ι] [DecidableEq α] [DecidableEq W] {out : Outside ι α}
  {d : Shared ι α} {s : State W (Shared ι α) Lock (Reply α) Fault} {acts : List (Act W (Call ι α))}

/-- A call returns that no other call interferes with. -/
def Returns (out : Outside ι α) (s : State W (Shared ι α) Lock (Reply α) Fault) (w : W)
    (c : Call ι α) (P : Shared ι α → Prop) : Prop :=
  ∃ acts s', (∀ a ∈ acts, a = .step w) ∧
    (machine (Call.code out)).run s (.call w c :: acts) = some s' ∧ P s'.value ∧
      ∀ u, (s'.threads u).idle = true

/-- It comes to a null pointer. -/
def Crashes (out : Outside ι α) (s : State W (Shared ι α) Lock (Reply α) Fault) (w : W)
    (c : Call ι α) : Prop :=
  ∃ acts s' f, (∀ a ∈ acts, a = .step w) ∧
    (machine (Call.code out)).run s (.call w c :: acts) = some s' ∧
      (machine (Call.code out)).exec s' (.step w) = .error f ∧ Null f s'.value

theorem returns_of_leads (hlisteners : out.ListenersDisciplined)
    (hrun : (machine (Call.code out)).run (start d) acts = some s)
    (hidle : ∀ u, (s.threads u).idle = true) {w : W} {c : Call ι α} {P : Shared ι α → Prop}
    (hc : (c.code out).Leads s.value fun d' _ => P d') : Returns out s w c P := by
  have hcalls := Call.disciplined out hlisteners
  obtain ⟨acts', s', hacts', hrun', ⟨r, hP⟩, hends⟩ :=
    (valid_of_run hcalls hrun).exists_run_of_leads hcalls hidle w hc
  exact ⟨acts', s', hacts', hrun', hP, hends⟩

theorem crashes_of_fault (hlisteners : out.ListenersDisciplined)
    (hrun : (machine (Call.code out)).run (start d) acts = some s)
    (hidle : ∀ u, (s.threads u).idle = true) {w : W} {c : Call ι α}
    (hc : ∃ f, (c.code out).eval s.value = .error f) : Crashes out s w c := by
  have hcalls := Call.disciplined out hlisteners
  obtain ⟨f, hf⟩ := hc
  obtain ⟨acts', s', hacts', hrun', hexec, hnull⟩ :=
    (valid_of_run hcalls hrun).exists_fault hcalls hidle w hf
  exact ⟨acts', s', f, hacts', hrun', hexec, hnull⟩

end

section

variable {ι α W : Type} [DecidableEq ι] [DecidableEq α] [DecidableEq W] {out : Outside ι α}
  {d : Shared ι α} {s : State W (Shared ι α) Lock (Reply α) Fault} {acts : List (Act W (Call ι α))}

/-- A new value of the variable that `LogIniter` listens to: its listeners are told in turn, that of
`LogIniter` reloads the loggers, and the value is stored beside the listeners; if there is a null
pointer on the way, the call comes to it. -/
theorem setValue_reloads (hlisteners : out.ListenersDisciplined)
    (hrun : (machine (Call.code out)).run (start d) acts = some s)
    (hidle : ∀ u, (s.threads u).idle = true) (w : W) {ptr key : Nat} {v : α}
    {base : Config.Variable fun _ : ι => α} {old new : Log.LogDefineSet}
    (hbase : s.value.datas.cells[ptr]? = some base) (hnew : v ≠ base.var.mVal)
    (hreturns : ∀ i ∈ base.var.mCbs, i.2 base.var.mVal v = true)
    (hlogs : out.listener base.T key base.var.mVal v = LogIniter.listener out old new)
    {others : Nat → Logs → Option Logs}
    (hothers : ∀ i ∈ base.var.mCbs, i.1 ≠ key →
      Does (out.listener base.T i.1 base.var.mVal v) (others i.1)) :
    (∀ logs, base.var.mCbs.foldlM (fun logs i =>
          if i.1 = key then logs.reload old new else others i.1 logs) s.value.logs = some logs →
        Returns out s w (.setValue ptr v) fun d =>
          d.logs = logs ∧ part (.configVar ptr) d = some (v, base.var.mCbs)) ∧
      (base.var.mCbs.foldlM (fun logs i =>
          if i.1 = key then logs.reload old new else others i.1 logs) s.value.logs = none →
        Crashes out s w (.setValue ptr v)) := by
  have hdo : ∀ i ∈ base.var.mCbs, Does (out.listener base.T i.1 base.var.mVal v) fun logs =>
      if i.1 = key then logs.reload old new else others i.1 logs := by
    intro i hi
    by_cases hkey : i.1 = key
    · simp only [hkey, if_true, hlogs]
      exact LogIniter.listener_does out old new
    · simp only [hkey, if_false]
      exact hothers i hi hkey
  refine ⟨fun logs htold => ?_, fun htold => ?_⟩
  · exact returns_of_leads hlisteners hrun hidle (ConfigVar.setValue_leads
      (f := fun k logs => if k = key then logs.reload old new else others k logs)
      hlisteners hbase hnew hreturns hdo htold)
  · exact crashes_of_fault hlisteners hrun hidle (ConfigVar.setValue_fault
      (f := fun k logs => if k = key then logs.reload old new else others k logs)
      hbase hnew hreturns hdo htold)

end

/-- No definitions, or one. -/
def definesOf (n : Nat) : Log.LogDefineSet :=
  if n = 0 then .empty
  else RankedMap.empty.insert ⟨ascii "system", .ERROR, [], [⟨1, .ERROR, [], []⟩]⟩ ()

/-- The listener of the logs is the first one, and another sets a level. -/
def reloading : Outside Unit Nat :=
  { levels with
    listener := fun T key old new =>
      if key = 1 then LogIniter.listener levels (definesOf old) (definesOf new)
      else levels.listener T key old new }

theorem reloading_disciplined : reloading.ListenersDisciplined := by
  intro T key old new ptr
  by_cases hkey : key = 1
  · simp only [reloading, if_pos hkey]
    exact LogIniter.listener_disciplined levels _ _ ptr
  · simp only [reloading, if_neg hkey]
    exact levels_disciplined T key old new ptr

def logsVariable : Config.Variable fun _ : Unit => Nat :=
  ⟨(), ⟨ascii "logs", 0, [(1, fun _ _ => true), (2, fun _ _ => true)]⟩, ascii "logs config"⟩

def logsRegistered : State Bool (Shared Unit Nat) Lock (Reply Nat) Fault :=
  start { (Shared.start : Shared Unit Nat) with
    datas := Interned.empty.add (ascii "logs") logsVariable }

/-- What the other listener does. -/
def setsLevel (_ : Nat) (logs : Logs) : Option Logs :=
  some ((logs.getLogger (ascii "system")).setLevel (ascii "system") 1)

theorem levels_does (key : Nat) : Does (levels.listener () key 0 1) (setsLevel key) := by
  exact does_cons (LogManger.getLogger_does _) (does_cons (Logger.setLevel_does _ _) does_nil)

theorem setValue_reloads_one :
    ∃ logs, Logs.reload (definesOf 0) (definesOf 1) Logs.start = some logs ∧
      Returns reloading logsRegistered true (.setValue 0 1) fun d =>
        some d.logs = setsLevel 2 logs ∧
          part (.configVar 0) d = some (1, logsVariable.var.mCbs) := by
  have hrun : (machine (Call.code reloading)).run logsRegistered [] = some logsRegistered := rfl
  have hbase : logsRegistered.value.datas.cells[0]? = some logsVariable := rfl
  have hnew : 1 ≠ logsVariable.var.mVal := by decide
  have hreturns : ∀ i ∈ logsVariable.var.mCbs, i.2 logsVariable.var.mVal 1 = true := by
    simp [logsVariable]
  have hlogs : reloading.listener () 1 0 1 =
      LogIniter.listener reloading (definesOf 0) (definesOf 1) := rfl
  have hothers : ∀ i ∈ logsVariable.var.mCbs, i.1 ≠ 1 →
      Does (reloading.listener () i.1 0 1) (setsLevel i.1) := by
    intro i hi hkey
    simp only [logsVariable, List.mem_cons, List.not_mem_nil, or_false] at hi
    rcases hi with rfl | rfl
    · exact absurd rfl hkey
    · exact levels_does 2
  obtain ⟨acts, s, hacts, hacts', hlogs', hidle⟩ :=
    (setValue_reloads reloading_disciplined hrun (fun _ => rfl) true hbase hnew hreturns hlogs
      hothers).1 _ rfl
  exact ⟨_, rfl, acts, s, hacts, hacts', ⟨congrArg some hlogs'.1, hlogs'.2⟩, hidle⟩

end Qslary.Locks

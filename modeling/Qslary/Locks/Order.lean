import Qslary.Foundation.LockRuns
import Qslary.Locks.Model

/-!
# The order of the locks

Every call takes its locks in the order registry, variable, manager, logger, root and appender,
and writes what a lock protects while it has that lock for itself.  So every call comes to its
end, in whatever order the threads go on, if none goes through a null pointer.
-/

namespace Qslary.Locks

open Qslary.Foundation Qslary.Foundation.ScopedLocks
open Qslary.Config (Node OnChangeCb listAllMember)
open Qslary.Log (LogLevel LogEvent LoggerFormatter Logs Output)

def rank : Lock → Nat
  | .registry => 0
  | .configVar _ => 1
  | .manager => 2
  | .logger name => if name = root then 4 else 3
  | .appender _ => 5

theorem rank_le (k : Lock) : rank k ≤ 5 := by
  cases k <;> simp [rank]
  split <;> decide

section

variable {ι α : Type}

abbrev Part (α : Type) : Lock → Type
  | .registry => Bytes → Option Nat
  | .configVar _ => α × List (Nat × OnChangeCb α)
  | .manager => RankedMap (List.map UInt8.toNat) Unit
  | .logger _ => List Nat × Option LoggerFormatter
  | .appender _ => Option LoggerFormatter × Bool × Bytes

/-- What a lock protects, where it is there: of a logger and of an appender not its level, and of
an appender not the second of its last record. -/
def part : ∀ k, Shared ι α → Option (Part α k)
  | .registry, d => some d.datas.index
  | .configVar ptr, d => d.datas.cells[ptr]?.map fun base => (base.var.mVal, base.var.mCbs)
  | .manager, d => some d.names
  | .logger name, d => (d.logs.mLoggers name).map fun logger =>
      (logger.mAppenders, logger.mFormatter)
  | .appender p, d =>
      if p < d.logs.size then
        some ((d.logs.appenders p).mFormater, (d.logs.appenders p).mHasFormatter,
          d.m_filestream p)
      else none

/-- What a fault says of what it was found in. -/
def Null : Fault → Shared ι α → Prop
  | .formatter p, d => (d.logs.appenders p).mFormater = none
  | .logger, _ | .ap, _ => True

/-! ## Writes -/

/-- What other locks protect stays. -/
def WritesOnly (k : Lock) (f : Shared ι α → Shared ι α) : Prop :=
  ∀ k' d x, k' ≠ k → part k' d = some x → part k' (f d) = some x

/-- Whatever a lock protects stays. -/
def WritesNone (f : Shared ι α → Shared ι α) : Prop :=
  ∀ k d x, part k d = some x → part k (f d) = some x

variable {f : Shared ι α → Shared ι α} {around : List (Lock × Mode)} {k : Lock}

theorem WritesOnly.keeps (h : WritesOnly k f) (hk : (k, .exclusive) ∈ around) :
    Keeps part around f := by
  intro k' d x hk' hx
  refine h k' d x ?_ hx
  rintro rfl
  exact hk' hk

theorem WritesNone.keeps (h : WritesNone f) : Keeps part around f := fun k d x _ hx => h k d x hx

theorem writesNone_of_eq (h : ∀ k d, part k (f d) = part k d) : WritesNone f := by
  intro k d x hx
  rw [h, hx]

theorem writesOnly_modify (name : Bytes) (g : Log.Logger → Log.Logger) :
    WritesOnly (.logger name) fun d : Shared ι α => d.onLogs (·.modify name g) := by
  intro k d x hk hx
  cases k with
  | logger other =>
      have hne : other ≠ name := fun heq => hk (heq ▸ rfl)
      simpa [part, Shared.onLogs, Logs.modify, hne] using hx
  | _ => exact hx

theorem writesOnly_modifyAppender (p : Nat) (g : Log.LoggerAppender → Log.LoggerAppender) :
    WritesOnly (.appender p) fun d : Shared ι α => d.onLogs (·.modifyAppender p g) := by
  intro k d x hk hx
  cases k with
  | appender other =>
      have hne : other ≠ p := fun heq => hk (heq ▸ rfl)
      simpa [part, Shared.onLogs, Logs.modifyAppender, hne] using hx
  | _ => exact hx

theorem writesNone_setLevel (name : Bytes) (val : Nat) :
    WritesNone fun d : Shared ι α => d.onLogs (·.setLevel name val) := by
  refine writesNone_of_eq fun k d => ?_
  cases k with
  | logger other =>
      by_cases hname : other = name
      · subst hname
        cases hlogger : d.logs.mLoggers other <;>
          simp [part, Shared.onLogs, Logs.setLevel, Logs.modify, hlogger]
      · simp [part, Shared.onLogs, Logs.setLevel, Logs.modify, hname]
  | _ => rfl

theorem writesNone_setAppenderLevel (p : Nat) (level : LogLevel) :
    WritesNone fun d : Shared ι α => d.onLogs (·.setAppenderLevel p level) := by
  refine writesNone_of_eq fun k d => ?_
  cases k with
  | appender other =>
      by_cases hp : other = p
      · subst hp
        simp [part, Shared.onLogs, Logs.setAppenderLevel, Logs.modifyAppender]
      · simp [part, Shared.onLogs, Logs.setAppenderLevel, Logs.modifyAppender, hp]
  | _ => rfl

theorem writesOnly_filestream (p : Nat) (g : Shared ι α → Bytes) :
    WritesOnly (.appender p) fun d : Shared ι α =>
      { d with m_filestream := Function.update d.m_filestream p (g d) } := by
  intro k d x hk hx
  cases k with
  | appender other =>
      have hne : other ≠ p := fun heq => hk (heq ▸ rfl)
      simpa [part, hne] using hx
  | _ => exact hx

/-- A new appender is at an address that was free. -/
theorem writesNone_newAppender (output : Output) :
    WritesNone fun d : Shared ι α => { d.onLogs (·.newAppender output) with
      m_filestream := Function.update d.m_filestream d.logs.size [] } := by
  intro k d x hx
  cases k with
  | appender p =>
      simp only [part, Option.ite_none_right_eq_some] at hx
      have hne : p ≠ d.logs.size := hx.1.ne
      have hlt : p < d.logs.size + 1 := by omega
      simp only [part, Shared.onLogs, Logs.newAppender, Function.update_of_ne hne, if_pos hlt]
      exact hx.2
  | _ => exact hx

theorem writesOnly_getLogger (name : Bytes) :
    WritesOnly .manager fun d : Shared ι α =>
      { d.onLogs (·.getLogger name) with names := d.names.insert name () } := by
  intro k d x hk hx
  cases k with
  | manager => exact absurd rfl hk
  | logger other =>
      simp only [part, Shared.onLogs, Logs.getLogger] at hx ⊢
      split
      · exact hx
      · have hne : other ≠ name := by
          rintro rfl
          simp_all
        simp only [Function.update_of_ne hne]
        exact hx
  | appender p =>
      simp only [part, Shared.onLogs, Logs.getLogger] at hx ⊢
      split <;> exact hx
  | _ => exact hx

theorem writesOnly_onVariable (ptr : Nat) (g : Config.ConfigVar α → Config.ConfigVar α) :
    WritesOnly (.configVar ptr) fun d : Shared ι α => d.onVariable ptr g := by
  intro k d x hk hx
  cases k with
  | configVar other =>
      have hne : ptr ≠ other := fun heq => hk (heq ▸ rfl)
      simpa [part, Shared.onVariable, Interned.modify, List.getElem?_modify, hne] using hx
  | _ => exact hx

/-- A variable that is there stays when another is registered. -/
theorem writesOnly_add (name : Bytes) (base : Config.Variable fun _ : ι => α) :
    WritesOnly .registry fun d : Shared ι α => { d with datas := d.datas.add name base } := by
  intro k d x hk hx
  cases k with
  | registry => exact absurd rfl hk
  | configVar ptr =>
      simp only [part, Option.map_eq_some_iff] at hx ⊢
      obtain ⟨found, hfound, rfl⟩ := hx
      refine ⟨found, ?_, rfl⟩
      rw [Interned.cells_add, List.getElem?_append_left (List.getElem?_eq_some_iff.mp hfound).1]
      exact hfound
  | _ => exact hx

/-! ## Scopes -/

/-- All locks of the scopes around are below a rank. -/
def Below (n : Nat) (around : List (Lock × Mode)) : Prop := ∀ l ∈ around, rank l.1 < n

theorem below_nil (n : Nat) : Below n [] := nofun

theorem Below.mono {m n : Nat} (h : Below m around) (hmn : m ≤ n) : Below n around :=
  fun l hl => (h l hl).trans_le hmn

theorem Below.cons {n : Nat} {mode : Mode} (h : Below (rank k) around) (hk : rank k < n) :
    Below n ((k, mode) :: around) := by
  intro l hl
  rcases List.mem_cons.mp hl with rfl | hl
  · exact hk
  · exact (h l hl).trans hk

abbrev Code.Disciplined (code : Code ι α) (around : List (Lock × Mode)) : Prop :=
  Prog.Disciplined rank part Null around code

theorem disciplined_done (r : Reply α) : Code.Disciplined (.done r : Code ι α) around := trivial

theorem disciplined_read {next : Shared ι α → Code ι α}
    (h : ∀ d, (next d).Disciplined around) : Code.Disciplined (.read next) around :=
  ⟨keeps_id around, h⟩

theorem disciplined_ret (g : Shared ι α → Reply α) : (ret g).Disciplined around :=
  disciplined_read fun _ => trivial

theorem disciplined_write (hf : Keeps part around f) : (write f).Disciplined around :=
  ⟨hf, fun _ => trivial⟩

theorem disciplined_guarded {mode : Mode} {body : Code ι α} (h : Below (rank k) around)
    (hbody : body.Disciplined ((k, mode) :: around)) : (guarded mode k body).Disciplined around :=
  ⟨h, hbody, fun _ => trivial⟩

/-- A function that writes what its guard is for. -/
theorem disciplined_guarded_write (h : Below (rank k) around) (hf : WritesOnly k f) :
    (guarded .exclusive k (write f)).Disciplined around :=
  disciplined_guarded h (disciplined_write (hf.keeps List.mem_cons_self))

theorem disciplined_ite {cond : Prop} [Decidable cond] {yes no : Code ι α}
    (hyes : yes.Disciplined around) (hno : no.Disciplined around) :
    Code.Disciplined (if cond then yes else no) around := by
  split
  · exact hyes
  · exact hno

theorem disciplined_null {f : Fault} (hf : ∀ d : Shared ι α, Null f d) :
    (null f : Code ι α).Disciplined around :=
  ⟨fun _ d hg => Option.some_inj.mp hg ▸ hf d, trivial⟩

theorem disciplined_inOrder {codes : List (Code ι α)}
    (h : ∀ code ∈ codes, code.Disciplined around) : (inOrder codes).Disciplined around :=
  Prog.disciplined_each h fun _ => trivial

/-! ## Appenders -/

variable (out : Outside ι α)

namespace LoggerAppender

theorem setFormatter_disciplined (h : Below 5 around) (p : Nat) (val : Option LoggerFormatter) :
    (setFormatter p val : Code ι α).Disciplined around :=
  disciplined_guarded_write h (writesOnly_modifyAppender p _)

theorem getForamter_disciplined (h : Below 5 around) (p : Nat) :
    (getForamter p : Code ι α).Disciplined around := disciplined_guarded h (disciplined_ret _)

theorem setLevel_disciplined (p : Nat) (level : LogLevel) :
    (setLevel p level : Code ι α).Disciplined around :=
  disciplined_write (writesNone_setAppenderLevel p level).keeps

theorem toYamlString_disciplined (h : Below 5 around) (p : Nat) :
    (toYamlString out p).Disciplined around := disciplined_guarded h (disciplined_ret _)

end LoggerAppender

theorem LoggerAppender.withFormater_disciplined {p : Nat} {code : Code ι α}
    (h : code.Disciplined around) : (LoggerAppender.withFormater p code).Disciplined around := by
  refine ⟨fun f d hf => ?_, h⟩
  dsimp only at hf
  split at hf
  · rename_i hnull
    cases hf
    exact Option.isNone_iff_eq_none.mp hnull
  · cases hf

theorem FileLogAppender.reopen_disciplined (h : Below 5 around) (p : Nat) :
    (FileLogAppender.reopen p : Code ι α).Disciplined around :=
  disciplined_guarded_write h (writesOnly_filestream p _)

theorem StdoutLogAppender.log_disciplined (h : Below 5 around) (p : Nat) (level : LogLevel)
    (event : LogEvent) : (StdoutLogAppender.log out p level event).Disciplined around := by
  refine disciplined_read fun d => disciplined_ite ?_ trivial
  refine disciplined_guarded h (LoggerAppender.withFormater_disciplined ?_)
  refine disciplined_write (WritesNone.keeps ?_)
  exact writesNone_of_eq fun k d => by cases k <;> rfl

theorem FileLogAppender.log_disciplined (h : Below 5 around) (p : Nat) (level : LogLevel)
    (event : LogEvent) : (FileLogAppender.log out p level event).Disciplined around := by
  refine disciplined_read fun d => disciplined_ite ?_ trivial
  refine disciplined_read fun d => disciplined_read fun d => ?_
  refine Prog.Disciplined.andThen ?_ fun r => ?_
  · refine disciplined_ite ((FileLogAppender.reopen_disciplined h p).andThen fun r => ?_) trivial
    exact disciplined_write (writesNone_of_eq fun k d => by cases k <;> rfl).keeps
  · refine disciplined_guarded h (LoggerAppender.withFormater_disciplined ?_)
    exact disciplined_write ((writesOnly_filestream p _).keeps List.mem_cons_self)

theorem LoggerAppender.log_disciplined (h : Below 5 around) (p : Nat) (level : LogLevel)
    (event : LogEvent) : (LoggerAppender.log out p level event).Disciplined around := by
  refine disciplined_read fun d => ?_
  cases (d.logs.appenders p).output with
  | stdout => exact StdoutLogAppender.log_disciplined out h p level event
  | file name => exact FileLogAppender.log_disciplined out h p level event

theorem newAppender_disciplined (h : Below 5 around) (output : Output) :
    (newAppender output : Code ι α).Disciplined around := by
  refine ⟨(writesNone_newAppender output).keeps, fun d => ?_⟩
  cases output with
  | stdout => exact trivial
  | file name => exact (FileLogAppender.reopen_disciplined h _).andThen fun r => trivial

/-! ## Loggers -/

theorem rank_logger (name : Bytes) : 3 ≤ rank (.logger name) ∧ rank (.logger name) < 5 := by
  simp only [rank]
  split <;> decide

namespace Logger

variable {name : Bytes}

theorem disciplined_guarded {body : Code ι α} (h : Below (rank (.logger name)) around)
    (hbody : Below 5 ((.logger name, .exclusive) :: around) →
      body.Disciplined ((.logger name, .exclusive) :: around)) :
    (guarded .exclusive (.logger name) body).Disciplined around :=
  Locks.disciplined_guarded h (hbody (h.cons (rank_logger name).2))

theorem logOr_disciplined {fallback : Code ι α} (h : Below (rank (.logger name)) around)
    (hfallback : fallback.Disciplined ((.logger name, .exclusive) :: around)) (level : LogLevel)
    (event : LogEvent) : (logOr out fallback name level event).Disciplined around := by
  refine disciplined_read fun d => disciplined_ite (disciplined_guarded h fun hinside => ?_) trivial
  refine disciplined_read fun d => disciplined_ite ?_ hfallback
  exact Prog.disciplined_each
    (fun it _ => LoggerAppender.log_disciplined out hinside it level event) fun _ => trivial

theorem log_disciplined (h : Below 3 around) (name : Bytes) (level : LogLevel) (event : LogEvent) :
    (log out name level event).Disciplined around := by
  have hname := h.mono (rank_logger name).1
  refine logOr_disciplined out hname ?_ level event
  by_cases hroot : name = root
  · rw [if_pos hroot]
    exact trivial
  · rw [if_neg hroot]
    refine logOr_disciplined out (hname.cons ?_) (disciplined_done _) level event
    simp [rank, hroot]

theorem statement_disciplined (h : Below 3 around) (name : Bytes) (level : LogLevel)
    (text : Bytes) : (statement out name level text).Disciplined around :=
  disciplined_read fun _ => disciplined_ite (log_disciplined out h name level _) trivial

theorem setLevel_disciplined (name : Bytes) (val : Nat) :
    (setLevel name val : Code ι α).Disciplined around :=
  disciplined_write (writesNone_setLevel name val).keeps

theorem setFormatter_disciplined (h : Below 3 around) (name : Bytes)
    (val : Option LoggerFormatter) : (setFormatter name val : Code ι α).Disciplined around := by
  refine disciplined_guarded (h.mono (rank_logger name).1) fun hinside => ?_
  refine ⟨(writesOnly_modify name _).keeps List.mem_cons_self, fun d => ?_⟩
  exact Prog.disciplined_each
    (fun i _ => disciplined_guarded_write hinside (writesOnly_modifyAppender i _)) fun _ => trivial

theorem setFormatterText_disciplined (h : Below 3 around) (name val : Bytes) :
    (setFormatterText name val : Code ι α).Disciplined around :=
  disciplined_ite trivial (setFormatter_disciplined h name _)

theorem getFormatter_disciplined (h : Below 3 around) (name : Bytes) :
    (getFormatter name : Code ι α).Disciplined around :=
  disciplined_guarded (h.mono (rank_logger name).1) fun _ => disciplined_ret _

theorem addAppender_disciplined (h : Below 3 around) (name : Bytes) (appender : Nat) :
    (addAppender name appender : Code ι α).Disciplined around := by
  refine disciplined_guarded (h.mono (rank_logger name).1) fun hinside => ?_
  refine (LoggerAppender.getForamter_disciplined hinside appender).andThen fun formatter => ?_
  refine Prog.Disciplined.andThen ?_ fun r => ?_
  · split
    · exact trivial
    · refine disciplined_guarded_write hinside fun k d x => ?_
      exact writesOnly_modifyAppender appender _ k d x
  · exact disciplined_write ((writesOnly_modify name _).keeps List.mem_cons_self)

theorem delAppender_disciplined (h : Below 3 around) (name : Bytes) (appender : Nat) :
    (delAppender name appender : Code ι α).Disciplined around :=
  disciplined_guarded_write (h.mono (rank_logger name).1) (writesOnly_modify name _)

theorem clearAppender_disciplined (h : Below 3 around) (name : Bytes) :
    (clearAppender name : Code ι α).Disciplined around :=
  disciplined_guarded_write (h.mono (rank_logger name).1) (writesOnly_modify name _)

theorem load_disciplined {code : Code ι α} (h : code.Disciplined around) :
    (load out code).Disciplined around := by
  refine Prog.Disciplined.andThen h fun r => ?_
  split <;> exact trivial

theorem toYamlString_disciplined (h : Below 3 around) (name : Bytes) :
    (toYamlString out name).Disciplined around := by
  refine disciplined_guarded (h.mono (rank_logger name).1) fun hinside => ?_
  refine disciplined_read fun d => Prog.disciplined_each (fun i _ => ?_) fun _ => trivial
  exact load_disciplined out (LoggerAppender.toYamlString_disciplined out hinside i)

end Logger

namespace LogManger

theorem getLogger_disciplined (h : Below 2 around) (name : Bytes) :
    (getLogger name : Code ι α).Disciplined around :=
  disciplined_guarded_write h (writesOnly_getLogger name)

theorem toYamlString_disciplined (h : Below 2 around) : (toYamlString out).Disciplined around := by
  have hinside : Below 3 ((.manager, .exclusive) :: around) := Below.cons h (by decide)
  refine disciplined_guarded h (disciplined_read fun d => ?_)
  refine Prog.disciplined_each (fun i _ => ?_) fun _ => trivial
  exact Logger.load_disciplined out (Logger.toYamlString_disciplined out hinside i)

end LogManger

/-! ## Variables -/

/-- A listener takes no lock of a variable and not that of the registry. -/
def Outside.ListenersDisciplined : Prop :=
  ∀ T key old new ptr, (out.listener T key old new).Disciplined [(.configVar ptr, .shared)]

theorem below_configVar (mode : Mode) (ptr : Nat) : Below 2 [(Lock.configVar ptr, mode)] := by
  simp [Below, rank]

namespace ConfigVar

theorem getValue_disciplined (h : Below 1 around) (ptr : Nat) :
    (getValue ptr : Code ι α).Disciplined around := disciplined_guarded h (disciplined_ret _)

theorem setValue_disciplined [DecidableEq α] (hlisteners : out.ListenersDisciplined) (ptr : Nat)
    (v : α) : (setValue out ptr v).Disciplined [] := by
  refine ⟨below_nil _, disciplined_read fun d => ?_, fun returns => ?_⟩
  · split
    · exact trivial
    · refine disciplined_ite trivial ?_
      refine Prog.disciplined_each (fun i _ => ?_) fun _ => trivial
      refine (hlisteners _ _ _ _ ptr).andThen fun r => ?_
      exact disciplined_ite (disciplined_done _) trivial
  · dsimp only
    split
    · exact trivial
    · exact disciplined_guarded_write (below_nil _) (writesOnly_onVariable ptr _)

theorem toString_disciplined (h : Below 1 around) (ptr : Nat) :
    (toString out ptr).Disciplined around := by
  refine disciplined_read fun d => ?_
  split
  · exact trivial
  · refine ⟨?_, fun e => ?_, fun r => trivial⟩
    · refine disciplined_guarded h (disciplined_read fun d => ?_)
      split
      · exact trivial
      · split <;> exact trivial
    · exact (Logger.statement_disciplined out (h.mono (by decide)) _ _ _).andThen fun r => trivial

theorem formString_disciplined [DecidableEq α] (hlisteners : out.ListenersDisciplined) (ptr : Nat)
    (val : Bytes) : (formString out ptr val).Disciplined [] := by
  refine disciplined_read fun d => ?_
  split
  · exact trivial
  · refine ⟨?_, fun e => ?_, fun r => trivial⟩
    · split
      · exact (setValue_disciplined out hlisteners ptr _).andThen fun r => trivial
      · exact trivial
    · exact (Logger.statement_disciplined out (below_nil 3) _ _ _).andThen fun r => trivial

theorem addListener_disciplined [DecidableEq ι] (h : Below 1 around) (T : ι) (ptr : Nat)
    (cb : OnChangeCb α) : (addListener T ptr cb).Disciplined around := by
  have hwrites : WritesOnly (.configVar ptr) fun d : Shared ι α =>
      { d.onVariable ptr fun var => { var with mCbs := var.mCbs ++ [(d.fun_id T + 1, cb)] } with
        fun_id := Function.update d.fun_id T (d.fun_id T + 1) } := by
    intro k d x hk hx
    have hstored := writesOnly_onVariable ptr (fun var => { var with
      mCbs := var.mCbs ++ [(d.fun_id T + 1, cb)] }) k d x hk hx
    cases k <;> exact hstored
  exact disciplined_guarded h ⟨hwrites.keeps List.mem_cons_self, fun d => trivial⟩

theorem delListener_disciplined (h : Below 1 around) (ptr key : Nat) :
    (delListener ptr key : Code ι α).Disciplined around :=
  disciplined_guarded_write h (writesOnly_onVariable ptr _)

theorem clearLister_disciplined (h : Below 1 around) (ptr : Nat) :
    (clearLister ptr : Code ι α).Disciplined around :=
  disciplined_guarded_write h (writesOnly_onVariable ptr _)

theorem getListener_disciplined (h : Below 1 around) (ptr key : Nat) :
    (getListener ptr key : Code ι α).Disciplined around :=
  disciplined_guarded h (disciplined_ret _)

end ConfigVar

namespace Config

theorem lookup_disciplined [DecidableEq ι] (T : ι) (name : Bytes) (default : α)
    (description : Bytes) : (lookup out T name default description).Disciplined [] := by
  have hinside : Below 1 [(Lock.registry, Mode.exclusive)] := by simp [Below, rank]
  have hlogs := hinside.mono (show 1 ≤ 3 by decide)
  refine disciplined_guarded (below_nil _) (disciplined_read fun d => ?_)
  split
  · split
    · exact (Logger.statement_disciplined out hlogs _ _ _).andThen fun r => trivial
    · refine disciplined_read fun d => disciplined_ite ?_ trivial
      refine (ConfigVar.toString_disciplined out hinside _).andThen fun value => ?_
      exact (Logger.log_disciplined out hlogs _ _ _).andThen fun r => trivial
  · refine disciplined_ite ⟨(writesOnly_add name _).keeps List.mem_cons_self, fun d => trivial⟩ ?_
    exact (Logger.statement_disciplined out hlogs _ _ _).andThen fun r => trivial

theorem lookupTyped_disciplined [DecidableEq ι] (T : ι) (name : Bytes) :
    (lookupTyped T name : Code ι α).Disciplined [] :=
  disciplined_guarded (below_nil _) (disciplined_ret _)

theorem LookUpBase_disciplined (name : Bytes) : (LookUpBase name : Code ι α).Disciplined [] :=
  disciplined_guarded (below_nil _) (disciplined_ret _)

theorem loadFromYaml_disciplined [DecidableEq α] (hlisteners : out.ListenersDisciplined)
    (node : Node) : (loadFromYaml out node).Disciplined [] := by
  refine Prog.disciplined_each (fun member _ =>
    Logger.statement_disciplined out (below_nil 3) _ _ _) fun _ => ?_
  refine Prog.disciplined_each (fun member _ => disciplined_ite trivial ?_) fun _ => trivial
  refine (LookUpBase_disciplined _).andThen fun val => ?_
  split
  · exact ConfigVar.formString_disciplined out hlisteners _ _
  · exact trivial

end Config

/-! ## The listener of the logs -/

namespace LogIniter

theorem applyAppender_disciplined (h : Below 2 around) (name : Bytes) (a : Log.LogAppenderDefine) :
    (applyAppender name a : Code ι α).Disciplined around := by
  have happender := h.mono (show 2 ≤ 5 by decide)
  unfold applyAppender
  split
  · exact disciplined_null fun _ => trivial
  · rename_i output _
    refine (newAppender_disciplined happender output).andThen fun ap => ?_
    split
    · refine disciplined_inOrder fun code hmem => ?_
      simp only [List.mem_cons, List.not_mem_nil, or_false] at hmem
      rcases hmem with rfl | rfl | rfl
      · exact LoggerAppender.setLevel_disciplined _ _
      · exact disciplined_ite (LoggerAppender.setFormatter_disciplined happender _ _) trivial
      · exact Logger.addAppender_disciplined (h.mono (by decide)) _ _
    · exact trivial

theorem configure_disciplined (h : Below 2 around) (i : Log.LogDefine) :
    (configure i : Code ι α).Disciplined around := by
  have hlogger := h.mono (show 2 ≤ 3 by decide)
  refine disciplined_inOrder fun code hmem => ?_
  simp only [List.cons_append, List.nil_append, List.mem_cons, List.mem_map] at hmem
  rcases hmem with rfl | rfl | rfl | rfl | ⟨a, -, rfl⟩
  · exact LogManger.getLogger_disciplined h _
  · exact Logger.setLevel_disciplined _ _
  · exact disciplined_ite (Logger.setFormatterText_disciplined hlogger _ _) trivial
  · exact Logger.clearAppender_disciplined hlogger _
  · exact applyAppender_disciplined h i.name a

theorem removeDefine_disciplined (h : Below 2 around) (new : Log.LogDefineSet)
    (i : Log.LogDefine) : (removeDefine new i : Code ι α).Disciplined around := by
  refine disciplined_ite (disciplined_inOrder fun code hmem => ?_) trivial
  simp only [List.mem_cons, List.not_mem_nil, or_false] at hmem
  rcases hmem with rfl | rfl | rfl
  · exact LogManger.getLogger_disciplined h _
  · exact Logger.setLevel_disciplined _ _
  · exact Logger.clearAppender_disciplined (h.mono (by decide)) _

/-- The listener of the logs is one as every listener has to be. -/
theorem listener_disciplined (old new : Log.LogDefineSet) (ptr : Nat) :
    (listener out old new).Disciplined [(.configVar ptr, .shared)] := by
  have h := below_configVar .shared ptr
  refine disciplined_inOrder fun code hmem => ?_
  simp only [List.cons_append, List.mem_cons, List.mem_append, List.mem_map] at hmem
  rcases hmem with rfl | ⟨i, -, rfl⟩ | ⟨i, -, rfl⟩
  · exact Logger.statement_disciplined out (h.mono (by decide)) _ _ _
  · exact disciplined_ite (disciplined_null fun _ => trivial) (configure_disciplined h i)
  · exact removeDefine_disciplined h new i

end LogIniter

/-! ## Calls -/

theorem Call.disciplined [DecidableEq ι] [DecidableEq α] (hlisteners : out.ListenersDisciplined)
    (c : Call ι α) : (c.code out).Disciplined [] := by
  cases c with
  | tick => exact disciplined_write (writesNone_of_eq fun k d => by cases k <;> rfl).keeps
  | statement => exact Logger.statement_disciplined out (below_nil _) _ _ _
  | log => exact Logger.log_disciplined out (below_nil _) _ _ _
  | setLevel => exact Logger.setLevel_disciplined _ _
  | setFormatter => exact Logger.setFormatter_disciplined (below_nil _) _ _
  | setFormatterText => exact Logger.setFormatterText_disciplined (below_nil _) _ _
  | getFormatter => exact Logger.getFormatter_disciplined (below_nil _) _
  | addAppender => exact Logger.addAppender_disciplined (below_nil _) _ _
  | delAppender => exact Logger.delAppender_disciplined (below_nil _) _ _
  | clearAppender => exact Logger.clearAppender_disciplined (below_nil _) _
  | loggerToYamlString => exact Logger.toYamlString_disciplined out (below_nil _) _
  | newAppender => exact newAppender_disciplined (below_nil _) _
  | setAppenderLevel => exact LoggerAppender.setLevel_disciplined _ _
  | setAppenderFormatter => exact LoggerAppender.setFormatter_disciplined (below_nil _) _ _
  | getForamter => exact LoggerAppender.getForamter_disciplined (below_nil _) _
  | reopen => exact FileLogAppender.reopen_disciplined (below_nil _) _
  | appenderToYamlString => exact LoggerAppender.toYamlString_disciplined out (below_nil _) _
  | getLogger => exact LogManger.getLogger_disciplined (below_nil _) _
  | toYamlString => exact LogManger.toYamlString_disciplined out (below_nil _)
  | getValue => exact ConfigVar.getValue_disciplined (below_nil _) _
  | setValue => exact ConfigVar.setValue_disciplined out hlisteners _ _
  | toString => exact ConfigVar.toString_disciplined out (below_nil _) _
  | formString => exact ConfigVar.formString_disciplined out hlisteners _ _
  | addListener => exact ConfigVar.addListener_disciplined (below_nil _) _ _ _
  | delListener => exact ConfigVar.delListener_disciplined (below_nil _) _ _
  | clearLister => exact ConfigVar.clearLister_disciplined (below_nil _) _
  | getListener => exact ConfigVar.getListener_disciplined (below_nil _) _ _
  | lookup => exact Config.lookup_disciplined out _ _ _ _
  | lookupTyped => exact Config.lookupTyped_disciplined _ _
  | LookUpBase => exact Config.LookUpBase_disciplined _
  | loadFromYaml => exact Config.loadFromYaml_disciplined out hlisteners _

end

/-! ## Runs -/

section

variable {ι α W : Type} [DecidableEq ι] [DecidableEq α] [DecidableEq W] {out : Outside ι α}
  {d : Shared ι α} {s : State W (Shared ι α) Lock (Reply α) Fault} {acts : List (Act W (Call ι α))}

/-- While a call is under way it is some thread's turn, which goes on or stops at a null pointer;
and without new calls the threads do not go on for ever: every call comes to its end, if none goes
through a null pointer. -/
theorem calls_end [Finite W] (hlisteners : out.ListenersDisciplined)
    (hrun : (machine (Call.code out)).run (start d) acts = some s) :
    (∀ w, (s.threads w).idle = false → ∃ u, s.ready u = true) ∧
      (∀ u, s.ready u = true → (∃ s', (machine (Call.code out)).step s (.step u) = some s') ∨
        ∃ f, (machine (Call.code out)).exec s (.step u) = .error f ∧ Null f s.value) ∧
      ¬ ∃ path : Nat → State W (Shared ι α) Lock (Reply α) Fault, path 0 = s ∧
        ∀ n, ∃ w, (machine (Call.code out)).step (path n) (.step w) = some (path (n + 1)) := by
  have hvalid := valid_of_run (Call.disciplined out hlisteners) hrun
  refine ⟨fun w hbusy => hvalid.exists_ready rank_le hbusy,
    fun u hready => hvalid.step_of_ready _ hready, ?_⟩
  rintro ⟨path, -, hpath⟩
  exact not_endless _ path hpath

end

/-- A listener that sets the level of another logger. -/
def levels : Outside Unit Nat where
  FromStr _ text := .ok text.length
  ToStr _ v := .ok (decimal v)
  typeName _ := ascii "m"
  demangled _ := ascii "unsigned long*"
  event name _ text := ⟨text, ascii "main.cc", 1, 0, 1, 0, 0, ascii "main", name⟩
  strftime _ _ := []
  yaml := ⟨fun _ => [], fun _ => some .null, fun _ => none⟩
  listener _ _ _ new :=
    inOrder [LogManger.getLogger (ascii "system"), Logger.setLevel (ascii "system") new]
  what _ := []

theorem levels_disciplined : levels.ListenersDisciplined := by
  intro T key old new ptr
  refine disciplined_inOrder fun code hmem => ?_
  simp only [List.mem_cons, List.not_mem_nil, or_false] at hmem
  rcases hmem with rfl | rfl
  · exact LogManger.getLogger_disciplined (below_configVar .shared ptr) _
  · exact Logger.setLevel_disciplined _ _

/-- One thread has the lock of the root, and another is to log there. -/
def rootTaken : List (Act Bool (Call Unit Nat)) :=
  [.call true (.clearAppender root), .step true, .call false (.statement root .INFO (ascii "up")),
    .step false, .step false]

theorem calls_end_rootTaken :
    ∃ s, (machine (Call.code levels)).run (start .start) rootTaken = some s ∧
      s.ready false = false ∧ ∃ u, s.ready u = true := by
  have hwaits : ((machine (Call.code levels)).run (start .start) rootTaken).map
      (fun s => (s.ready false, (s.threads false).idle)) = some (false, false) := by
    decide +kernel
  obtain ⟨s, hrun, hs⟩ := Option.map_eq_some_iff.mp hwaits
  obtain ⟨hready, hidle⟩ := Prod.mk.inj hs
  exact ⟨s, hrun, hready, (calls_end levels_disciplined hrun).1 false hidle⟩

section

variable {ι α W : Type} [DecidableEq ι] [DecidableEq α] [DecidableEq W] {out : Outside ι α}
  {d : Shared ι α} {s s' : State W (Shared ι α) Lock (Reply α) Fault}
  {acts acts' : List (Act W (Call ι α))}

/-- What a lock protects stays as it is while a thread that has the lock waits for its turn,
whatever the other threads call and do; and nobody else has a lock that is held exclusively. -/
theorem part_exact (hlisteners : out.ListenersDisciplined)
    (hrun : (machine (Call.code out)).run (start d) acts = some s) {w : W} {k : Lock} {mode : Mode}
    {x : Part α k} (hholder : (w, mode) ∈ s.holders k) (hx : part k s.value = some x)
    (hothers : ∀ a ∈ acts', a ≠ .step w ∧ ∀ c, a ≠ .call w c)
    (hrun' : (machine (Call.code out)).run s acts' = some s') :
    part k s'.value = some x ∧ (w, mode) ∈ s'.holders k ∧
      (mode = .exclusive → s'.holders k = [(w, .exclusive)]) := by
  have hcalls := Call.disciplined out hlisteners
  have hvalid := valid_of_run hcalls hrun
  have hvalid' : Valid rank part Null s' :=
    Machine.run_invariant (fun h hstep => h.step hcalls hstep) hvalid hrun'
  obtain ⟨hthread, hpart⟩ := hvalid.part_of_run hcalls hholder hx hothers hrun'
  have hholder' : (w, mode) ∈ s'.holders k := by
    rw [hvalid'.held_iff, hthread]
    exact (hvalid.held_iff k w mode).mp hholder
  refine ⟨hpart, hholder', ?_⟩
  rintro rfl
  exact hvalid'.alone k w hholder'

end

/-- The other thread finds the lock taken, and time passes. -/
def rootKept : List (Act Bool (Call Unit Nat)) := [.call false .tick, .step false]

theorem part_exact_rootTaken :
    ∃ s s', (machine (Call.code levels)).run (start .start) (rootTaken.take 2) = some s ∧
      (machine (Call.code levels)).run s rootKept = some s' ∧
      part (.logger root) s'.value = some ([0], some ⟨Log.defaultPattern⟩) := by
  have hholds : ((machine (Call.code levels)).run (start .start) (rootTaken.take 2)).map
      (fun s => (decide ((true, Mode.exclusive) ∈ s.holders (.logger root)),
        part (.logger root) s.value)) = some (true, some ([0], some ⟨Log.defaultPattern⟩)) := by
    decide +kernel
  have hsome : (((machine (Call.code levels)).run (start .start) (rootTaken.take 2)).bind
      fun s => (machine (Call.code levels)).run s rootKept).isSome = true := by
    decide +kernel
  obtain ⟨s, hrun, hs⟩ := Option.map_eq_some_iff.mp hholds
  obtain ⟨hholder, hpart⟩ := Prod.mk.inj hs
  rw [hrun] at hsome
  obtain ⟨s', hrun'⟩ := Option.isSome_iff_exists.mp hsome
  have hothers : ∀ a ∈ rootKept, a ≠ .step true ∧ ∀ c, a ≠ .call true c := by
    simp [rootKept]
  exact ⟨s, s', hrun, hrun',
    (part_exact levels_disciplined hrun (of_decide_eq_true hholder) hpart hothers hrun').1⟩

end Qslary.Locks

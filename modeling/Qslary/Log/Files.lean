import Qslary.Log.Model

/-!
# Logging to a file

`FileLogAppender` opens its file again whenever the second has changed since its last
record.  Opening truncates, so the file holds the records of one second.
-/

namespace Qslary.Log

open Qslary.Foundation

structure FileLogAppender where
  mLevel : LogLevel
  lastTime : Nat
  /-- What the file holds, with what is still in the stream. -/
  content : Bytes

/-- A call of `log`: the value of `time(0)` in it, and the event as it is formatted. -/
structure LogCall where
  now : Nat
  level : LogLevel
  record : Bytes

namespace FileLogAppender

/-- Closes the stream and opens the file for output. -/
def reopen (a : FileLogAppender) : FileLogAppender := { a with content := [] }

/-- The appender on a file with a content. -/
def new (mLevel : LogLevel) (content : Bytes) : FileLogAppender :=
  reopen ⟨mLevel, 0, content⟩

def log (a : FileLogAppender) (call : LogCall) : FileLogAppender :=
  if a.mLevel.value ≤ call.level.value then
    let opened := if call.now ≠ a.lastTime then { a.reopen with lastTime := call.now } else a
    { opened with content := opened.content ++ call.record }
  else a

def run (a : FileLogAppender) (calls : List LogCall) : FileLogAppender := calls.foldl log a

end FileLogAppender

/-- What the calls are to leave in the file, in order. -/
def records (calls : List LogCall) : Bytes := (calls.map LogCall.record).flatten

theorem records_cons (call : LogCall) (calls : List LogCall) :
    records (call :: calls) = call.record ++ records calls := List.flatten_cons

/-- A record that is not empty is followed by records of the same second alone. -/
def OneSecond (calls : List LogCall) : Prop :=
  calls.Pairwise fun first second => first.record ≠ [] → second.now = first.now

theorem oneSecond_cons {call : LogCall} {calls : List LogCall} :
    OneSecond (call :: calls) ↔
      (call.record ≠ [] → ∀ other ∈ calls, other.now = call.now) ∧ OneSecond calls := by
  rw [OneSecond, List.pairwise_cons]
  refine and_congr_left fun _ => ?_
  exact ⟨fun h hrecord other hother => h other hother hrecord,
    fun h other hother hrecord => h hrecord other hother⟩

namespace FileLogAppender

variable {a : FileLogAppender} {call : LogCall} {calls : List LogCall}

/-! ## One call -/

@[simp] theorem log_mLevel (a : FileLogAppender) (call : LogCall) :
    (a.log call).mLevel = a.mLevel := by
  unfold log
  split
  · dsimp only
    split <;> rfl
  · rfl

/-- The calls are at levels that the appender takes. -/
def Takes (a : FileLogAppender) (calls : List LogCall) : Prop :=
  ∀ call ∈ calls, a.mLevel.value ≤ call.level.value

theorem Takes.tail (h : a.Takes (call :: calls)) : (a.log call).Takes calls := by
  intro other hother
  rw [log_mLevel]
  exact h other (List.mem_cons_of_mem _ hother)

theorem log_same (hlevel : a.mLevel.value ≤ call.level.value) (hnow : call.now = a.lastTime) :
    a.log call = { a with content := a.content ++ call.record } := by
  rw [log, if_pos hlevel, if_neg (not_not.mpr hnow)]

theorem log_changed (hlevel : a.mLevel.value ≤ call.level.value) (hnow : call.now ≠ a.lastTime) :
    a.log call = { a with lastTime := call.now, content := call.record } := by
  rw [log, if_pos hlevel, if_pos hnow]
  rfl

/-! ## Runs -/

theorem run_cons (a : FileLogAppender) (call : LogCall) (calls : List LogCall) :
    a.run (call :: calls) = (a.log call).run calls := rfl

/-- A file never holds more than what was in it and what has been logged. -/
theorem run_content_suffix (h : a.Takes calls) :
    (a.run calls).content <:+ a.content ++ records calls := by
  induction calls generalizing a with
  | nil =>
      rw [records, List.map_nil, List.flatten_nil, List.append_nil]
      rfl
  | cons call calls ih =>
      have hlevel := h call List.mem_cons_self
      rw [run_cons, records_cons, ← List.append_assoc]
      refine (ih h.tail).trans ?_
      by_cases hnow : call.now = a.lastTime
      · rw [log_same hlevel hnow]
      · rw [log_changed hlevel hnow, List.append_assoc]
        exact List.suffix_append _ _

/-- Nothing is lost in a run if and only if what is in the file, and every record, is
followed by records of its second. -/
theorem run_content_iff (h : a.Takes calls) :
    (a.run calls).content = a.content ++ records calls ↔
      (a.content ≠ [] → ∀ call ∈ calls, call.now = a.lastTime) ∧ OneSecond calls := by
  induction calls generalizing a with
  | nil => simp [run, records, OneSecond]
  | cons call calls ih =>
      have hlevel := h call List.mem_cons_self
      have hlength := (run_content_suffix h.tail).length_le
      have hrest := ih h.tail
      rw [run_cons, records_cons, oneSecond_cons, List.forall_mem_cons]
      by_cases hnow : call.now = a.lastTime
      · rw [log_same hlevel hnow] at hrest ⊢
        rw [← List.append_assoc, hrest, ne_eq, List.append_eq_nil_iff, not_and_or, or_imp, hnow]
        exact ⟨fun ⟨⟨hold, hnew⟩, hcalls⟩ => ⟨fun hne => ⟨rfl, hold hne⟩, hnew, hcalls⟩,
          fun ⟨hold, hnew, hcalls⟩ => ⟨⟨fun hne => (hold hne).2, hnew⟩, hcalls⟩⟩
      · rw [log_changed hlevel hnow] at hrest hlength ⊢
        by_cases hold : a.content = []
        · rw [hold, List.nil_append, hrest]
          simp
        · -- what was in the file is gone
          refine iff_of_false (fun hall => ?_) fun hfree => hnow (hfree.1 hold).1
          rw [hall] at hlength
          have hpos := List.length_pos_of_ne_nil hold
          simp only [List.length_append] at hlength
          omega

/-! ## Runs of a new appender -/

/-- An appender leaves in the file what was there and every record if and only if nothing
was there, and the calls after a record that is not empty are in its second. -/
theorem file_keeps_iff {mLevel : LogLevel} {content : Bytes}
    (h : ∀ call ∈ calls, mLevel.value ≤ call.level.value) :
    ((new mLevel content).run calls).content = content ++ records calls ↔
      content = [] ∧ OneSecond calls := by
  have htakes : (new mLevel content).Takes calls := h
  have hiff := run_content_iff htakes
  have hlength := (run_content_suffix htakes).length_le
  have hempty : (new mLevel content).content = [] := rfl
  rw [hempty, List.nil_append] at hiff hlength
  by_cases hcontent : content = []
  · rw [hcontent] at hiff ⊢
    rw [List.nil_append, hiff]
    simp
  · refine iff_of_false (fun hall => ?_) fun hfree => hcontent hfree.1
    rw [hall, List.length_append] at hlength
    have hpos := List.length_pos_of_ne_nil hcontent
    omega

theorem file_keeps_two :
    ((new .DEBUG []).run [⟨7, .INFO, ascii "a"⟩, ⟨7, .ERROR, ascii "b"⟩]).content =
        records [⟨7, .INFO, ascii "a"⟩, ⟨7, .ERROR, ascii "b"⟩] ↔
      ([] : Bytes) = [] ∧ OneSecond [⟨7, .INFO, ascii "a"⟩, ⟨7, .ERROR, ascii "b"⟩] :=
  file_keeps_iff (by decide)

/-- The record of the second before is lost. -/
theorem file_loses :
    ((new .DEBUG []).run [⟨7, .INFO, ascii "a"⟩, ⟨8, .INFO, ascii "b"⟩]).content ≠
      records [⟨7, .INFO, ascii "a"⟩, ⟨8, .INFO, ascii "b"⟩] := by
  decide

end FileLogAppender

end Qslary.Log

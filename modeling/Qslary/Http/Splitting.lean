import Qslary.Http.Straying

/-!
# Requests that arrive in two pieces

The second call starts with registers at zero, so a token is cut out of the buffer
rightly only if every register it is cut with has been written in the same call.
-/

namespace Qslary.Http

open Qslary.Foundation

/-! ## Two calls for one -/

open Request

/-- What can be read off a parser. -/
structure Outcome where
  method : HttpMethod
  path : Bytes
  query : Bytes
  fragment : Bytes
  version : UInt8
  headers : List (Bytes × Bytes)
  error : Bool
  finished : Int
  deriving DecidableEq

def HttpRequestParser.outcome (parser : HttpRequestParser) : Outcome where
  method := parser.data.method
  path := parser.data.path
  query := parser.data.query
  fragment := parser.data.fragment
  version := parser.data.version
  headers := parser.data.headers.entries
  error := parser.hasError
  finished := parser.isFinished

def parseWhole (parser : HttpRequestParser) (bytes : Bytes) : Except Fault Outcome := do
  let (parser, _) ← parser.execute bytes
  .ok parser.outcome

/-- The second call gets what the first one has not consumed, and `b`. -/
def parseSplit (parser : HttpRequestParser) (a b : Bytes) : Except Fault Outcome := do
  let (parser, offset) ← parser.execute a
  let (parser, _) ← parser.execute (a.drop offset ++ b)
  .ok parser.outcome

/-- A new parser comes to the same with `a` and then `b` as with both at once. -/
def SameEitherWay (memory : HttpParser) (a b : Bytes) : Prop :=
  ∃ outcome, parseWhole (.new memory) (a ++ b) = .ok outcome ∧
    parseSplit (.new memory) a b = .ok outcome

/--
Already `a` is in error; or the header goes on in `b`, and no token that is reported
there starts in `a`.
-/
def Separable (uriRelaxed : Bool) (a b : Bytes) : Prop :=
  (a ++ b).length < 2 ^ 31 ∧
    match course (next uriRelaxed) 1 a with
    | .failed => True
    | .stopped _ => False
    | .ended cs => tokensWithin uriRelaxed cs .nothing b = true

section

variable {memory : HttpParser} {a b : Bytes}

/-- A call that ends has consumed its buffer. -/
theorem drop_of_ended {cs : Nat} (h : (memory.init.run a).halt = .ended cs) (b : Bytes) :
    a.drop (memory.init.run a).position ++ b = b := by
  have hend := (position_of_halt (next memory.uriRelaxed) (HttpParser.act a) 1 0 a
    (memory.init.rewind, [])).2 cs h
  rw [Nat.zero_add] at hend
  rw [show (memory.init.run a).position = a.length from hend, List.drop_length, List.nil_append]

/-- What is left of the whole run where that over `a` ends. -/
theorem run_append_of_ended {front : Scanned Nat (HttpParser × List Report)} {cs : Nat}
    (hfront : scan (next memory.uriRelaxed) (HttpParser.act (a ++ b)) 1 0 a
      (memory.init.rewind, []) = front) (hended : front.halt = .ended cs) :
    memory.init.run (a ++ b) = scan (next memory.uriRelaxed) (HttpParser.act (a ++ b)) cs a.length b
      front.state := by
  subst hfront
  have happend := scan_append_of_ended hended b
  rw [Nat.zero_add] at happend
  exact happend

/-- What can be read off depends on the automaton only through its state. -/
theorem outcome_congr {parsed : Parsed} {machine machine' : HttpParser}
    (h : machine.cs = machine'.cs) :
    HttpRequestParser.outcome ⟨parsed, machine⟩ = HttpRequestParser.outcome ⟨parsed, machine'⟩ := by
  cases machine
  cases machine'
  cases h
  rfl

theorem same_of_executes {first last whole : HttpRequestParser} {offset n m : Nat}
    (hwhole : (HttpRequestParser.new memory).execute (a ++ b) = .ok (whole, n))
    (hfirst : (HttpRequestParser.new memory).execute a = .ok (first, offset))
    (hlast : first.execute (a.drop offset ++ b) = .ok (last, m))
    (hparsed : whole.toParsed = last.toParsed) (hcs : whole.parser.cs = last.parser.cs) :
    SameEitherWay memory a b := by
  refine ⟨whole.outcome, ?_, ?_⟩
  · rw [parseWhole, hwhole]
    rfl
  · rw [parseSplit, hfirst]
    simp only [bind, Except.bind, hlast]
    obtain ⟨parsed, machine⟩ := whole
    obtain ⟨parsed', machine'⟩ := last
    cases hparsed
    rw [outcome_congr hcs]

theorem same_of_failed (ha : a ≠ []) (hb : b ≠ []) (hshort : (a ++ b).length < 2 ^ 31)
    (hcourse : course (next memory.uriRelaxed) 1 a = .failed) : SameEitherWay memory a b := by
  obtain ⟨front, hfront, hhalt, hposition, -, halike⟩ := scan_front memory hshort
  have hrunHalt : (memory.init.run a).halt = .failed := by
    rw [HttpParser.run, halt_eq_course]
    exact hcourse
  have hrun : memory.init.run (a ++ b) = front := by
    rw [← hfront]
    refine scan_append_of_not_ended (fun r hended => ?_) b
    rw [halt_eq_course] at hended
    cases hcourse.symm.trans hended
  obtain ⟨parsed, hwhole, hfirst⟩ := foldlM_alike halike (HttpRequestParser.new memory).toParsed
  have hab : a ++ b ≠ [] := fun h => ha (List.append_eq_nil_iff.mp h).1
  have hshortA : a.length < 2 ^ 31 := by
    rw [List.length_append] at hshort
    omega
  -- The second call finds the automaton in the error state and stays there.
  have hbody : (after memory.init a).bodyStart = 0 :=
    (run_held ha (Nat.zero_le _)).2 fun r => by
      rw [hrunHalt]
      intro hstopped
      cases hstopped
  have hcs : (after memory.init a).cs = 0 := by
    rw [after_cs, hrunHalt]
    rfl
  have hrest : a.drop (memory.init.run a).position ++ b ≠ [] :=
    fun h => hb (List.append_eq_nil_iff.mp h).2
  have hshortRest : (a.drop (memory.init.run a).position ++ b).length < 2 ^ 31 := by
    rw [List.length_append, List.length_drop]
    rw [List.length_append] at hshort
    omega
  have hbodyRest : (after memory.init a).bodyStart ≤
      (a.drop (memory.init.run a).position ++ b).length := by
    rw [hbody]
    exact Nat.zero_le _
  have hlast : ((after memory.init a).run
      (a.drop (memory.init.run a).position ++ b)).state.2.foldlM Parsed.call parsed =
      .ok parsed := by
    rw [run_error hcs hrest]
    rfl
  rw [← hrun] at hwhole
  refine same_of_executes (execute_of_calls hwhole hab hshort (Nat.zero_le _))
    (execute_of_calls hfirst ha hshortA (Nat.zero_le _))
    (execute_of_calls hlast hrest hshortRest hbodyRest) rfl ?_
  show (after memory.init (a ++ b)).cs = (after (after memory.init a) _).cs
  rw [after_cs, after_cs, hrun, hhalt, hrunHalt, hcs]
  rfl

/-- The second call goes on where the first one ended. -/
theorem same_of_ended (ha : a ≠ []) (hb : b ≠ []) (hshort : (a ++ b).length < 2 ^ 31) {cs : Nat}
    (hcourse : course (next memory.uriRelaxed) 1 a = .ended cs)
    (htokens : tokensWithin memory.uriRelaxed cs .nothing b = true) :
    SameEitherWay memory a b := by
  obtain ⟨front, hfront, hhalt, hposition, hregisters, halike⟩ := scan_front memory hshort
  have hrunHalt : (memory.init.run a).halt = .ended cs := by
    rw [HttpParser.run, halt_eq_course]
    exact hcourse
  have hab : a ++ b ≠ [] := fun h => ha (List.append_eq_nil_iff.mp h).1
  have hshortA : a.length < 2 ^ 31 := by
    rw [List.length_append] at hshort
    omega
  have hshortB : b.length < 2 ^ 31 := by
    rw [List.length_append] at hshort
    omega
  have hbody : (after memory.init a).bodyStart = 0 := (run_held ha (Nat.zero_le _)).2 fun r => by
    rw [hrunHalt]
    intro hstopped
    cases hstopped
  have hcs : (after memory.init a).cs = cs := by
    rw [after_cs, hrunHalt]
    rfl
  have huri : (after memory.init a).uriRelaxed = memory.uriRelaxed := (run_frame memory.init a).2
  have hdrop := drop_of_ended hrunHalt b
  -- The whole run over `b` is the second call, `a.length` bytes ahead.
  have hrun := run_append_of_ended hfront (hhalt.trans hrunHalt)
  have hin : Inside (a ++ b) b a.length := by
    refine ⟨?_, hshort⟩
    rw [List.drop_left]
  have hstart : Agree a.length 0 .nothing front.state.1 (after memory.init a).rewind := by
    rw [hregisters]
    exact agree_nothing rfl rfl
  obtain ⟨hhalts, -, _, _, -, hreports⟩ := scan_agree hstart halike hin htokens
  have hsecond : (after memory.init a).run b = scan (next memory.uriRelaxed) (HttpParser.act b) cs 0
      b ((after memory.init a).rewind, []) := by
    rw [HttpParser.run, hcs, huri]
  rw [scan_reports b, ← hsecond] at hreports
  obtain ⟨parsed, hwhole, hparts⟩ := foldlM_alike hreports (HttpRequestParser.new memory).toParsed
  rw [List.foldlM_append] at hparts
  obtain ⟨middle, hfirst, hlast⟩ := bind_eq_ok.mp hparts
  have hhaltB : ((after memory.init a).run b).halt = (memory.init.run (a ++ b)).halt := by
    rw [hsecond, hrun, halt_eq_course, halt_eq_course]
  have hbodyB : (after memory.init a).bodyStart ≤ b.length := by
    rw [hbody]
    exact Nat.zero_le _
  rw [← hrun] at hwhole
  have hlastCall := execute_of_calls hlast hb hshortB hbodyB
  rw [← hdrop] at hlastCall
  refine same_of_executes (execute_of_calls hwhole hab hshort (Nat.zero_le _))
    (execute_of_calls hfirst ha hshortA (Nat.zero_le _)) hlastCall rfl ?_
  show (after memory.init (a ++ b)).cs = (after (after memory.init a) _).cs
  rw [hdrop, after_cs, after_cs, ← hhaltB,
    if_neg (show memory.init.cs ≠ 0 from Nat.one_ne_zero)]
  by_cases hzero : (after memory.init a).cs = 0
  · rw [if_pos hzero, run_error hzero hb]
    rfl
  · rw [if_neg hzero]

theorem parse_separable (memory : HttpParser) (a b : Bytes) (ha : a ≠ []) (hb : b ≠ [])
    (h : Separable memory.uriRelaxed a b) : SameEitherWay memory a b := by
  obtain ⟨hshort, hcourse⟩ := h
  cases hhalt : course (next memory.uriRelaxed) 1 a with
  | failed => exact same_of_failed ha hb hshort hhalt
  | stopped cs => simp [hhalt] at hcourse
  | ended cs =>
      simp only [hhalt] at hcourse
      exact same_of_ended ha hb hshort hhalt hcourse

end

/-! ## What the callbacks are told -/

/-- The tokens that one call reports, and what `http_parser_finish` says after it. -/
def reportsWhole (parser : HttpParser) (bytes : Bytes) : Except Fault (List Token × Int) := do
  let (parser, reports, _) ← parser.execute bytes
  .ok (reports.filterMap Report.token, parser.finish)

/-- The same of two calls. -/
def reportsSplit (parser : HttpParser) (a b : Bytes) : Except Fault (List Token × Int) := do
  let (parser, reports, offset) ← parser.execute a
  let (parser, more, _) ← parser.execute (a.drop offset ++ b)
  .ok ((reports ++ more).filterMap Report.token, parser.finish)

def SameReports (memory : HttpParser) (a b : Bytes) : Prop :=
  ∃ reports, reportsWhole memory.init (a ++ b) = .ok reports ∧
    reportsSplit memory.init a b = .ok reports

section

variable {memory : HttpParser} {a b : Bytes}

theorem of_reportsWhole_eq_ok {parser : HttpParser} {bytes : Bytes} {x : List Token × Int}
    (hne : bytes ≠ []) (h : reportsWhole parser bytes = .ok x) :
    bytes.length < 2 ^ 31 ∧
      x = ((parser.run bytes).state.2.filterMap Report.token, (after parser bytes).finish) := by
  obtain ⟨⟨machine, rs, n⟩, hcall, hx⟩ := bind_eq_ok.mp h
  obtain ⟨hshort, rfl, rfl⟩ := of_execute_eq_ok hne hcall
  cases hx
  exact ⟨hshort, rfl⟩

theorem of_reportsSplit_eq_ok {x : List Token × Int} (ha : a ≠ []) (hb : b ≠ [])
    (h : reportsSplit memory.init a b = .ok x) {rest : Bytes}
    (hrest : a.drop (memory.init.run a).position ++ b = rest) :
    x = (((memory.init.run a).state.2 ++
        ((after memory.init a).run rest).state.2).filterMap Report.token,
      (after (after memory.init a) rest).finish) := by
  obtain ⟨⟨machine, rs, offset⟩, hfirst, h⟩ := bind_eq_ok.mp h
  obtain ⟨hshort, -, -⟩ := of_execute_eq_ok ha hfirst
  rw [execute_eq ha hshort (Nat.zero_le _)] at hfirst
  cases hfirst
  obtain ⟨⟨machine', more, n⟩, hlast, hx⟩ := bind_eq_ok.mp h
  rw [hrest] at hlast
  have hne : rest ≠ [] := fun hnil => hb (List.append_eq_nil_iff.mp (hrest.trans hnil)).2
  obtain ⟨-, rfl, rfl⟩ := of_execute_eq_ok hne hlast
  cases hx
  rfl

/-- The state that a completed header leaves. -/
theorem final_of_stopped {uriRelaxed : Bool} {bytes : Bytes} {cs : Nat}
    (h : course (next uriRelaxed) 1 bytes = .stopped cs) : cs = 348 ∨ cs = 349 := by
  have hfinal : ∀ r, course (next uriRelaxed) 1 bytes = .stopped r → r = 348 ∨ r = 349 :=
    scan_invariant (next uriRelaxed) (fun _ (_ : Unit) (_ : Action) => ()) (fun _ _ _ _ => True)
      (fun halt _ _ => ∀ r, halt = .stopped r → r = 348 ∨ r = 349)
      (fun _ _ _ _ => nofun) (fun _ _ _ _ _ _ _ => nofun)
      (fun _ _ _ _ _ _ hnext hstops _ r heq => by
        cases heq
        exact ends_of_next hnext hstops)
      (fun _ _ _ _ _ _ _ _ _ => trivial) trivial
  exact hfinal cs h

theorem finish_eq_one (parser : HttpParser) : parser.finish = 1 ↔ 348 ≤ parser.cs := by
  unfold HttpParser.finish
  cases herror : parser.hasError with
  | true =>
      have hzero : parser.cs = 0 := of_decide_eq_true herror
      simp [hzero]
  | false =>
      cases hfinished : parser.isFinished with
      | true => simpa using of_decide_eq_true hfinished
      | false => simpa using of_decide_eq_false hfinished

/-- After a completed header a second call reports more, or is not finished. -/
theorem not_same_of_stopped (ha : a ≠ []) (hb : b ≠ []) {cs : Nat}
    (hcourse : course (next memory.uriRelaxed) 1 a = .stopped cs) : ¬ SameReports memory a b := by
  rintro ⟨x, hwhole, hsplit⟩
  have hab : a ++ b ≠ [] := fun h => ha (List.append_eq_nil_iff.mp h).1
  obtain ⟨hshort, rfl⟩ := of_reportsWhole_eq_ok hab hwhole
  obtain ⟨front, hfront, hhalt, -, -, halike⟩ := scan_front memory hshort
  have hrunHalt : (memory.init.run a).halt = .stopped cs := by
    rw [HttpParser.run, halt_eq_course]
    exact hcourse
  have hrun : memory.init.run (a ++ b) = front := by
    rw [← hfront]
    refine scan_append_of_not_ended (fun r hended => ?_) b
    rw [halt_eq_course] at hended
    cases hcourse.symm.trans hended
  generalize hrest : a.drop (memory.init.run a).position ++ b = rest
  have hne : rest ≠ [] := fun hnil => hb (List.append_eq_nil_iff.mp (hrest.trans hnil)).2
  have hsame := of_reportsSplit_eq_ok ha hb hsplit hrest
  obtain ⟨htokens, hfinish⟩ := Prod.mk.inj hsame
  rw [hrun, tokens_of_alike halike, List.filterMap_append, List.self_eq_append_right] at htokens
  have hfinal := final_of_stopped hcourse
  have hcs : (after memory.init a).cs = cs := by
    rw [after_cs, hrunHalt]
    rfl
  have hwholeCs : (after memory.init (a ++ b)).cs = cs := by
    rw [after_cs, hrun, hhalt, hrunHalt]
    rfl
  have huri : (after memory.init a).uriRelaxed = memory.uriRelaxed := (run_frame memory.init a).2
  have hlow : (after (after memory.init a) rest).cs < 348 := by
    rw [after_cs]
    split
    · decide
    · refine (scan_of_final (hcs ▸ hfinal) hne).resolve_left (not_not_intro ?_)
      exact htokens
  have hhigh : 348 ≤ (after memory.init (a ++ b)).cs := by omega
  rw [(finish_eq_one _).mpr hhigh] at hfinish
  have := (finish_eq_one _).mp hfinish.symm
  omega

/-- A token that starts in `a` is reported with another text by the second call. -/
theorem not_same_of_ended (ha : a ≠ []) (hb : b ≠ []) {cs : Nat}
    (hcourse : course (next memory.uriRelaxed) 1 a = .ended cs)
    (htokens : tokensWithin memory.uriRelaxed cs .nothing b = false) :
    ¬ SameReports memory a b := by
  rintro ⟨x, hwhole, hsplit⟩
  have hab : a ++ b ≠ [] := fun h => ha (List.append_eq_nil_iff.mp h).1
  obtain ⟨hshort, rfl⟩ := of_reportsWhole_eq_ok hab hwhole
  obtain ⟨front, hfront, hhalt, -, hregisters, halike⟩ := scan_front memory hshort
  have hrunHalt : (memory.init.run a).halt = .ended cs := by
    rw [HttpParser.run, halt_eq_course]
    exact hcourse
  have hdrop : a.drop (memory.init.run a).position ++ b = b := drop_of_ended hrunHalt b
  have hsame := of_reportsSplit_eq_ok ha hb hsplit hdrop
  have hcs : (after memory.init a).cs = cs := by
    rw [after_cs, hrunHalt]
    rfl
  have huri : (after memory.init a).uriRelaxed = memory.uriRelaxed := (run_frame memory.init a).2
  have hrun := run_append_of_ended hfront (hhalt.trans hrunHalt)
  have hin : Inside (a ++ b) b a.length := by
    refine ⟨?_, hshort⟩
    rw [List.drop_left]
  have hseen : Seen (known cs) a.length front.state.1 := by
    rw [← hfront]
    exact seen_of_ended hcourse
  have hstart : Strays a.length 0 (known cs) .nothing front.state.1 (after memory.init a).rewind := by
    rw [hregisters] at hseen ⊢
    refine ⟨agree_nothing rfl rfl, fun hflag _ => ?_, fun hflag _ => ?_,
      fun hflag _ => ?_, fun hflag _ => ?_⟩
    · exact ⟨hseen.mark hflag, rfl⟩
    · exact ⟨hseen.fieldStart hflag, rfl⟩
    · exact ⟨(hseen.fieldLen hflag).1, (hseen.fieldLen hflag).2⟩
    · exact ⟨hseen.queryStart hflag, rfl⟩
  have hsecond : (after memory.init a).run b = scan (next memory.uriRelaxed) (HttpParser.act b) cs 0
      b ((after memory.init a).rewind, []) := by
    rw [HttpParser.run, hcs, huri]
  have hdiverged := hstart.scan (Written.le_refl _) halike hin List.drop_zero htokens
  rw [scan_reports b, ← hsecond] at hdiverged
  refine hdiverged.ne ?_
  rw [← (Prod.mk.inj hsame).1, hrun]
  rfl

theorem separable_of_same (ha : a ≠ []) (hb : b ≠ []) (h : SameReports memory a b) :
    Separable memory.uriRelaxed a b := by
  obtain ⟨x, hwhole, -⟩ := id h
  have hab : a ++ b ≠ [] := fun h => ha (List.append_eq_nil_iff.mp h).1
  refine ⟨(of_reportsWhole_eq_ok hab hwhole).1, ?_⟩
  cases hcourse : course (next memory.uriRelaxed) 1 a with
  | failed => trivial
  | stopped cs => exact not_same_of_stopped ha hb hcourse h
  | ended cs =>
      show tokensWithin memory.uriRelaxed cs .nothing b = true
      by_contra htokens
      exact not_same_of_ended ha hb hcourse (Bool.not_eq_true _ ▸ htokens) h

end

/--
Separable pieces come to the same as the whole; of any others the callbacks are told
other tokens, or something else about the end.
-/
theorem split_parse_iff (memory : HttpParser) (a b : Bytes) (ha : a ≠ []) (hb : b ≠ []) :
    (Separable memory.uriRelaxed a b → SameEitherWay memory a b) ∧
      (¬ Separable memory.uriRelaxed a b → ¬ SameReports memory a b) :=
  ⟨parse_separable memory a b ha hb, fun h hsame => h (separable_of_same ha hb hsame)⟩

def blank : HttpParser := ⟨0, 0, 0, 0, 0, 0, 0, 0, false, false, false⟩

/-- A request that is cut after its first line. -/
theorem split_parse_sample :
    SameEitherWay blank (ascii "GET / HTTP/1.1\r\n") (ascii "Host: a\r\n\r\n") := by
  refine (split_parse_iff blank _ _ (by decide) (by decide)).1 ⟨by decide, ?_⟩
  have hcourse : course (next false) 1 (ascii "GET / HTTP/1.1\r\n") = .ended 13 := by
    decide +kernel
  rw [show blank.uriRelaxed = false from rfl, hcourse]
  show tokensWithin false 13 .nothing (ascii "Host: a\r\n\r\n") = true
  decide +kernel

/-- Of a path that is cut only the second part arrives. -/
theorem path_cut : ¬ SameEitherWay blank (ascii "GET /a") (ascii "b HTTP/1.1\r\n\r\n") := by
  rintro ⟨outcome, hwhole, hsplit⟩
  have hne : (parseWhole (.new blank) (ascii "GET /a" ++ ascii "b HTTP/1.1\r\n\r\n")).toOption ≠
      (parseSplit (.new blank) (ascii "GET /a") (ascii "b HTTP/1.1\r\n\r\n")).toOption := by
    decide +kernel
  exact hne (by rw [hwhole, hsplit])

end Qslary.Http

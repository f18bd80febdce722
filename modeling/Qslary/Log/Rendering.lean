import Qslary.Log.Scanning

/-!
# Rendering a pattern

What a well-formed pattern is to write, and what it writes.  The second percent sign of an
escape is looked at again, so that it starts a directive of its own: an escape is never
rendered as it is written.
-/

namespace Qslary.Log

open Qslary.Foundation

namespace LoggerFormatter

/-! ## Well-formed patterns -/

/-- The names of the directives. -/
def keys : Bytes := ascii "mprctndflTFN"

inductive Segment where
  | literal (text : Bytes)
  | escape
  | directive (x : UInt8) (arg : Option Bytes)
  deriving DecidableEq, Repr

namespace Segment

def argText : Option Bytes → Bytes
  | none => []
  | some arg => 123 :: arg ++ [125]

def text : Segment → Bytes
  | literal text => text
  | escape => [37, 37]
  | directive x arg => 37 :: x :: argText arg

/-- What the segment stands for. -/
def written (strftime : Bytes → UInt64 → Bytes) (level : LogLevel) (event : LogEvent) :
    Segment → Bytes
  | literal text => text
  | escape => [37]
  | directive x arg =>
      match itemNamed [x] (arg.getD []) with
      | some item => item.format strftime level event
      | none => []

end Segment

def patternOf (segments : List Segment) : Bytes := segments.flatMap Segment.text

/-- A directive without an argument is followed by neither a letter nor a brace. -/
def WellFormed : List Segment → Prop
  | [] => True
  | .literal text :: rest => 37 ∉ text ∧ WellFormed rest
  | .escape :: rest => WellFormed rest
  | .directive x none :: rest =>
      x ∈ keys ∧
        (∀ c ∈ (patternOf rest).head?, isalpha c = false ∧ c ≠ 123 ∧ c ≠ 125) ∧ WellFormed rest
  | .directive x (some arg) :: rest => x ∈ keys ∧ 125 ∉ arg ∧ WellFormed rest

/-- No error, and the segments as they are written, for every event. -/
def Renders (segments : List Segment) : Prop :=
  (⟨patternOf segments⟩ : LoggerFormatter).isError = false ∧
    ∀ strftime level event,
      format strftime ⟨patternOf segments⟩ level event =
        segments.flatMap (Segment.written strftime level event)

/-! ## The scanner without its fuel -/

def scanned (nstr rest : Bytes) : List Piece := scan rest.length nstr rest

theorem scan_eq_scanned {n : Nat} {rest : Bytes} (nstr : Bytes) (hn : rest.length ≤ n) :
    scan n nstr rest = scanned nstr rest := by
  have hdrop : rest.drop 0 = rest := rfl
  have hfuel : rest.length < rest.length + 1 := Nat.lt_succ_self _
  have hmore : outerLoop rest (rest.length + 1) 0 nstr [] false = _ :=
    outerLoop_eq [] false hdrop hfuel hn
  rw [outerLoop_eq [] false hdrop hfuel (Nat.le_refl _)] at hmore
  exact (Prod.mk.inj (Option.some.inj hmore)).1.symm

theorem scanned_plain {c : UInt8} (hc : c ≠ 37) (nstr rest : Bytes) :
    scanned nstr (c :: rest) = scanned (nstr ++ [c]) rest := by
  rw [scanned, List.length_cons, scan, if_pos hc]
  rfl

theorem scanned_literal {text : Bytes} (h : 37 ∉ text) (nstr rest : Bytes) :
    scanned nstr (text ++ rest) = scanned (nstr ++ text) rest := by
  induction text generalizing nstr with
  | nil => rw [List.nil_append, List.append_nil]
  | cons c text ih =>
      have hc : c ≠ 37 := fun heq => h (heq ▸ List.mem_cons_self)
      have htext : 37 ∉ text := fun hmem => h (List.mem_cons_of_mem _ hmem)
      rw [List.cons_append, scanned_plain hc, ih htext, List.append_assoc]
      rfl

theorem scanned_escape (nstr rest : Bytes) :
    scanned nstr (37 :: 37 :: rest) = scanned (nstr ++ [37]) (37 :: rest) := by
  have hhead : (37 :: rest).head? = some 37 := rfl
  rw [scanned, List.length_cons, scan, if_neg (by decide), if_pos hhead]
  rfl

theorem scanned_directive {nstr rest after : Bytes} {piece : Piece} (hnext : rest.head? ≠ some 37)
    (hdirective : directive rest = (piece, after)) :
    scanned nstr (37 :: rest) =
      if piece.kind = 1 then literal nstr ++ piece :: scanned [] after
      else piece :: scanned nstr after := by
  have hshorter := length_directive_le rest
  rw [hdirective] at hshorter
  rw [scanned, List.length_cons, scan, if_neg (by decide), if_neg hnext, hdirective]
  dsimp only
  rw [scan_eq_scanned _ hshorter, scan_eq_scanned _ hshorter]

/-! ## Directives -/

theorem isalpha_of_mem_keys : ∀ x ∈ keys, isalpha x = true := by
  have hall : keys.all isalpha = true := by decide
  exact List.all_eq_true.mp hall

theorem inName_of_isalpha {x : UInt8} (h : isalpha x = true) : inName x = true := by
  simp [inName, h]

theorem directive_none {x : UInt8} {rest : Bytes} (hx : x ∈ keys)
    (hrest : ∀ c ∈ rest.head?, isalpha c = false ∧ c ≠ 123 ∧ c ≠ 125) :
    directive (x :: rest) = (⟨[x], [], 1⟩, rest) := by
  have hname := inName_of_isalpha (isalpha_of_mem_keys x hx)
  cases rest with
  | nil => simp [directive, hname]
  | cons c rest =>
      obtain ⟨halpha, hopen, hclose⟩ := hrest c rfl
      have hend : inName c = false := by simp [inName, halpha, hclose]
      have hdrop : (x :: c :: rest).dropWhile inName = c :: rest := by simp [hname, hend]
      rw [directive_other hdrop hopen]
      simp [hname, hend]

theorem directive_some {x : UInt8} {arg rest : Bytes} (hx : x ∈ keys) (harg : 125 ∉ arg) :
    directive (x :: 123 :: arg ++ 125 :: rest) = (⟨[x], arg, 1⟩, rest) := by
  have hname := inName_of_isalpha (isalpha_of_mem_keys x hx)
  have hopen : inName 123 = false := by decide
  have hdrop : (x :: 123 :: arg ++ 125 :: rest).dropWhile inName = 123 :: (arg ++ 125 :: rest) := by
    simp [hname, hopen]
  rw [directive_closed hdrop harg]
  simp [hname, hopen]

theorem mem_keys_of_wellFormed {x : UInt8} {arg : Option Bytes} {rest : List Segment}
    (h : WellFormed (.directive x arg :: rest)) : x ∈ keys := by
  cases arg <;> exact h.1

/-- The scanner cuts off a directive that is written well. -/
theorem scanned_segment {x : UInt8} {arg : Option Bytes} {rest : List Segment}
    (h : WellFormed (.directive x arg :: rest)) (nstr : Bytes) :
    scanned nstr (37 :: x :: Segment.argText arg ++ patternOf rest) =
      literal nstr ++ ⟨[x], arg.getD [], 1⟩ :: scanned [] (patternOf rest) := by
  have hx := mem_keys_of_wellFormed h
  have hhead : ∀ tail : Bytes, (x :: tail).head? ≠ some 37 := by
    intro tail heq
    have halpha := isalpha_of_mem_keys x hx
    rw [Option.some.inj heq] at halpha
    cases halpha
  cases arg with
  | none => exact (scanned_directive (hhead _) (directive_none hx h.2.1)).trans (if_pos rfl)
  | some arg =>
      have htext : x :: Segment.argText (some arg) ++ patternOf rest =
          x :: 123 :: arg ++ 125 :: patternOf rest := by
        simp [Segment.argText]
      rw [List.cons_append, htext]
      exact (scanned_directive (hhead _) (directive_some hx h.2.1)).trans (if_pos rfl)

theorem wellFormed_tail {segment : Segment} {rest : List Segment}
    (h : WellFormed (segment :: rest)) : WellFormed rest := by
  cases segment with
  | literal text => exact h.2
  | escape => exact h
  | directive x arg => cases arg <;> exact h.2.2

/-! ## What the pieces write -/

/-- The scanner and the table have accepted the pieces. -/
def Accepted (pieces : List Piece) : Prop :=
  ∀ piece ∈ pieces, piece.kind ≠ 2 ∧ (itemOf piece).2 = false

def output (strftime : Bytes → UInt64 → Bytes) (level : LogLevel) (event : LogEvent)
    (pieces : List Piece) : Bytes :=
  pieces.flatMap fun piece => (itemOf piece).1.format strftime level event

variable {strftime : Bytes → UInt64 → Bytes} {level : LogLevel} {event : LogEvent}

theorem accepted_append {first second : List Piece} :
    Accepted (first ++ second) ↔ Accepted first ∧ Accepted second :=
  List.forall_mem_append

theorem accepted_literal (nstr : Bytes) : Accepted (literal nstr) := by
  rw [literal]
  split
  · simp [Accepted, itemOf]
  · simp [Accepted]

theorem output_append (first second : List Piece) :
    output strftime level event (first ++ second) =
      output strftime level event first ++ output strftime level event second := by
  rw [output, List.flatMap_append]
  rfl

theorem output_literal (nstr : Bytes) : output strftime level event (literal nstr) = nstr := by
  rw [literal]
  split
  · simp [output, itemOf, FormatItem.format]
  · rename_i hnil
    simpa [output] using (Classical.not_not.mp hnil).symm

theorem isError_eq_false_iff {f : LoggerFormatter} : f.isError = false ↔ Accepted f.pieces := by
  rw [isError_eq, Bool.or_eq_false_iff, List.any_eq_false, List.any_eq_false, Accepted]
  constructor
  · intro h piece hpiece
    exact ⟨by simpa using h.1 piece hpiece, by simpa using h.2 piece hpiece⟩
  · intro h
    exact ⟨fun piece hpiece => by simpa using (h piece hpiece).1,
      fun piece hpiece => by simpa using (h piece hpiece).2⟩

theorem format_eq (f : LoggerFormatter) :
    format strftime f level event = output strftime level event f.pieces := by
  rw [format, items, List.flatMap_map]
  rfl

theorem itemNamed_of_mem_keys {x : UInt8} (hx : x ∈ keys) (arg : Bytes) :
    ∃ item, itemNamed [x] arg = some item := by
  have hfound : keys.all fun x => (sFormatItems.find? fun entry => ascii entry.1 = [x]).isSome := by
    decide
  obtain ⟨entry, hentry⟩ := Option.isSome_iff_exists.mp (List.all_eq_true.mp hfound x hx)
  refine ⟨entry.2 arg, ?_⟩
  rw [itemNamed, hentry]
  rfl

/-- The piece of a directive that exists writes what the directive stands for. -/
theorem piece_accepted {x : UInt8} (hx : x ∈ keys) (arg : Bytes) :
    (itemOf ⟨[x], arg, 1⟩).2 = false := by
  obtain ⟨item, hitem⟩ := itemNamed_of_mem_keys hx arg
  simp [itemOf, hitem]

theorem piece_written {x : UInt8} (hx : x ∈ keys) (arg : Option Bytes) :
    (itemOf ⟨[x], arg.getD [], 1⟩).1.format strftime level event =
      (Segment.directive x arg).written strftime level event := by
  obtain ⟨item, hitem⟩ := itemNamed_of_mem_keys hx (arg.getD [])
  simp [itemOf, Segment.written, hitem]

/-- The pieces of some segments, and the text in front of them. -/
def Shows (nstr : Bytes) (segments : List Segment) (pieces : List Piece) : Prop :=
  Accepted pieces ∧
    ∀ strftime level event, output strftime level event pieces =
      nstr ++ segments.flatMap (Segment.written strftime level event)

theorem shows_nil (nstr : Bytes) : Shows nstr [] (literal nstr) := by
  refine ⟨accepted_literal nstr, fun strftime level event => ?_⟩
  rw [output_literal, List.flatMap_nil, List.append_nil]

theorem shows_literal {nstr text : Bytes} {rest : List Segment} {pieces : List Piece} :
    Shows nstr (.literal text :: rest) pieces ↔ Shows (nstr ++ text) rest pieces := by
  simp [Shows, Segment.written]

theorem output_directive {x : UInt8} (hx : x ∈ keys) (arg : Option Bytes) (nstr : Bytes)
    (pieces : List Piece) :
    output strftime level event (literal nstr ++ ⟨[x], arg.getD [], 1⟩ :: pieces) =
      nstr ++ ((Segment.directive x arg).written strftime level event ++
        output strftime level event pieces) := by
  rw [output_append, output_literal, ← piece_written hx arg]
  rfl

theorem shows_directive {x : UInt8} (hx : x ∈ keys) (arg : Option Bytes) {nstr : Bytes}
    {rest : List Segment} {pieces : List Piece} :
    Shows nstr (.directive x arg :: rest) (literal nstr ++ ⟨[x], arg.getD [], 1⟩ :: pieces) ↔
      Shows [] rest pieces := by
  have haccepted : Accepted (literal nstr ++ ⟨[x], arg.getD [], 1⟩ :: pieces) ↔
      Accepted pieces := by
    rw [accepted_append, Accepted, Accepted, List.forall_mem_cons]
    constructor
    · exact fun h => h.2.2
    · exact fun h => ⟨accepted_literal nstr, ⟨(by decide : 1 ≠ 2), piece_accepted hx _⟩, h⟩
  rw [Shows, Shows, haccepted]
  simp only [output_directive hx arg, List.flatMap_cons, List.append_cancel_left_eq,
    List.nil_append]

/-! ## Escapes -/

/-- An event of which no item writes a percent sign, or its own name. -/
def sample : LogEvent := ⟨ascii "0", ascii "0", 0, 0, 0, 0, 0, ascii "0", ascii "0"⟩

abbrev sampleTime : Bytes → UInt64 → Bytes := fun _ _ => ascii "0"

theorem entry_sample (arg : Bytes) : ∀ entry ∈ sFormatItems, ∃ c tail,
    (entry.2 arg).format sampleTime .INFO sample = c :: tail ∧ c ≠ 37 ∧ [c] ≠ ascii entry.1 := by
  have hdate : (FormatItem.dateTime arg).format sampleTime .INFO sample = [48] := by
    rw [FormatItem.dateTime]
    split <;> rfl
  simp only [sFormatItems, List.forall_mem_cons, List.not_mem_nil, false_imp_iff, implies_true,
    and_true]
  refine ⟨?_, ?_, ?_, ?_, ?_, ?_, ?_, ?_, ?_, ?_, ?_, ?_⟩
  · exact ⟨48, [], rfl, by decide, by decide⟩
  · exact ⟨73, ascii "NFO", rfl, by decide, by decide⟩
  · exact ⟨48, [], rfl, by decide, by decide⟩
  · exact ⟨48, [], rfl, by decide, by decide⟩
  · exact ⟨48, [], rfl, by decide, by decide⟩
  · exact ⟨10, [], rfl, by decide, by decide⟩
  · exact ⟨48, [], hdate, by decide, by decide⟩
  · exact ⟨48, [], rfl, by decide, by decide⟩
  · exact ⟨48, [], rfl, by decide, by decide⟩
  · exact ⟨9, [], rfl, by decide, by decide⟩
  · exact ⟨48, [], rfl, by decide, by decide⟩
  · exact ⟨48, [], rfl, by decide, by decide⟩

theorem itemNamed_sample {name arg : Bytes} {item : FormatItem}
    (h : itemNamed name arg = some item) :
    ∃ x, name = [x] ∧ x ∈ keys ∧
      ∃ c tail, item.format sampleTime .INFO sample = c :: tail ∧ c ≠ 37 ∧ c ≠ x := by
  have hkeys : ∀ entry ∈ sFormatItems, ∃ x ∈ keys, ascii entry.1 = [x] := by
    decide
  obtain ⟨entry, hfind, rfl⟩ := Option.map_eq_some_iff.mp h
  have hmem := List.mem_of_find?_eq_some hfind
  have hname : ascii entry.1 = name := by simpa using List.find?_some hfind
  obtain ⟨x, hx, hkey⟩ := hkeys entry hmem
  obtain ⟨c, tail, hformat, hpercent, hne⟩ := entry_sample arg entry hmem
  refine ⟨x, hname.symm.trans hkey, hx, c, tail, hformat, hpercent, fun heq => hne ?_⟩
  rw [heq, hkey]

theorem head_of_takeWhile {p : UInt8 → Bool} {rest : Bytes} {x : UInt8}
    (h : rest.takeWhile p = [x]) : rest.head? = some x := by
  cases rest with
  | nil => cases h
  | cons c rest =>
      rw [List.takeWhile_cons] at h
      split at h
      · exact congrArg some (List.cons.inj h).1
      · cases h

theorem itemOf_accepted {piece : Piece} (hkind : piece.kind ≠ 0) (h : (itemOf piece).2 = false) :
    ∃ item, itemNamed piece.text piece.arg = some item ∧ itemOf piece = (item, false) := by
  rw [itemOf, if_neg hkind] at h ⊢
  cases hfound : itemNamed piece.text piece.arg with
  | none =>
      rw [hfound] at h
      cases h
  | some item => exact ⟨item, rfl, rfl⟩

/-- A percent sign that is not read as one starts a directive, and writes what that writes. -/
theorem stray {nstr rest : Bytes} (hnext : rest.head? ≠ some 37)
    (haccepted : Accepted (scanned nstr (37 :: rest))) :
    ∃ x ∈ keys, rest.head? = some x ∧ ∃ c tail,
      output sampleTime .INFO sample (scanned nstr (37 :: rest)) = nstr ++ c :: tail ∧
        c ≠ 37 ∧ c ≠ x := by
  have htext := @directive_text rest
  have hkinds := directive_kind rest
  obtain ⟨⟨piece, after⟩, hdirective⟩ : ∃ d, directive rest = d := ⟨_, rfl⟩
  rw [hdirective] at htext hkinds
  dsimp only at htext hkinds
  rw [scanned_directive hnext hdirective] at haccepted ⊢
  rcases hkinds with hkind | hkind
  · rw [if_pos hkind] at haccepted ⊢
    have hpiece := (accepted_append.mp haccepted).2 piece List.mem_cons_self
    obtain ⟨item, hnamed, hitem⟩ := itemOf_accepted (by omega) hpiece.2
    obtain ⟨x, hname, hx, c, tail, hformat, hpercent, hne⟩ := itemNamed_sample hnamed
    refine ⟨x, hx, head_of_takeWhile ((htext hkind).symm.trans hname), c,
      tail ++ output sampleTime .INFO sample (scanned [] after), ?_, hpercent, hne⟩
    rw [output_append, output_literal, output, List.flatMap_cons, hitem]
    dsimp only
    rw [hformat]
    rfl
  · have hone : ¬ piece.kind = 1 := by omega
    rw [if_neg hone] at haccepted
    exact absurd hkind (haccepted piece List.mem_cons_self).1

/-- What the sample event writes for the segments. -/
abbrev sampled (segments : List Segment) : Bytes :=
  segments.flatMap (Segment.written sampleTime .INFO sample)

theorem directive_sampled {x : UInt8} (hx : x ∈ keys) (arg : Option Bytes) :
    ∃ c tail, (Segment.directive x arg).written sampleTime .INFO sample = c :: tail ∧ c ≠ 37 := by
  obtain ⟨item, hitem⟩ := itemNamed_of_mem_keys hx (arg.getD [])
  obtain ⟨_, -, -, c, tail, hformat, hpercent, -⟩ := itemNamed_sample hitem
  exact ⟨c, tail, by simp [Segment.written, hitem, hformat], hpercent⟩

theorem sampled_escape (before : Bytes) (rest : List Segment) :
    before ++ sampled (.escape :: rest) = before ++ [37] ++ sampled rest := by
  simp [Segment.written]

/-- Two percent signs more, of which one belongs there. -/
theorem replicate_escape (before : Bytes) (extra : Nat) :
    before ++ List.replicate extra 37 ++ [37] ++ [37] =
      before ++ [37] ++ List.replicate (extra + 1) 37 :=
  calc before ++ List.replicate extra 37 ++ [37] ++ [37]
    _ = before ++ List.replicate (extra + 1 + 1) 37 := by
        rw [List.replicate_succ', List.replicate_succ', List.append_assoc, List.append_assoc,
          List.append_assoc]
    _ = before ++ [37] ++ List.replicate (extra + 1) 37 := by
        rw [List.replicate_succ, List.append_assoc]
        rfl

/--
Behind the percent sign that an escape leaves, the output differs from what is to be
written: it has `extra` percent signs too many, and then a directive that is none.
-/
theorem escape_stray {rest : List Segment} (hwf : WellFormed rest) (before : Bytes) (extra : Nat)
    (haccepted : Accepted (scanned (before ++ List.replicate extra 37) (37 :: patternOf rest))) :
    output sampleTime .INFO sample
        (scanned (before ++ List.replicate extra 37) (37 :: patternOf rest)) ≠
      before ++ sampled rest := by
  induction rest generalizing before extra with
  | nil =>
      obtain ⟨x, -, hhead, -⟩ := stray (by simp [patternOf]) haccepted
      cases hhead
  | cons segment rest ih =>
      have hrest := wellFormed_tail hwf
      cases segment with
      | literal text =>
          cases text with
          | nil => exact ih hrest before extra haccepted
          | cons y text =>
              have hplain : y ≠ 37 := fun heq => hwf.1 (heq ▸ List.mem_cons_self)
              have hhead : (patternOf (.literal (y :: text) :: rest)).head? = some y := rfl
              have hnext : (patternOf (.literal (y :: text) :: rest)).head? ≠ some 37 := by
                rw [hhead]
                exact fun heq => hplain (Option.some.inj heq)
              obtain ⟨x, hx, hfirst, c, tail, hout, hpercent, hne⟩ := stray hnext haccepted
              obtain rfl := Option.some.inj (hhead.symm.trans hfirst)
              rw [hout, List.append_assoc]
              intro heq
              have hsame := List.append_cancel_left heq
              cases extra with
              | zero => exact hne (List.cons.inj hsame).1
              | succ extra => exact hplain (List.cons.inj hsame).1.symm
      | escape =>
          have htext : 37 :: patternOf (.escape :: rest) = 37 :: 37 :: 37 :: patternOf rest := rfl
          rw [htext, scanned_escape, scanned_escape, replicate_escape] at haccepted ⊢
          rw [sampled_escape]
          exact ih hrest (before ++ [37]) (extra + 1) haccepted
      | directive x arg =>
          have hx := mem_keys_of_wellFormed hwf
          have htext : 37 :: patternOf (.directive x arg :: rest) =
              37 :: 37 :: x :: Segment.argText arg ++ patternOf rest := rfl
          obtain ⟨c, tail, hwritten, hpercent⟩ := directive_sampled hx arg
          have hscan := scanned_segment hwf (before ++ List.replicate extra 37 ++ [37])
          rw [List.cons_append] at hscan
          rw [htext, List.cons_append, List.cons_append, scanned_escape, hscan,
            output_directive hx arg, sampled, List.flatMap_cons, hwritten, List.append_assoc,
            List.append_assoc]
          intro heq
          have hsame := List.append_cancel_left heq
          cases extra with
          | zero => exact hpercent (List.cons.inj hsame).1.symm
          | succ extra => exact hpercent (List.cons.inj hsame).1.symm

/-! ## When a pattern is rendered as it is written -/

theorem shows_iff {segments : List Segment} (hwf : WellFormed segments) (nstr : Bytes) :
    Shows nstr segments (scanned nstr (patternOf segments)) ↔ .escape ∉ segments := by
  induction segments generalizing nstr with
  | nil => exact iff_of_true (shows_nil nstr) List.not_mem_nil
  | cons segment rest ih =>
      have hrest := wellFormed_tail hwf
      cases segment with
      | literal text =>
          have htext : patternOf (.literal text :: rest) = text ++ patternOf rest := rfl
          rw [htext, scanned_literal hwf.1, shows_literal, ih hrest]
          simp
      | escape =>
          refine iff_of_false ?_ fun h => h List.mem_cons_self
          rintro ⟨haccepted, hout⟩
          have htext : patternOf (.escape :: rest) = 37 :: 37 :: patternOf rest := rfl
          rw [htext, scanned_escape] at haccepted hout
          have hstray := escape_stray hrest (nstr ++ [37]) 0
          rw [List.replicate_zero, List.append_nil] at hstray
          exact hstray haccepted ((hout _ _ _).trans (sampled_escape nstr rest))
      | directive x arg =>
          have hx := mem_keys_of_wellFormed hwf
          have htext : patternOf (.directive x arg :: rest) =
              37 :: x :: Segment.argText arg ++ patternOf rest := rfl
          rw [htext, scanned_segment hwf, shows_directive hx, ih hrest]
          simp

/-- A well-formed pattern is rendered as it is written exactly when it has no escape. -/
theorem renders_iff {segments : List Segment} (hwf : WellFormed segments) :
    Renders segments ↔ .escape ∉ segments := by
  rw [← shows_iff hwf [], Renders, isError_eq_false_iff, Shows]
  simp only [format_eq, List.nil_append]
  rfl

/-- `at %d{%H:%M}%T%m` -/
def message : List Segment :=
  [.literal (ascii "at "), .directive 100 (some (ascii "%H:%M")), .directive 84 none,
    .directive 109 none]

theorem renders_message : Renders message := by
  have htabs : ∀ c ∈ (patternOf [.directive 109 none]).head?,
      isalpha c = false ∧ c ≠ 123 ∧ c ≠ 125 := by
    rintro c ⟨⟩
    decide
  have hwf : WellFormed message :=
    ⟨by decide, by decide, by decide, by decide, htabs, by decide, nofun, trivial⟩
  exact (renders_iff hwf).mpr (by decide)

/-- The escape in `100%% done` is an error. -/
theorem renders_percent :
    WellFormed [.literal (ascii "100"), .escape, .literal (ascii " done")] ∧
      ¬ Renders [.literal (ascii "100"), .escape, .literal (ascii " done")] := by
  refine ⟨⟨by decide, by decide, trivial⟩, fun h => ?_⟩
  exact absurd h.1 (by decide +kernel)

end LoggerFormatter

end Qslary.Log

import Qslary.Http.Chunks

/-!
# How reads divide a response

Where the reads of a connection end depends on where the pieces of its stream do and on how
many bytes the buffer holds, but not on the bytes.  So it can be said which lines of a
response the parser gets whole before more is known of its chunks than their sizes.
-/

namespace Qslary.Http

open Qslary.Foundation

/-! ## Streams without bytes -/

/-- Where the pieces of a stream end, and how many bytes are left. -/
structure Arrivals where
  ends : Nat → Bool
  left : Nat

/--
A line that has arrived: how many of its bytes the last call has seen, what the buffer holds
behind it, and what is still to come.
-/
structure Line where
  seen : Nat
  held : Nat
  arrivals : Arrivals

namespace Arrivals

/-- How many of `left` bytes a read for `length` returns. -/
def reach : (Nat → Bool) → Nat → Nat → Nat
  | _, 0, _ => 0
  | _, _ + 1, 0 => 0
  | ends, length + 1, left + 1 =>
      if ends 0 then 1 else reach (fun i => ends (i + 1)) length left + 1

def read (a : Arrivals) (length : Nat) : Nat := reach a.ends length a.left

def after (a : Arrivals) (n : Nat) : Arrivals := ⟨fun i => a.ends (n + i), a.left - n⟩

/-- The reads for a line of `length` bytes, where a call has seen `seen` and `held` are behind. -/
def line : Nat → Nat → Nat → Arrivals → Line
  | 0, seen, held, a => ⟨seen, held, a⟩
  | length + 1, _, 0, a =>
      line length 1 (a.read HttpConnection.buffSize - 1) (a.after (a.read HttpConnection.buffSize))
  | length + 1, seen, held + 1, a => line length (seen + 1) held a

theorem reach_le (ends : Nat → Bool) (length left : Nat) :
    reach ends length left ≤ length ∧ reach ends length left ≤ left := by
  induction length generalizing ends left with
  | zero => exact ⟨Nat.le_refl 0, Nat.zero_le left⟩
  | succ length ih =>
      cases left with
      | zero => exact ⟨Nat.zero_le _, Nat.le_refl 0⟩
      | succ left =>
          have hrest := ih (fun i => ends (i + 1)) left
          unfold reach
          split
          · exact ⟨Nat.succ_le_succ (Nat.zero_le _), Nat.succ_le_succ (Nat.zero_le _)⟩
          · exact ⟨Nat.succ_le_succ hrest.1, Nat.succ_le_succ hrest.2⟩

theorem read_pos {a : Arrivals} {length : Nat} (hlength : 0 < length) (hleft : 0 < a.left) :
    0 < a.read length := by
  obtain ⟨ends, left⟩ := a
  cases length with
  | zero => cases hlength
  | succ length =>
      cases left with
      | zero => cases hleft
      | succ left =>
          unfold read reach
          split
          · exact Nat.one_pos
          · exact Nat.succ_pos _

theorem after_zero (a : Arrivals) : a.after 0 = a := by
  simp only [after, Nat.zero_add, Nat.sub_zero]

theorem line_of_le {length held : Nat} (h : length ≤ held) (seen : Nat) (a : Arrivals) :
    line length seen held a = ⟨seen + length, held - length, a⟩ := by
  induction length generalizing seen held with
  | zero => rfl
  | succ length ih =>
      cases held with
      | zero => cases h
      | succ held =>
          rw [line, ih (Nat.le_of_succ_le_succ h), Nat.succ_sub_succ, Nat.add_right_comm,
            Nat.add_assoc]

theorem line_of_lt {length held : Nat} (h : held < length) (seen : Nat) (a : Arrivals) :
    line length seen held a = line (length - held) 0 0 a := by
  induction length generalizing seen held with
  | zero => cases h
  | succ length ih =>
      cases held with
      | zero => rfl
      | succ held =>
          rw [line, ih (Nat.lt_of_succ_lt_succ h), Nat.succ_sub_succ]

theorem seen_le (length seen held : Nat) (a : Arrivals) :
    (line length seen held a).seen ≤ seen + length := by
  induction length generalizing seen held a with
  | zero => exact Nat.le_refl _
  | succ length ih =>
      cases held with
      | zero =>
          have hrest := ih 1 (a.read HttpConnection.buffSize - 1)
            (a.after (a.read HttpConnection.buffSize))
          rw [line]
          omega
      | succ held =>
          have hrest := ih (seen + 1) held a
          rw [line]
          omega

/-- With nothing in the buffer the line begins with a read. -/
theorem line_read {length : Nat} {a : Arrivals} (hlength : 0 < length) (hleft : 0 < a.left) :
    line length 0 0 a = line length 0 (a.read HttpConnection.buffSize)
      (a.after (a.read HttpConnection.buffSize)) := by
  have hread : 0 < a.read HttpConnection.buffSize := read_pos (by decide) hleft
  cases length with
  | zero => cases hlength
  | succ length =>
      obtain ⟨n, hn⟩ := Nat.exists_eq_add_of_lt hread
      rw [Nat.zero_add] at hn
      rw [line, hn]
      rfl

end Arrivals

/-! ## Streams with bytes -/

namespace Pieces

def arrivals (s : Pieces) : Arrivals := ⟨s.ends, s.input.length⟩

theorem length_arrived (ends : Nat → Bool) (length : Nat) (input : Bytes) :
    (arrived ends length input).length = Arrivals.reach ends length input.length := by
  induction length generalizing ends input with
  | zero => rfl
  | succ length ih =>
      cases input with
      | nil => rfl
      | cons x rest =>
          unfold arrived Arrivals.reach
          dsimp only [List.length_cons]
          split
          · rfl
          · exact congrArg Nat.succ (ih _ rest)

theorem arrivals_after (s : Pieces) (n : Nat) : (s.after n).arrivals = s.arrivals.after n := by
  simp only [arrivals, after, Arrivals.after, List.length_drop]

theorem read_eq {s : Pieces} (hconnected : s.connected = true) (length : Nat) :
    s.read length = (s.input.take (s.arrivals.read length), s.after (s.arrivals.read length)) := by
  have hlength : (arrived s.ends length s.input).length = s.arrivals.read length :=
    length_arrived s.ends length s.input
  have htake : arrived s.ends length s.input = s.input.take (s.arrivals.read length) := by
    have hwhole := arrived_prefix s.ends length s.input
    have htake := congrArg (List.take (s.arrivals.read length)) hwhole
    rw [← hlength, List.take_left, hlength] at htake
    exact htake
  simp only [read, if_pos hconnected, hlength]
  rw [htake]

/-- However the reads go, the loop gets the bytes that are next. -/
theorem readAll_of_le {bound fuel left : Nat} {s : Pieces} (hbound : 0 < bound)
    (hconnected : s.connected = true) (hfuel : left ≤ fuel) (hle : left ≤ s.input.length) :
    s.readAll bound fuel left = (some (s.input.take left), s.after left) := by
  induction fuel generalizing s left with
  | zero =>
      obtain rfl : left = 0 := Nat.le_zero.mp hfuel
      simp [readAll, after]
  | succ fuel ih =>
      cases left with
      | zero => simp [readAll, after]
      | succ left =>
          have hread := Arrivals.reach_le s.ends (min (left + 1) bound) s.input.length
          have hpos : 0 < s.arrivals.read (min (left + 1) bound) :=
            Arrivals.read_pos (by omega) (Nat.lt_of_lt_of_le (Nat.succ_pos left) hle)
          rw [readAll, read_eq hconnected]
          change s.arrivals.read (min (left + 1) bound) ≤ _ ∧
            s.arrivals.read (min (left + 1) bound) ≤ _ at hread
          generalize s.arrivals.read (min (left + 1) bound) = n at hread hpos
          have hlength : (s.input.take n).length = n := List.length_take_of_le hread.2
          have hrest := @ih (left + 1 - n) (s.after n) hconnected (by omega) (by
            rw [after, List.length_drop]
            omega)
          cases hbytes : s.input.take n with
          | nil =>
              rw [hbytes] at hlength
              exact absurd hlength hpos.ne
          | cons x xs =>
              rw [hbytes] at hlength
              dsimp only
              rw [hlength, hrest]
              have htake : s.input.take n ++ (s.after n).input.take (left + 1 - n) =
                  s.input.take (left + 1) := by
                rw [after, ← List.take_add]
                congr 1
                omega
              have hafter : (s.after n).after (left + 1 - n) = s.after (left + 1) := by
                have hsum : n + (left + 1 - n) = left + 1 := by omega
                simp only [after, List.drop_drop, ← Nat.add_assoc, hsum]
              rw [hbytes] at htake
              simp only [htake, hafter]

/-- The buffer and the stream have `rest` between them. -/
structure Stands (rest : Bytes) (held : Nat) (a : Arrivals) (data : Bytes) (s : Pieces) : Prop where
  bytes : data ++ s.input = rest
  length_eq : data.length = held
  arrivals_eq : s.arrivals = a
  connected : s.connected = true
  fits : data.length ≤ HttpConnection.buffSize

variable {rest : Bytes} {held : Nat} {a : Arrivals} {data : Bytes} {s : Pieces}

theorem Stands.drop (h : Stands rest held a data s) {n : Nat} (hn : n ≤ data.length) :
    Stands (rest.drop n) (held - n) a (data.drop n) s := by
  obtain ⟨hbytes, hlength, harrivals, hconnected, hfits⟩ := h
  refine ⟨?_, ?_, harrivals, hconnected, ?_⟩
  · rw [← hbytes, List.drop_append_of_le_length hn]
  · rw [List.length_drop, hlength]
  · rw [List.length_drop]
    omega

/-- A buffer with something in it before a call. -/
theorem Stands.fill (h : Stands rest held a data s) (hrest : rest ≠ []) (begin : Bool)
    (hbegin : begin = true ∨ data = []) :
    ∃ data' s', HttpConnection.fill begin data s = (some data', s') ∧ data' ≠ [] ∧
      Stands rest data'.length s'.arrivals data' s' ∧
      ∀ length, 0 < length → Arrivals.line length 0 held a =
        Arrivals.line length 0 data'.length s'.arrivals := by
  obtain ⟨hbytes, hlength, harrivals, hconnected, hfits⟩ := h
  unfold HttpConnection.fill
  by_cases hdata : data = []
  · subst hdata
    rw [List.nil_append] at hbytes
    have hleft : 0 < s.arrivals.left := by
      rw [← hbytes] at hrest
      exact List.length_pos_iff.mpr hrest
    have hpos : 0 < s.arrivals.read HttpConnection.buffSize :=
      Arrivals.read_pos (by decide) hleft
    have hread := Arrivals.reach_le s.ends HttpConnection.buffSize s.input.length
    change s.arrivals.read HttpConnection.buffSize ≤ _ ∧
      s.arrivals.read HttpConnection.buffSize ≤ _ at hread
    have hbegins : (!begin || decide (([] : Bytes).length = 0)) = true := by simp
    have hline : ∀ length, 0 < length → Arrivals.line length 0 held a =
        Arrivals.line length 0 (s.arrivals.read HttpConnection.buffSize)
          (s.after (s.arrivals.read HttpConnection.buffSize)).arrivals := by
      intro length hlen
      rw [← hlength, ← harrivals, arrivals_after]
      exact Arrivals.line_read hlen hleft
    rw [if_pos hbegins, List.length_nil, Nat.sub_zero, read_eq hconnected]
    generalize s.arrivals.read HttpConnection.buffSize = n at hpos hread hline
    have hlen : (s.input.take n).length = n := List.length_take_of_le hread.2
    cases htake : s.input.take n with
    | nil =>
        rw [htake] at hlen
        exact absurd hlen hpos.ne
    | cons x xs =>
        refine ⟨x :: xs, s.after n, rfl, List.cons_ne_nil _ _, ⟨?_, rfl, rfl, hconnected, ?_⟩, ?_⟩
        · rw [← htake, after, List.take_append_drop]
          exact hbytes
        · rw [← htake, hlen]
          exact hread.1
        · rw [← htake, hlen]
          exact hline
  · have hfull : ¬ (!begin || decide (data.length = 0)) = true := by
      rcases hbegin with hbegin | hempty
      · simp [hbegin, hdata]
      · exact absurd hempty hdata
    rw [if_neg hfull]
    refine ⟨data, s, rfl, hdata, ⟨hbytes, rfl, rfl, hconnected, hfits⟩, fun length _ => ?_⟩
    rw [hlength, harrivals]

end Pieces

namespace HttpConnection

variable {parser after : HttpResponseParser} {rest data data' : Bytes} {held n fuel : Nat}
  {a : Arrivals} {s s' : Pieces} {begin : Bool}

/-! ## The turns of the loops -/

theorem append_of_prefix_le {front back data tail : Bytes} (h : data ++ tail = front ++ back)
    (hle : data.length ≤ front.length) : ∃ between, front = data ++ between :=
  (List.prefix_of_prefix_length_le ⟨tail, h⟩ (List.prefix_append front back) hle).imp
    fun _ h => h.symm

theorem hasError_iff (parser : HttpResponseParser) :
    parser.hasError = true ↔ parser.error ≠ 0 ∨ parser.parser.cs = 0 := by
  rw [HttpResponseParser.hasError, HttpclientParser.hasError, Bool.or_eq_true, decide_eq_true_eq,
    decide_eq_true_eq]

/-- How a loop goes on behind a call. -/
abbrev Onward := HttpResponseParser → Bytes → Pieces →
  Except Crash (Option (HttpResponseParser × Bytes) × Pieces)

/-- What both loops do after a call. -/
def settled (next : Onward)
    (parser : HttpResponseParser) (data : Bytes) (s : Pieces) :
    Except Crash (Option (HttpResponseParser × Bytes) × Pieces) :=
  if parser.error ≠ 0 ∨ parser.parser.cs = 0 then .ok (none, s.close)
  else if parser.parser.cs = 120 then .ok (some (parser, data), s)
  else next parser data s

theorem settled_eq (next : Onward) (hfits : data.length < buffSize) :
    (if parser.hasError then .ok (none, s.close)
      else if data.length = buffSize then .ok (none, s.close)
      else if parser.isFinished ≠ 0 then .ok (some (parser, data), s)
      else next parser data s) = settled next parser data s := by
  unfold settled
  by_cases herror : parser.hasError = true
  · rw [if_pos herror, if_pos ((hasError_iff parser).mp herror)]
  · rw [if_neg herror, if_neg (fun h => herror ((hasError_iff parser).mpr h)), if_neg hfits.ne]
    simp only [(isFinished_ne_zero_iff herror).2]

theorem settled_error {next : Onward} (h : parser.error ≠ 0 ∨ parser.parser.cs = 0) :
    settled next parser data s = .ok (none, s.close) :=
  if_pos h

theorem settled_open {next : Onward} (herror : parser.error = 0)
    (hopen : parser.parser.cs ≠ 0 ∧ parser.parser.cs ≠ 120) :
    settled next parser data s = next parser data s := by
  rw [settled, if_neg (by simp [herror, hopen.1]), if_neg hopen.2]

theorem settled_done {next : Onward} (herror : parser.error = 0)
    (hcs : parser.parser.cs = 120) :
    settled next parser data s = .ok (some (parser, data), s) := by
  rw [settled, if_neg (by simp [herror, hcs]), if_pos hcs]

theorem recvHeader_turn (hfill : fill false data s = (some data', s'))
    (hexecute : parser.execute data' false = .ok (after, n))
    (hfits : (data'.drop n).length < buffSize) :
    recvHeader (fuel + 1) parser data s = settled (recvHeader fuel) after (data'.drop n) s' := by
  rw [fill, Bool.not_false, Bool.true_or, if_pos rfl] at hfill
  rw [recvHeader]
  cases hread : s.read (buffSize - data.length) with
  | mk bytes s₁ =>
      rw [hread] at hfill
      cases bytes with
      | nil => cases hfill
      | cons byte bytes =>
          cases hfill
          simp only [hexecute, Except.mapError, bind, Except.bind]
          exact settled_eq (recvHeader fuel) hfits

theorem recvSize_turn (hfill : fill begin data s = (some data', s'))
    (hexecute : parser.execute data' true = .ok (after, n))
    (hfits : (data'.drop n).length < buffSize) :
    recvSize (fuel + 1) begin parser data s =
      settled (recvSize fuel false) after (data'.drop n) s' := by
  rw [recvSize, hfill]
  simp only [hexecute, Except.mapError, bind, Except.bind]
  exact settled_eq (recvSize fuel false) hfits

/-- A call that takes all there is without an end or an error. -/
theorem recvHeader_onward (hfill : fill false data s = (some data', s'))
    (hexecute : parser.execute data' false = .ok (after, data'.length)) (herror : after.error = 0)
    (hopen : after.parser.cs ≠ 0 ∧ after.parser.cs ≠ 120) :
    recvHeader (fuel + 1) parser data s = recvHeader fuel after [] s' := by
  have hdrop : (data'.drop data'.length).length < buffSize := by
    rw [List.drop_length]
    exact Nat.succ_pos _
  rw [recvHeader_turn hfill hexecute hdrop, settled_open herror hopen, List.drop_length]

theorem recvSize_onward (hfill : fill begin data s = (some data', s'))
    (hexecute : parser.execute data' true = .ok (after, data'.length)) (herror : after.error = 0)
    (hopen : after.parser.cs ≠ 0 ∧ after.parser.cs ≠ 120) :
    recvSize (fuel + 1) begin parser data s = recvSize fuel false after [] s' := by
  have hdrop : (data'.drop data'.length).length < buffSize := by
    rw [List.drop_length]
    exact Nat.succ_pos _
  rw [recvSize_turn hfill hexecute hdrop, settled_open herror hopen, List.drop_length]

theorem recvSize_failed (hfill : fill begin data s = (some data', s'))
    (hexecute : parser.execute data' true = .ok (after, n)) (hcs : after.parser.cs = 0) :
    recvSize (fuel + 1) begin parser data s = .ok (none, s'.close) := by
  rw [recvSize, hfill]
  simp only [hexecute, Except.mapError, bind, Except.bind,
    if_pos ((hasError_iff after).mpr (Or.inr hcs))]

end HttpConnection

end Qslary.Http

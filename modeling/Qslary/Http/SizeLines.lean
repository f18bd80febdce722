import Qslary.Http.Arrivals

/-!
# Reading a size line

Every call takes what it is given for the beginning of a size line.  So the loop finds the
number in those digits that the call with the line end has, and an error if it has none.
-/

namespace Qslary.Http

open Qslary.Foundation Response

/-! ## The calls on a size line -/

namespace HttpResponseParser

/-- The edges along the digits of a size, and those of the line end. -/
theorem line_checks :
    everyByte [(0, 255)] (fun x => !isDigitOf 16 x || goes next 2 x [] 2) = true ∧
      goes next 2 13 [.chunkSize] 3 = true := by
  decide +kernel

theorem next_lineEnd : next 3 10 = some ⟨[.headerDone], 120, true⟩ := by
  unfold next
  rfl

theorem next_of_digits {x : UInt8} (hdigit : isDigitOf 16 x = true) :
    next 2 x = some ⟨[], 2, false⟩ := by
  have hcheck := of_everyByte line_checks.1 (anyByte x)
  rw [hdigit, Bool.not_true, Bool.false_or] at hcheck
  exact next_of_goes hcheck

variable (start : HttpResponseParser) {data digits : Bytes} (tail : Bytes)

/-- A call that leaves the registers where the first state has them. -/
theorem execute_chunk {machine : HttpclientParser} {halt : Halt Nat} {position : Nat}
    (hdata : data ≠ []) (hshort : data.length < 2 ^ 31)
    (hscan : scan next (act data) 1 0 data (.ok (start.set .init)) =
      ⟨halt, position, .ok (start.set machine)⟩)
    (hposition : position ≤ data.length) (hbody : machine.bodyStart ≤ data.length)
    (hregisters : machine.rewind = machine) :
    start.execute data true = .ok (start.set { machine with
      cs := HttpParser.haltState halt, nread := position }, position) := by
  have hlength := List.length_pos_iff.mpr hdata
  have hrun : (start.set .init).run data = ⟨halt, position, .ok (start.set machine)⟩ := hscan
  have hnread : machine.nread = 0 := (congrArg HttpclientParser.nread hregisters).symm
  have hmark : machine.mark = 0 := (congrArg HttpclientParser.mark hregisters).symm
  have hlen : machine.fieldLen = 0 := (congrArg HttpclientParser.fieldLen hregisters).symm
  have hfield : machine.fieldStart = 0 := (congrArg HttpclientParser.fieldStart hregisters).symm
  have hsound : (machine.settle halt position).sound data.length = true := by
    simp only [HttpclientParser.sound, HttpclientParser.settle, hnread, hmark, hlen, hfield,
      Bool.and_eq_true, decide_eq_true_eq]
    omega
  rw [execute, if_neg (by omega)]
  simp only [if_true, hrun, bind, Except.bind]
  show (if (machine.settle halt position).sound data.length = true then
    Except.ok (start.set (machine.settle halt position), (machine.settle halt position).nread)
    else Except.error Fault.assertion) = _
  rw [if_pos hsound, HttpclientParser.settle, hnread, Nat.zero_add]

/-- Along the digits nothing happens that the first state has not done. -/
theorem scan_digits (buffer : Bytes) (hne : digits ≠ [])
    (hdigits : digits.all (isDigitOf 16) = true) :
    scan next (act buffer) 1 0 (digits ++ tail) (.ok (start.set .init)) =
      scan next (act buffer) 2 digits.length tail (.ok (start.set .init)) := by
  obtain ⟨x, rest, rfl⟩ := List.exists_cons_of_ne_nil hne
  rw [List.all_cons, Bool.and_eq_true] at hdigits
  have hrest : ∀ (p : Nat) (rest : Bytes) (state : Except Fault HttpResponseParser),
      rest.all (isDigitOf 16) = true → scan next (act buffer) 2 p (rest ++ tail) state =
        scan next (act buffer) 2 (p + rest.length) tail state := by
    intro p rest state hall
    induction rest generalizing p with
    | nil => rfl
    | cons y rest ih =>
        rw [List.all_cons, Bool.and_eq_true] at hall
        rw [List.cons_append, scan_cons (next_of_digits hall.1), List.foldl_nil, ih _ hall.2,
          List.length_cons, Nat.add_assoc, Nat.add_comm 1]
  rw [List.cons_append, scan_cons (next_of_digit hdigits.1), hrest _ _ _ hdigits.2,
    List.length_cons, Nat.zero_add, Nat.add_comm 1]
  rfl

/-- Only the digits are there, or some of them. -/
theorem execute_digits (hne : digits ≠ []) (hdigits : digits.all (isDigitOf 16) = true)
    (hshort : digits.length < 2 ^ 31) :
    ∃ after, start.execute digits true = .ok (after, digits.length) ∧ after.parser.cs = 2 ∧
      after.error = start.error := by
  have hscan := scan_digits start [] digits hne hdigits
  rw [List.append_nil] at hscan
  exact ⟨_, execute_chunk start hne hshort hscan (Nat.le_refl _) (Nat.zero_le _) rfl, rfl, rfl⟩

/-- What the edge behind the digits makes of the registers. -/
def taken (n : Nat) : HttpclientParser :=
  { HttpclientParser.init with chunked := true, contentLen := n, chunksDone := decide (n = 0) }

theorem scan_size (rest : Bytes) (hne : digits ≠ []) (hdigits : digits.all (isDigitOf 16) = true)
    (hsmall : valueOf 16 digits < 2 ^ 31) :
    scan next (act (digits ++ 13 :: tail)) 1 0 (digits ++ 13 :: rest) (.ok (start.set .init)) =
      scan next (act (digits ++ 13 :: tail)) 3 (digits.length + 1) rest
        (.ok (start.set (taken (valueOf 16 digits)))) := by
  have hsize : intOf (strtol 16 (digits ++ 13 :: tail)) = (valueOf 16 digits : Int) := by
    rw [strtol_hex hne hdigits (by decide) (by decide) tail (by omega), intOf]
    omega
  have hdone : decide ((valueOf 16 digits : Int) ≤ 0) = decide (valueOf 16 digits = 0) := by
    rw [decide_eq_decide]
    omega
  rw [scan_digits _ _ _ hne hdigits, scan_cons (next_of_goes line_checks.2)]
  show scan next (act (digits ++ 13 :: tail)) 3 (digits.length + 1) rest
    (.ok (start.set { HttpclientParser.init with
      chunked := true
      contentLen := intOf (strtol 16 (digits ++ 13 :: tail))
      chunksDone := decide (intOf (strtol 16 (digits ++ 13 :: tail)) ≤ 0) })) = _
  rw [hsize, hdone]
  rfl

/-- All is there of a size line but the last byte. -/
theorem execute_digits_return (hne : digits ≠ []) (hdigits : digits.all (isDigitOf 16) = true)
    (hsmall : valueOf 16 digits < 2 ^ 31) (hshort : digits.length + 1 < 2 ^ 31) :
    ∃ after, start.execute (digits ++ [13]) true = .ok (after, digits.length + 1) ∧
      after.parser.cs = 3 ∧ after.error = start.error := by
  have hscan := scan_size start [] [] hne hdigits hsmall
  have hlength : (digits ++ [(13 : UInt8)]).length = digits.length + 1 := by
    rw [List.length_append]
    rfl
  exact ⟨_, execute_chunk start (by simp) (by omega) hscan (by omega) (Nat.zero_le _) rfl, rfl,
    rfl⟩

/-- A size line is there, and perhaps more. -/
theorem execute_line (hne : digits ≠ []) (hdigits : digits.all (isDigitOf 16) = true)
    (hsmall : valueOf 16 digits < 2 ^ 31)
    (hshort : (digits ++ 13 :: 10 :: tail).length < 2 ^ 31) :
    ∃ after, start.execute (digits ++ 13 :: 10 :: tail) true = .ok (after, digits.length + 2) ∧
      after.parser.cs = 120 ∧ after.error = start.error ∧
      after.parser.contentLen = (valueOf 16 digits : Int) ∧
      after.parser.chunksDone = decide (valueOf 16 digits = 0) := by
  have hlength : (digits ++ (13 : UInt8) :: 10 :: tail).length =
      digits.length + tail.length + 2 := by
    simp only [List.length_append, List.length_cons]
    omega
  have hscan : scan next (act (digits ++ 13 :: 10 :: tail)) 1 0 (digits ++ 13 :: 10 :: tail)
      (.ok (start.set .init)) = ⟨.stopped 120, digits.length + 2,
        .ok (start.set { taken (valueOf 16 digits) with bodyStart := digits.length + 2 })⟩ := by
    rw [scan_size start _ _ hne hdigits hsmall, scan, next_lineEnd]
    rfl
  refine ⟨_, execute_chunk start (by simp) (by omega) hscan (by omega) ?_ rfl, rfl, rfl, rfl, rfl⟩
  show digits.length + 2 ≤ _
  omega

theorem execute_refused {x : UInt8} (hx : next 1 x = none) (hshort : (x :: tail).length < 2 ^ 31) :
    ∃ after, start.execute (x :: tail) true = .ok (after, 0) ∧ after.parser.cs = 0 := by
  have hscan : scan next (act (x :: tail)) 1 0 (x :: tail) (.ok (start.set .init)) =
      ⟨.failed, 0, .ok (start.set .init)⟩ := by
    rw [scan, hx]
  exact ⟨_, execute_chunk start (List.cons_ne_nil _ _) hshort hscan (Nat.zero_le _)
    (Nat.zero_le _) rfl, rfl⟩

end HttpResponseParser

namespace HttpConnection

variable {parser after : HttpResponseParser} {digits rest data data' text : Bytes}
  {held n fuel : Nat} {a : Arrivals} {s s' : Pieces} {begin : Bool}

/-! ## A size line -/

theorem refuses_lineEnd : next 1 13 = none ∧ next 1 10 = none := by
  unfold next
  exact ⟨rfl, rfl⟩

theorem recvSize_refused (fuel : Nat) (parser : HttpResponseParser) {x : UInt8}
    (hx : next 1 x = none)
    (hstands : Pieces.Stands (x :: rest) held a data s) (hbegin : begin = true ∨ data = []) :
    ∃ s', recvSize (fuel + 1) begin parser data s = .ok (none, s') := by
  obtain ⟨data', s', hfill, hdata, hthere, -⟩ := hstands.fill (List.cons_ne_nil _ _) begin hbegin
  have hbuff : buffSize = 65532 := rfl
  have hfits := hthere.fits
  obtain ⟨y, tail, rfl⟩ := List.exists_cons_of_ne_nil hdata
  obtain ⟨rfl, -⟩ := List.cons.inj hthere.bytes
  obtain ⟨after, hexecute, hcs⟩ :=
    HttpResponseParser.execute_refused parser tail hx (by omega)
  exact ⟨_, recvSize_failed hfill hexecute hcs⟩

/-- The size that the parser has taken from the end of a line, and what is left of the stream. -/
def SizeDone (digits rest : Bytes) (l : Line)
    (result : Except Crash (Option (HttpResponseParser × Bytes) × Pieces)) : Prop :=
  ∃ parser data s, result = .ok (some (parser, data), s) ∧ parser.error = 0 ∧
    parser.parser.contentLen = (valueOf 16 (digits.drop (digits.length + 2 - l.seen)) : Int) ∧
    parser.parser.chunksDone =
      decide (valueOf 16 (digits.drop (digits.length + 2 - l.seen)) = 0) ∧
    Pieces.Stands rest l.held l.arrivals data s

theorem valueOf_drop_le (digits : Bytes) (n : Nat) :
    valueOf 16 (digits.drop n) ≤ valueOf 16 digits := by
  conv_rhs => rw [← List.take_append_drop n digits, valueOf_append]
  exact Nat.le_add_left _ _

/-- A turn with the whole of a line, and perhaps more. -/
theorem recvSize_whole {tail : Bytes} (hne : digits ≠ [])
    (hdigits : digits.all (isDigitOf 16) = true) (hsmall : valueOf 16 digits < 2 ^ 31)
    (herror : parser.error = 0)
    (hfill : fill begin data s = (some (digits ++ 13 :: 10 :: tail), s'))
    (hstands : Pieces.Stands (digits ++ 13 :: 10 :: rest) (digits ++ 13 :: 10 :: tail).length
      s'.arrivals (digits ++ 13 :: 10 :: tail) s') :
    SizeDone digits rest ⟨digits.length + 2, (digits ++ 13 :: 10 :: tail).length -
      (digits.length + 2), s'.arrivals⟩ (recvSize (fuel + 1) begin parser data s) := by
  have hbuff : buffSize = 65532 := rfl
  have hfits := hstands.fits
  have hle : digits.length + 2 ≤ (digits ++ 13 :: 10 :: tail).length := by
    simp only [List.length_append, List.length_cons]
    omega
  have hroom : ((digits ++ 13 :: 10 :: tail).drop (digits.length + 2)).length < buffSize := by
    rw [List.length_drop]
    omega
  obtain ⟨after, hexecute, hcs, hsame, hlength, hdone⟩ :=
    HttpResponseParser.execute_line parser tail hne hdigits hsmall (by omega)
  have hnext := hstands.drop hle
  have hbehind : (digits ++ 13 :: 10 :: rest).drop (digits.length + 2) = rest := by
    rw [List.drop_append, List.drop_of_length_le (by omega), Nat.add_sub_cancel_left]
    rfl
  rw [hbehind] at hnext
  rw [recvSize_turn hfill hexecute hroom, settled_done (hsame.trans herror) hcs]
  refine ⟨_, _, _, rfl, hsame.trans herror, ?_, ?_, hnext⟩
  · rw [Nat.sub_self, List.drop_zero]
    exact hlength
  · rw [Nat.sub_self, List.drop_zero]
    exact hdone

theorem sizeDone_append {front back : Bytes} {l : Line}
    {result : Except Crash (Option (HttpResponseParser × Bytes) × Pieces)}
    (hseen : l.seen ≤ back.length + 2) (h : SizeDone back rest l result) :
    SizeDone (front ++ back) rest l result := by
  have hdrop : (front ++ back).drop ((front ++ back).length + 2 - l.seen) =
      back.drop (back.length + 2 - l.seen) := by
    rw [List.length_append, List.drop_append, List.drop_of_length_le (by omega), List.nil_append]
    congr 1
    omega
  rw [SizeDone, hdrop]
  exact h

/-- The loop over a line that begins with digits. -/
theorem recvSize_line (hne : digits ≠ []) (hdigits : digits.all (isDigitOf 16) = true)
    (hsmall : valueOf 16 digits < 2 ^ 31) (herror : parser.error = 0)
    (hstands : Pieces.Stands (digits ++ 13 :: 10 :: rest) held a data s)
    (hbegin : begin = true ∨ data = []) {fuel : Nat} (hfuel : digits.length + 2 ≤ fuel) :
    if (Arrivals.line (digits.length + 2) 0 held a).seen ≤ 2 then
      ∃ s', recvSize fuel begin parser data s = .ok (none, s')
    else SizeDone digits rest (Arrivals.line (digits.length + 2) 0 held a)
      (recvSize fuel begin parser data s) := by
  induction fuel generalizing begin parser data s digits held a with
  | zero => cases hfuel
  | succ fuel ih =>
      have hbuff : buffSize = 65532 := rfl
      obtain ⟨data', s', hfill, hdata, hthere, hline⟩ := hstands.fill (by simp) begin hbegin
      have hfits := hthere.fits
      have hbytes := hthere.bytes
      have hpos := List.length_pos_iff.mpr hdata
      have hsome := List.length_pos_iff.mpr hne
      have hgone := hthere.drop (Nat.le_refl data'.length)
      rw [List.drop_length, Nat.sub_self] at hgone
      rw [hline _ (by omega)]
      rcases Nat.lt_trichotomy data'.length digits.length with hlt | heq | hgt
      · -- The next call begins with the digits that are missing.
        obtain ⟨back, rfl⟩ := append_of_prefix_le hbytes hlt.le
        rw [List.length_append] at hlt hfuel
        rw [List.all_append, Bool.and_eq_true] at hdigits
        have hvalue : valueOf 16 back ≤ valueOf 16 (data' ++ back) := by
          rw [valueOf_append]
          exact Nat.le_add_left _ _
        obtain ⟨after, hexecute, hcs, hsame⟩ :=
          HttpResponseParser.execute_digits parser hdata hdigits.1 (by omega)
        rw [List.append_assoc, List.drop_left] at hgone
        have hrest := @ih after back [] 0 s'.arrivals s' false
          (List.length_pos_iff.mp (by omega)) hdigits.2 (by omega) (hsame.trans herror) hgone
          (Or.inr rfl) (by omega)
        have hlen : (data' ++ back).length + 2 - data'.length = back.length + 2 := by
          rw [List.length_append]
          omega
        have hseen := Arrivals.seen_le (back.length + 2) 0 0 s'.arrivals
        rw [Nat.zero_add] at hseen
        rw [recvSize_onward hfill hexecute (hsame.trans herror) (by omega),
          Arrivals.line_of_lt (by rw [List.length_append]; omega), hlen]
        split
        · rename_i hle
          rw [if_pos hle] at hrest
          exact hrest
        · rename_i hmore
          rw [if_neg hmore] at hrest
          exact sizeDone_append hseen hrest
      · -- The next call begins with the line end.
        obtain ⟨rfl, -⟩ := List.append_inj hbytes heq
        obtain ⟨after, hexecute, hcs, hsame⟩ :=
          HttpResponseParser.execute_digits parser hdata hdigits (by omega)
        rw [List.drop_left] at hgone
        obtain ⟨fuel, rfl⟩ : ∃ k, fuel = k + 1 := ⟨fuel - 1, by omega⟩
        have hseen := Arrivals.seen_le 2 0 0 s'.arrivals
        rw [recvSize_onward hfill hexecute (hsame.trans herror) (by omega),
          Arrivals.line_of_lt (by omega), Nat.add_sub_cancel_left, if_pos hseen]
        exact recvSize_refused _ _ refuses_lineEnd.1 hgone (Or.inr rfl)
      · obtain ⟨back, rfl⟩ := append_of_prefix_le hbytes.symm hgt.le
        rw [List.append_assoc, List.append_cancel_left_eq] at hbytes
        rw [List.length_append] at hgt
        obtain _ | ⟨x, _ | ⟨y, tail⟩⟩ := back
        · exact absurd hgt (by simp)
        · -- The next call begins with the second byte of the line end.
          obtain ⟨rfl, -⟩ := List.cons.inj hbytes
          have hlen : (digits ++ [(13 : UInt8)]).length = digits.length + 1 := by
            rw [List.length_append]
            rfl
          obtain ⟨after, hexecute, hcs, hsame⟩ :=
            HttpResponseParser.execute_digits_return parser hne hdigits hsmall (by omega)
          rw [← hlen] at hexecute
          have hbehind : (digits ++ 13 :: 10 :: rest).drop (digits ++ [(13 : UInt8)]).length =
              10 :: rest := by
            rw [hlen, List.drop_append, List.drop_of_length_le (by omega),
              Nat.add_sub_cancel_left]
            rfl
          rw [hbehind] at hgone
          obtain ⟨fuel, rfl⟩ : ∃ k, fuel = k + 1 := ⟨fuel - 1, by omega⟩
          have hone : digits.length + 2 - (digits.length + 1) = 1 := by omega
          have hseen := Arrivals.seen_le 1 0 0 s'.arrivals
          rw [recvSize_onward hfill hexecute (hsame.trans herror) (by omega), hlen,
            Arrivals.line_of_lt (by omega), hone, if_pos (by omega)]
          exact recvSize_refused _ _ refuses_lineEnd.2 hgone (Or.inr rfl)
        · obtain ⟨rfl, htail⟩ := List.cons.inj hbytes
          obtain ⟨rfl, -⟩ := List.cons.inj htail
          have hle : digits.length + 2 ≤ (digits ++ 13 :: 10 :: tail).length := by
            simp only [List.length_append, List.length_cons]
            omega
          have hmore : ¬ digits.length + 2 ≤ 2 := by omega
          rw [Arrivals.line_of_le hle, Nat.zero_add, if_neg hmore]
          exact recvSize_whole hne hdigits hsmall herror hfill hthere

end HttpConnection

end Qslary.Http

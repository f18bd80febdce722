import Qslary.Http.Bodies

/-!
# The sizes of chunks

The size of a chunk goes through `strtol` and is narrowed to an `int`, and the sums with
the length of a line end are in `int`.  The parser is initialised before every call, so
that a size line which arrives in two reads is read from where the second one begins.
-/

namespace Qslary.Http

open Qslary.Foundation Response

/-! ## The size line -/

/-- The number in hexadecimal digits that a text begins with. -/
def number (text : Bytes) : Option Nat :=
  match text.takeWhile (isDigitOf 16) with
  | [] => none
  | digits => some (valueOf 16 digits)

/-- Where one call of the parser gets to from its first state. -/
def sizeScan (text : Bytes) : Scanned Nat Unit := scan next (fun _ _ (_ : Action) => ()) 1 0 text ()

/-- The edges from the digits: more of them, or one that takes the size, on no letter `x`. -/
def takesSize (x : UInt8) : Bool :=
  match next 2 x with
  | none => true
  | some ⟨actions, target, stops⟩ =>
      if isDigitOf 16 x then actions = [] ∧ target = 2 ∧ stops = false
      else
        (actions = [.chunkSize] ∨ actions = [.chunkSize, .headerDone]) ∧
          target ∈ [3, 4, 120] ∧ x ≠ 120 ∧ x ≠ 88

/-- Behind the size nothing sets a length. -/
def keepsSize (q : Nat) (x : UInt8) : Bool :=
  match next q x with
  | none => true
  | some ⟨actions, target, _⟩ =>
      target ∈ [3, 4, 5, 6, 7, 120] ∧ .chunkSize ∉ actions ∧ .contentLen ∉ actions

def beginsSize (x : UInt8) : Bool := !isDigitOf 16 x || goes next 1 x [.mark] 2

theorem size_checks :
    everyByte [(0, 255)] takesSize = true ∧ everyByte [(0, 255)] beginsSize = true ∧
      ([3, 4, 5, 6, 7, 120].all fun q => everyByte [(0, 255)] (keepsSize q)) = true := by
  decide +kernel

theorem anyByte (x : UInt8) : within [(0, 255)] x.toNat = true := by
  have hlt := x.toNat_lt
  simp only [within, List.any_cons, List.any_nil, Bool.or_false, Bool.and_eq_true,
    decide_eq_true_eq]
  omega

section

variable {x : UInt8} {edge : Edge Nat Action} {q : Nat}

theorem takesSize_of_next (hnext : next 2 x = some edge) :
    if isDigitOf 16 x then edge = ⟨[], 2, false⟩
    else (edge.actions = [.chunkSize] ∨ edge.actions = [.chunkSize, .headerDone]) ∧
      edge.target ∈ [3, 4, 120] ∧ x ≠ 120 ∧ x ≠ 88 := by
  have hcheck := of_everyByte size_checks.1 (anyByte x)
  obtain ⟨actions, target, stops⟩ := edge
  rw [takesSize, hnext] at hcheck
  dsimp only at hcheck
  split at hcheck
  · rename_i hdigit
    rw [if_pos hdigit]
    obtain ⟨rfl, rfl, rfl⟩ := of_decide_eq_true hcheck
    rfl
  · rename_i hdigit
    rw [if_neg hdigit]
    exact of_decide_eq_true hcheck

theorem keepsSize_of_next (hq : q ∈ [3, 4, 5, 6, 7, 120]) (hnext : next q x = some edge) :
    edge.target ∈ [3, 4, 5, 6, 7, 120] ∧ .chunkSize ∉ edge.actions ∧
      .contentLen ∉ edge.actions := by
  have hcheck := of_everyByte (List.all_eq_true.mp size_checks.2.2 q hq) (anyByte x)
  rw [keepsSize, hnext] at hcheck
  exact of_decide_eq_true hcheck

theorem next_of_digit (hdigit : isDigitOf 16 x = true) : next 1 x = some ⟨[.mark], 2, false⟩ := by
  have hcheck := of_everyByte size_checks.2.1 (anyByte x)
  rw [beginsSize, hdigit] at hcheck
  exact next_of_goes hcheck

end

/-! ## The length that the parser gets -/

namespace HttpResponseParser

variable {buffer : Bytes} {p : Nat} {parser after : HttpResponseParser} {action : Action}

/-- No action moves `nread`, and two of them set the length. -/
theorem registers_perform (h : parser.perform buffer p action = .ok after) :
    after.parser.nread = parser.parser.nread ∧
      (action ≠ .chunkSize → action ≠ .contentLen →
        after.parser.contentLen = parser.parser.contentLen) := by
  cases action with
  | chunkSize | contentLen =>
      cases h
      exact ⟨rfl, by simp⟩
  | mark | fieldStart | fieldLen | connClose | statusCode | chunked | headerDone =>
      cases h
      exact ⟨rfl, fun _ _ => rfl⟩
  | httpVersion =>
      simp only [perform, onResponseVersion, Except.ok.injEq] at h
      subst h
      split
      · exact ⟨rfl, fun _ _ => rfl⟩
      · exact ⟨rfl, fun _ _ => rfl⟩
  | reasonPhrase =>
      obtain ⟨text, -, h⟩ := bind_eq_ok.mp h
      cases h
      exact ⟨rfl, fun _ _ => rfl⟩
  | httpField =>
      simp only [perform, onResponseHttpField] at h
      split at h
      · cases h
        exact ⟨rfl, fun _ _ => rfl⟩
      · obtain ⟨key, -, h⟩ := bind_eq_ok.mp h
        obtain ⟨text, -, h⟩ := bind_eq_ok.mp h
        cases h
        exact ⟨rfl, fun _ _ => rfl⟩

theorem foldl_error (fault : Fault) (actions : List Action) :
    actions.foldl (act buffer p) (.error fault) = .error fault := by
  induction actions with
  | nil => rfl
  | cons action actions ih => exact ih

/-- What every one of some actions keeps, they keep together. -/
theorem of_actions {P : HttpResponseParser → Prop} {actions : List Action}
    (hkeep : ∀ action ∈ actions, ∀ before after,
      before.perform buffer p action = .ok after → P before → P after)
    (h : actions.foldl (act buffer p) (.ok parser) = .ok after) (hparser : P parser) : P after := by
  induction actions generalizing parser with
  | nil =>
      cases h
      exact hparser
  | cons action actions ih =>
      rw [List.foldl_cons] at h
      cases hperform : act buffer p (.ok parser) action with
      | error fault =>
          rw [hperform, foldl_error] at h
          cases h
      | ok mid =>
          rw [hperform] at h
          exact ih (fun other hmem => hkeep other (List.mem_cons_of_mem action hmem)) h
            (hkeep action List.mem_cons_self parser mid hperform hparser)

theorem contentLen_actions {actions : List Action}
    (h : actions.foldl (act buffer p) (.ok parser) = .ok after) (hsize : .chunkSize ∉ actions)
    (hcontent : .contentLen ∉ actions) : after.parser.contentLen = parser.parser.contentLen := by
  refine of_actions (P := fun state => state.parser.contentLen = parser.parser.contentLen) ?_ h rfl
  intro action hmem before after hperform hlength
  refine ((registers_perform hperform).2 ?_ ?_).trans hlength
  · rintro rfl
    exact hsize hmem
  · rintro rfl
    exact hcontent hmem

/-- Where a scan of a size line is, with what it has done for the length so far. -/
inductive Sizing (buffer : Bytes) (n : Nat) :
    Nat → Nat → Bytes → Except Fault HttpResponseParser → Prop
  | start {state} : Sizing buffer n 1 0 buffer state
  | digits {p rest state} (digits : Bytes) (hne : digits ≠ []) (hsplit : buffer = digits ++ rest)
      (hdigits : digits.all (isDigitOf 16) = true)
      (hmark : ∀ parser, state = .ok parser → parser.parser.mark = 0) :
      Sizing buffer n 2 p rest state
  | behind {q p rest state} (hq : q ∈ [3, 4, 5, 6, 7, 120])
      (htaken : ∀ parser, state = .ok parser → parser.parser.contentLen = (n : Int)) :
      Sizing buffer n q p rest state

theorem number_append {digits : Bytes} (hne : digits ≠ [])
    (hdigits : digits.all (isDigitOf 16) = true) {x : UInt8} (hx : isDigitOf 16 x = false)
    (tail : Bytes) : number (digits ++ x :: tail) = some (valueOf 16 digits) := by
  have htake : (digits ++ x :: tail).takeWhile (isDigitOf 16) = digits := by
    rw [List.takeWhile_append_of_pos (List.all_eq_true.mp hdigits), List.takeWhile_cons, hx]
    exact List.append_nil _
  rw [number, htake]
  cases digits with
  | nil => exact absurd rfl hne
  | cons first rest => rfl

/-- The edge that takes the size sets the length to the number. -/
theorem contentLen_chunkSize {digits tail : Bytes} {x : UInt8} {n : Nat} {actions : List Action}
    (hne : digits ≠ []) (hdigits : digits.all (isDigitOf 16) = true)
    (hx : isDigitOf 16 x = false) (hletter : x ≠ 120 ∧ x ≠ 88)
    (hn : number (digits ++ x :: tail) = some n) (hsmall : n < 2 ^ 31)
    (hactions : actions = [.chunkSize] ∨ actions = [.chunkSize, .headerDone])
    (hmark : parser.parser.mark = 0)
    (h : actions.foldl (act (digits ++ x :: tail) p) (.ok parser) = .ok after) :
    after.parser.contentLen = n := by
  rw [number_append hne hdigits hx, Option.some.injEq] at hn
  have hvalue : intOf (strtol 16 (digits ++ x :: tail)) = n := by
    rw [strtol_hex hne hdigits hx hletter tail (by omega), hn, intOf]
    omega
  rcases hactions with hactions | hactions
  · rw [hactions] at h
    cases h
    show intOf (strtol 16 ((digits ++ x :: tail).drop parser.parser.mark)) = n
    rw [hmark]
    exact hvalue
  · rw [hactions] at h
    cases h
    show intOf (strtol 16 ((digits ++ x :: tail).drop parser.parser.mark)) = n
    rw [hmark]
    exact hvalue

theorem number_cons {x : UInt8} {rest : Bytes} {n : Nat} (h : number (x :: rest) = some n) :
    isDigitOf 16 x = true := by
  cases hx : isDigitOf 16 x with
  | true => rfl
  | false =>
      rw [number, List.takeWhile_cons, hx] at h
      cases h

theorem Sizing.step {buffer rest : Bytes} {n q : Nat} {x : UInt8} {edge : Edge Nat Action}
    {state : Except Fault HttpResponseParser} (hn : number buffer = some n) (hsmall : n < 2 ^ 31)
    (hnext : next q x = some edge) (h : Sizing buffer n q p (x :: rest) state) :
    Sizing buffer n edge.target (p + 1) rest (edge.actions.foldl (act buffer p) state) := by
  cases h with
  | start =>
      have hdigit := number_cons hn
      rw [next_of_digit hdigit] at hnext
      cases hnext
      apply Sizing.digits [x] (List.cons_ne_nil _ _) rfl
      · rw [List.all_cons, hdigit]
        rfl
      · intro parser hstate
        cases state with
        | error fault => cases hstate
        | ok before =>
            cases hstate
            rfl
  | digits digits hne hsplit hdigits hmark =>
      have hedge := takesSize_of_next hnext
      cases hx : isDigitOf 16 x with
      | true =>
          rw [hx, if_pos rfl] at hedge
          rw [hedge]
          apply Sizing.digits (digits ++ [x]) (by simp) (by simp [hsplit]) (by simp [hdigits, hx])
          exact hmark
      | false =>
          rw [hx, if_neg Bool.false_ne_true] at hedge
          obtain ⟨hactions, htarget, hletter⟩ := hedge
          apply Sizing.behind
          · simp only [List.mem_cons, List.not_mem_nil, or_false] at htarget ⊢
            omega
          · intro parser hstate
            cases state with
            | error fault =>
                rw [foldl_error] at hstate
                cases hstate
            | ok before =>
                subst hsplit
                exact contentLen_chunkSize hne hdigits hx hletter hn hsmall hactions
                  (hmark before rfl) hstate
  | behind hq htaken =>
      obtain ⟨htarget, hsize, hlength⟩ := keepsSize_of_next hq hnext
      apply Sizing.behind htarget
      intro parser hstate
      cases state with
      | error fault =>
          rw [foldl_error] at hstate
          cases hstate
      | ok before =>
          rw [contentLen_actions hstate hsize hlength]
          exact htaken before rfl

/-- What a call does: the scan, and the registers it leaves. -/
theorem execute_cases {start : HttpResponseParser} {data : Bytes} {chunck : Bool} {nparse : Nat}
    (h : start.execute data chunck = .ok (after, nparse)) :
    ∃ parser, ((if chunck then start.set .init else start).run data).state = .ok parser ∧
      after.parser.contentLen = parser.parser.contentLen ∧
      after.parser.cs =
        HttpParser.haltState ((if chunck then start.set .init else start).run data).halt ∧
      nparse = parser.parser.nread +
        ((if chunck then start.set .init else start).run data).position := by
  unfold execute at h
  generalize (if chunck then start.set .init else start) = first at h ⊢
  split at h
  · cases h
  · obtain ⟨parser, hstate, h⟩ := bind_eq_ok.mp h
    dsimp only at h
    split at h
    · cases h
      exact ⟨parser, hstate, rfl, rfl, rfl⟩
    · cases h

/-- A call that ends on a size line has taken its number. -/
theorem contentLen_of_execute {start : HttpResponseParser} {last : Bytes} {nparse n : Nat}
    (hn : number last = some n) (hsmall : n < 2 ^ 31)
    (hexecute : start.execute last true = .ok (after, nparse)) (hfinal : after.parser.cs = 120) :
    after.parser.contentLen = n := by
  obtain ⟨parser, hstate, hlength, hcs, -⟩ := execute_cases hexecute
  rw [hlength]
  rw [hfinal] at hcs
  have hscan := scan_invariant next (act last) (Sizing last n)
    (fun halt _ state => HttpParser.haltState halt = 120 → ∀ parser, state = .ok parser →
      parser.parser.contentLen = n)
  refine hscan ?_ ?_ ?_ ?_ .start hcs.symm parser hstate
  · intro q p state h hq
    cases h with
    | start => cases hq
    | digits digits hne hsplit hdigits hmark => cases hq
    | behind hmem htaken => exact htaken
  · intro q p x xs state hnext h hq
    cases hq
  · intro q p x xs edge state hnext hstops h hq
    have hstep := h.step hn hsmall hnext
    have htarget : edge.target = 120 := hq
    rw [htarget] at hstep
    cases hstep with
    | behind hmem htaken => exact htaken
  · intro q p x xs edge state hnext hstops h
    exact h.step hn hsmall hnext

/-- What the actions keep on the edges between some states, a scan from one of them keeps. -/
theorem scan_kept {I : Nat → Prop} {P : HttpResponseParser → Prop} {q p : Nat} {data : Bytes}
    {start : HttpResponseParser}
    (hkeep : ∀ q x edge, next q x = some edge → I q → I edge.target ∧
      ∀ action ∈ edge.actions, ∀ p before after,
        before.perform buffer p action = .ok after → P before → P after)
    (hq : I q) (hstart : P start)
    (h : (scan next (act buffer) q p data (.ok start)).state = .ok parser) : P parser := by
  have hactions : ∀ q p x edge (state : Except Fault HttpResponseParser),
      next q x = some edge → (I q ∧ ∀ parser, state = .ok parser → P parser) →
      I edge.target ∧
        ∀ parser, edge.actions.foldl (act buffer p) state = .ok parser → P parser := by
    intro q p x edge state hnext hstate
    obtain ⟨htarget, haction⟩ := hkeep q x edge hnext hstate.1
    refine ⟨htarget, fun parser hfold => ?_⟩
    cases state with
    | error fault =>
        rw [foldl_error] at hfold
        cases hfold
    | ok before =>
        exact of_actions (fun action hmem => haction action hmem p) hfold (hstate.2 before rfl)
  have hscan := scan_invariant next (act buffer)
    (fun q _ _ state => I q ∧ ∀ parser, state = .ok parser → P parser)
    (fun _ _ state => ∀ parser, state = .ok parser → P parser)
  refine hscan (fun _ _ _ h => h.2) (fun _ _ _ _ _ _ h => h.2)
    (fun q p x _ edge state hnext _ h => (hactions q p x edge state hnext h).2)
    (fun q p x _ edge state hnext _ h => hactions q p x edge state hnext h) ⟨hq, ?_⟩ parser h
  intro parser hparser
  cases hparser
  exact hstart

theorem nread_run {start : HttpResponseParser} {data : Bytes}
    (h : (start.run data).state = .ok parser) : parser.parser.nread = 0 := by
  refine scan_kept (I := fun _ => True) (P := fun state => state.parser.nread = 0) ?_ trivial rfl h
  intro q x edge _ _
  refine ⟨trivial, fun action _ p before after hperform hnread => ?_⟩
  exact (registers_perform hperform).1.trans hnread

/-- How far a call gets does not depend on what the parser did before. -/
theorem run_sizeScan (start : HttpResponseParser) (data : Bytes) :
    ((start.set .init).run data).halt = (sizeScan data).halt ∧
      ((start.set .init).run data).position = (sizeScan data).position := by
  refine ⟨?_, position_eq _ _ _ _ _ _ _⟩
  exact (halt_eq_course _ _ _ _ _).trans (halt_eq_course _ _ _ _ _).symm

theorem execute_sizeScan {start : HttpResponseParser} {data : Bytes} {nparse : Nat}
    (h : start.execute data true = .ok (after, nparse)) :
    after.parser.cs = HttpParser.haltState (sizeScan data).halt ∧
      nparse = (sizeScan data).position := by
  obtain ⟨parser, hstate, -, hcs, hnparse⟩ := execute_cases h
  obtain ⟨hhalt, hposition⟩ := run_sizeScan start data
  rw [if_pos rfl, nread_run hstate, Nat.zero_add] at hnparse
  rw [if_pos rfl, hhalt] at hcs
  exact ⟨hcs, hnparse.trans hposition⟩

end HttpResponseParser

/-! ## How a size line arrives -/

namespace HttpConnection

/--
What the parser has been given of a size line by earlier calls, and what by the call that
ends it.
-/
def arrival : Nat → Bool → Bytes → Pieces → Option (Bytes × Bytes)
  | 0, _, _, _ => none
  | fuel + 1, begin, data, s =>
      match fill begin data s with
      | (none, _) => none
      | (some data, s) =>
          match HttpParser.haltState (sizeScan data).halt with
          | 0 => none
          | 120 => some ([], data)
          | _ =>
              (arrival fuel false (data.drop (sizeScan data).position) s).map fun found =>
                (data.take (sizeScan data).position ++ found.1, found.2)

theorem execute_of_mapError {start parser : HttpResponseParser} {data : Bytes} {chunck : Bool}
    {nparse : Nat} (h : (start.execute data chunck).mapError Crash.parser = .ok (parser, nparse)) :
    start.execute data chunck = .ok (parser, nparse) := by
  cases hexecute : start.execute data chunck with
  | error fault =>
      rw [hexecute] at h
      cases h
  | ok result =>
      rw [hexecute] at h
      cases h
      rfl

theorem isFinished_ne_zero_iff {parser : HttpResponseParser} (hsound : ¬ parser.hasError = true) :
    parser.parser.cs ≠ 0 ∧ (parser.isFinished ≠ 0 ↔ parser.parser.cs = 120) := by
  have hcs : parser.parser.hasError = false := by
    cases herror : parser.parser.hasError with
    | false => rfl
    | true => exact absurd (by rw [HttpResponseParser.hasError, herror, Bool.or_true]) hsound
  refine ⟨of_decide_eq_false hcs, ?_⟩
  rw [HttpResponseParser.isFinished, HttpclientParser.finish, hcs, HttpclientParser.isFinished]
  by_cases hfinal : parser.parser.cs = 120
  · simp [hfinal]
  · simp [hfinal]

/-- Where the loop over a size line ends, the last call has found the parser on the end of it. -/
theorem recvSize_arrival {fuel : Nat} {begin : Bool} {start parser : HttpResponseParser}
    {data rest : Bytes} {s s' : Pieces}
    (h : recvSize fuel begin start data s = .ok (some (parser, rest), s')) :
    ∃ before last first nparse, arrival fuel begin data s = some (before, last) ∧
      HttpResponseParser.execute first last true = .ok (parser, nparse) ∧
      parser.parser.cs = 120 ∧ rest = last.drop nparse := by
  induction fuel generalizing begin start data s with
  | zero => cases h
  | succ fuel ih =>
      rw [recvSize] at h
      rw [arrival]
      cases hfill : fill begin data s with
      | mk filled s₁ =>
          rw [hfill] at h
          cases filled with
          | none => cases h
          | some data₁ =>
              obtain ⟨⟨mid, nparse⟩, hexecute, h⟩ := bind_eq_ok.mp h
              have hexecuted := execute_of_mapError hexecute
              obtain ⟨hcs, hnparse⟩ := HttpResponseParser.execute_sizeScan hexecuted
              dsimp only at h ⊢
              rw [← hcs, ← hnparse]
              split at h
              · cases h
              rename_i hsound
              split at h
              · cases h
              split at h
              · rename_i hfinished
                cases h
                have hfinal := (isFinished_ne_zero_iff hsound).2.mp hfinished
                rw [hfinal]
                exact ⟨[], data₁, start, nparse, rfl, hexecuted, rfl, rfl⟩
              · rename_i hopen
                obtain ⟨before, last, first, n, harrival, hlast⟩ := ih h
                refine ⟨data₁.take nparse ++ before, last, first, n, ?_, hlast⟩
                obtain ⟨herror, hfinal⟩ := isFinished_ne_zero_iff hsound
                have hstill : mid.parser.cs ≠ 120 := fun h120 => hopen (hfinal.mpr h120)
                split
                · rename_i hzero
                  exact absurd hzero herror
                · rename_i hlast
                  exact absurd hlast hstill
                · rw [harrival]
                  rfl

/-! ## The copies of one chunk -/

inductive ChunkFault where
  | overflow
  | append
  | memmove
  | resize
  deriving DecidableEq, Repr

/-- A sum of two `int`. -/
def addInt (a b : Int) : Except ChunkFault Int :=
  if -2 ^ 31 ≤ a + b ∧ a + b < 2 ^ 31 then .ok (a + b) else .error .overflow

/-- `body.append(data, n)`, where `len` bytes of the buffer are valid. -/
def append (body cells : Bytes) (len : Nat) (n : Int) : Except ChunkFault Bytes :=
  if 0 ≤ n ∧ n ≤ len then .ok (body ++ cells.take n.toNat) else .error .append

/-- `memmove(data, data + src, n)` -/
def moveFront (cells : Bytes) (len : Nat) (src n : Int) : Except ChunkFault Bytes :=
  if 0 ≤ src ∧ 0 ≤ n ∧ src + n ≤ len then
    match Block.copyWithin cells src.toNat 0 n.toNat with
    | some cells => .ok cells
    | none => .error .memmove
  else .error .memmove

/-- The loop for what the buffer does not hold of a chunk. -/
def readLeft : Nat → Bytes → Bytes → Nat → Pieces →
    Except ChunkFault (Option (Bytes × Bytes) × Pieces)
  | _, body, cells, 0, s => .ok (some (body, cells), s)
  | 0, _, _, _ + 1, s => .ok (none, s)
  | fuel + 1, body, cells, left + 1, s =>
      match s.read (min (left + 1) buffSize) with
      | ([], s) => .ok (none, s.close)
      | (bytes, s) =>
          match Block.blit cells 0 bytes with
          | none => .error .append
          | some cells => do
              let body ← append body cells bytes.length bytes.length
              readLeft fuel body cells (left + 1 - bytes.length) s

/-- One chunk: the body with it, the buffer, and how much of that is valid. -/
def takeChunk (contentLen : Int) (body cells : Bytes) (len : Nat) (s : Pieces) :
    Except ChunkFault (Option (Bytes × Bytes × Nat) × Pieces) := do
  let behind ← addInt contentLen 2
  if behind ≤ len then
    let body ← append body cells len contentLen
    let cells ← moveFront cells len behind (len - contentLen - 2)
    .ok (some (body, cells, (len - behind).toNat), s)
  else
    let body ← append body cells len len
    let missing ← addInt contentLen (-len)
    let left ← addInt missing 2
    match ← readLeft left.toNat body cells left.toNat s with
    | (none, s) => .ok (none, s)
    | (some (body, cells), s) =>
        if body.length < 2 then .error .resize
        else .ok (some (body.take (body.length - 2), cells, 0), s)

theorem append_eq {body data cells : Bytes} {n : Nat} (htake : cells.take data.length = data)
    (hn : n ≤ data.length) : append body cells data.length n = .ok (body ++ data.take n) := by
  have hfront : cells.take n = data.take n := by
    conv_rhs => rw [← htake]
    rw [List.take_take, Nat.min_eq_left hn]
  rw [append, if_pos (by omega), Int.toNat_natCast, hfront]

/-- A move to the front of all that is valid behind `src`. -/
theorem moveFront_eq {data cells : Bytes} {src count : Nat}
    (htake : cells.take data.length = data) (hcells : data.length ≤ cells.length)
    (hcount : src + count = data.length) :
    moveFront cells data.length src count = .ok (data.drop src ++ cells.drop count) := by
  have hslice : Block.slice cells src (src + count) = data.drop src := by
    conv_rhs => rw [← htake]
    rw [Block.slice, List.drop_take, hcount]
  rw [moveFront, if_pos (by omega), Int.toNat_natCast, Int.toNat_natCast,
    Block.copyWithin_eq (Nat.zero_le _) (by omega), hslice, List.take_zero, List.nil_append,
    Nat.zero_add]

/-- What is read over the whole buffer goes behind the body. -/
theorem readLeft_eq {fuel left : Nat} {body cells : Bytes} {s : Pieces} (hfuel : left ≤ fuel)
    (hcells : cells.length = buffSize + 1) :
    ∃ after : Bytes, readLeft fuel body cells left s =
      .ok (match s.readAll buffSize fuel left with
        | (none, s) => (none, s.close)
        | (some bytes, s) => (some (body ++ bytes, after), s)) := by
  induction fuel generalizing left body cells s with
  | zero =>
      obtain rfl : left = 0 := Nat.le_zero.mp hfuel
      exact ⟨cells, by simp [readLeft, Pieces.readAll]⟩
  | succ fuel ih =>
      cases left with
      | zero => exact ⟨cells, by simp [readLeft, Pieces.readAll]⟩
      | succ left =>
          have hread : (s.read (min (left + 1) buffSize)).1.length ≤ min (left + 1) buffSize :=
            Source.length_read_le s _
          rw [readLeft, Pieces.readAll]
          cases hbytes : s.read (min (left + 1) buffSize) with
          | mk bytes s' =>
              rw [hbytes] at hread
              dsimp only at hread
              cases bytes with
              | nil => exact ⟨cells, rfl⟩
              | cons byte bytes =>
                  have hpos : 0 < (byte :: bytes).length := Nat.succ_pos _
                  obtain ⟨next, hnext⟩ : ∃ next, Block.blit cells 0 (byte :: bytes) = some next :=
                    ⟨_, Block.blit_eq (by omega)⟩
                  have hlength := Block.length_blit hnext
                  have htake := Block.take_blit hnext
                  rw [Nat.zero_add, List.take_zero, List.nil_append] at htake
                  have happend : append body next (byte :: bytes).length (byte :: bytes).length =
                      .ok (body ++ byte :: bytes) := by
                    rw [append_eq htake (Nat.le_refl _), List.take_length]
                  obtain ⟨after, hrest⟩ := @ih (left + 1 - (byte :: bytes).length)
                    (body ++ byte :: bytes) next s' (by omega) (hlength.trans hcells)
                  refine ⟨after, ?_⟩
                  simp only [hnext, happend, bind, Except.bind, hrest]
                  split
                  · rename_i heq
                    rw [heq]
                  · rename_i heq
                    rw [heq, List.append_assoc]

/-- The outcome of one chunk, with the buffer cut to what is valid in it. -/
def valid : Option (Bytes × Bytes × Nat) × Pieces → Option (Bytes × Bytes) × Pieces
  | (some (body, cells, len), s) => (some (body, cells.take len), s)
  | (none, s) => (none, s)

theorem length_readAll {bound fuel left : Nat} {s s' : Pieces} {bytes : Bytes}
    (h : s.readAll bound fuel left = (some bytes, s')) : bytes.length = left := by
  induction fuel generalizing left s bytes with
  | zero =>
      cases left with
      | zero =>
          cases h
          rfl
      | succ left => cases h
  | succ fuel ih =>
      cases left with
      | zero =>
          cases h
          rfl
      | succ left =>
          have hread : (s.read (min (left + 1) bound)).1.length ≤ min (left + 1) bound :=
            Source.length_read_le s _
          rw [Pieces.readAll] at h
          split at h
          · cases h
          rename_i got s₁ _ hgot
          rw [hgot] at hread
          split at h
          · rename_i rest s₂ hrest
            cases h
            rw [List.length_append, ih hrest]
            dsimp only at hread
            omega
          · cases h

/-- A length that leaves room for a line end keeps every sum and copy inside. -/
theorem takeChunk_eq {n : Nat} {body data cells : Bytes} {s : Pieces} (hn : n < 2 ^ 31 - 2)
    (hcells : cells.length = buffSize + 1) (hdata : data.length ≤ buffSize)
    (htake : cells.take data.length = data) :
    ∃ result, takeChunk n body cells data.length s = .ok result ∧
      recvChunk n body data s = .ok (valid result) := by
  have hbuff : buffSize = 65532 := rfl
  have hbehind : addInt n 2 = .ok ((n : Int) + 2) := if_pos (by omega)
  have hover : ¬ (2 : Int) ^ 31 ≤ n + 2 := by omega
  unfold takeChunk recvChunk
  rw [if_neg hover]
  by_cases hle : (n : Int) + 2 ≤ data.length
  · have hsign : ¬ (n : Int) < 0 := by omega
    have happend : append body cells data.length n = .ok (body ++ data.take n) :=
      append_eq htake (by omega)
    have hmove : moveFront cells data.length (n + 2) (data.length - n - 2) =
        .ok (data.drop (n + 2) ++ cells.drop (data.length - n - 2)) := by
      have hsrc : (n : Int) + 2 = ((n + 2 : Nat) : Int) := by omega
      have hcount : (data.length : Int) - n - 2 = ((data.length - n - 2 : Nat) : Int) := by omega
      rw [hsrc, hcount]
      exact moveFront_eq htake (by omega) (by omega)
    have hleft : ((data.length : Int) - (n + 2)).toNat = (data.drop (n + 2)).length := by
      rw [List.length_drop]
      omega
    refine ⟨(some (body ++ data.take n, data.drop (n + 2) ++ cells.drop (data.length - n - 2),
      ((data.length : Int) - (n + 2)).toNat), s), ?_, ?_⟩
    · rw [hbehind]
      dsimp only [bind, Except.bind]
      rw [if_pos hle, happend]
      dsimp only
      rw [hmove]
    · rw [if_pos hle, if_neg hsign, valid, hleft, List.take_left, Int.toNat_natCast]
  · have happend : append body cells data.length data.length = .ok (body ++ data) := by
      rw [append_eq htake (Nat.le_refl _), List.take_length]
    have hmissing : addInt n (-data.length) = .ok ((n : Int) - data.length) := if_pos (by omega)
    have hleft : addInt ((n : Int) - data.length) 2 = .ok ((n : Int) - data.length + 2) :=
      if_pos (by omega)
    obtain ⟨after, hread⟩ := @readLeft_eq ((n : Int) - data.length + 2).toNat
      ((n : Int) - data.length + 2).toNat (body ++ data) cells s (Nat.le_refl _) hcells
    rw [if_neg hle, hbehind]
    dsimp only [bind, Except.bind]
    rw [if_neg hle, happend]
    dsimp only
    rw [hmissing]
    dsimp only
    rw [hleft]
    dsimp only
    rw [hread]
    cases hall : s.readAll buffSize ((n : Int) - data.length + 2).toNat
        ((n : Int) - data.length + 2).toNat with
    | mk got s' =>
        cases got with
        | none => exact ⟨_, rfl, rfl⟩
        | some bytes =>
            have hlength := length_readAll hall
            have hroom : ¬ (body ++ data ++ bytes).length < 2 := by
              simp only [List.length_append]
              omega
            simp only [if_neg hroom]
            exact ⟨_, rfl, by rw [valid, List.take_zero]⟩

theorem length_fill {begin : Bool} {data filled : Bytes} {s s' : Pieces}
    (hdata : data.length ≤ buffSize) (h : fill begin data s = (some filled, s')) :
    filled.length ≤ buffSize := by
  have hread : (s.read (buffSize - data.length)).1.length ≤ buffSize - data.length :=
    Source.length_read_le s _
  unfold fill at h
  split at h
  · split at h
    · cases h
    · rename_i bytes s₁ _ hbytes
      rw [hbytes] at hread
      cases h
      rw [List.length_append]
      dsimp only at hread
      omega
  · cases h
    exact hdata

theorem length_recvSize {fuel : Nat} {begin : Bool} {start parser : HttpResponseParser}
    {data rest : Bytes} {s s' : Pieces} (hdata : data.length ≤ buffSize)
    (h : recvSize fuel begin start data s = .ok (some (parser, rest), s')) :
    rest.length ≤ buffSize := by
  induction fuel generalizing begin start data s with
  | zero => cases h
  | succ fuel ih =>
      rw [recvSize] at h
      cases hfill : fill begin data s with
      | mk filled s₁ =>
          rw [hfill] at h
          cases filled with
          | none => cases h
          | some data₁ =>
              have hfilled := length_fill hdata hfill
              obtain ⟨⟨mid, nparse⟩, -, h⟩ := bind_eq_ok.mp h
              have hdrop : (data₁.drop nparse).length ≤ buffSize := by
                rw [List.length_drop]
                omega
              dsimp only at h
              split at h
              · cases h
              split at h
              · cases h
              split at h
              · cases h
                exact hdrop
              · exact ih hdrop h

theorem length_recvChunk {contentLen : Int} {body data body' data' : Bytes} {s s' : Pieces}
    (hdata : data.length ≤ buffSize)
    (h : recvChunk contentLen body data s = .ok (some (body', data'), s')) :
    data'.length ≤ buffSize := by
  unfold recvChunk at h
  split at h
  · cases h
  split at h
  · split at h
    · cases h
    · cases h
      rw [List.length_drop]
      omega
  · dsimp only at h
    split at h
    · cases h
    · split at h
      · cases h
      · cases h
        exact Nat.zero_le _

theorem length_recvHeader {fuel : Nat} {start parser : HttpResponseParser} {data rest : Bytes}
    {s s' : Pieces} (hdata : data.length ≤ buffSize)
    (h : recvHeader fuel start data s = .ok (some (parser, rest), s')) :
    rest.length ≤ buffSize := by
  induction fuel generalizing start data s with
  | zero => cases h
  | succ fuel ih =>
      have hread : (s.read (buffSize - data.length)).1.length ≤ buffSize - data.length :=
        Source.length_read_le s _
      rw [recvHeader] at h
      split at h
      · cases h
      · rename_i bytes s₁ _ hbytes
        rw [hbytes] at hread
        obtain ⟨⟨mid, nparse⟩, -, h⟩ := bind_eq_ok.mp h
        have hdrop : ((data ++ bytes).drop nparse).length ≤ buffSize := by
          rw [List.length_drop, List.length_append]
          dsimp only at hread
          omega
        dsimp only at h
        split at h
        · cases h
        split at h
        · cases h
        split at h
        · cases h
          exact hdrop
        · exact ih hdrop h

end HttpConnection

/-! ## Chunk after chunk -/

/-- What the loop over the chunks starts one of its passes from. -/
structure Pass where
  parser : HttpResponseParser
  body : Bytes
  data : Bytes
  s : Pieces

namespace Pass

open HttpConnection

def recvSize (t : Pass) : Except Crash (Option (HttpResponseParser × Bytes) × Pieces) :=
  HttpConnection.recvSize (t.data.length + t.s.input.length + 1) true t.parser t.data t.s

def arrival (t : Pass) : Option (Bytes × Bytes) :=
  HttpConnection.arrival (t.data.length + t.s.input.length + 1) true t.data t.s

/-- The pass after this one, if there is one. -/
def next (t : Pass) : Option Pass :=
  match t.recvSize with
  | .ok (some (parser, data), s) =>
      match recvChunk parser.parser.contentLen t.body data s with
      | .ok (some (body, data), s) =>
          if parser.parser.chunksDone then none else some ⟨parser, body, data, s⟩
      | _ => none
  | _ => none

/-- The first passes of a run. -/
def passes : Nat → Pass → List Pass
  | 0, _ => []
  | fuel + 1, t =>
      t :: match t.next with
        | none => []
        | some t' => passes fuel t'

/-- The pass in which the chunks of a response begin. -/
def first (start : Pieces) : Option Pass :=
  match recvHeader (start.input.length + 1) .new [] start with
  | .ok (some (parser, data), s) =>
      if parser.parser.chunked then some ⟨parser, [], data, s⟩ else none
  | _ => none

/--
The number in the size line leaves room for a line end in an `int`, and the last call of
the parser finds all of it.
-/
def readable (t : Pass) : Bool :=
  match t.arrival with
  | none => true
  | some (before, last) =>
      match number (before ++ last) with
      | none => false
      | some n => n < 2 ^ 31 - 2 && number last = some n

/-- The length is the number in the size line, and no sum or copy goes outside. -/
structure InBounds (t : Pass) : Prop where
  written : ∀ parser data s, t.recvSize = .ok (some (parser, data), s) →
    ∃ before last n, t.arrival = some (before, last) ∧ number (before ++ last) = some n ∧
      parser.parser.contentLen = (n : Int)
  copies : ∀ parser data s, t.recvSize = .ok (some (parser, data), s) →
    ∀ cells : Bytes, cells.length = buffSize + 1 → cells.take data.length = data →
      ∃ result, takeChunk parser.parser.contentLen t.body cells data.length s = .ok result ∧
        recvChunk parser.parser.contentLen t.body data s = .ok (valid result)

variable {t t' : Pass}

theorem inBounds_of_readable (hdata : t.data.length ≤ buffSize) (h : t.readable = true) :
    t.InBounds := by
  have hlength : ∀ parser data s, t.recvSize = .ok (some (parser, data), s) →
      ∃ before last n, t.arrival = some (before, last) ∧ number (before ++ last) = some n ∧
        parser.parser.contentLen = (n : Int) ∧ n < 2 ^ 31 - 2 := by
    intro parser data s hsize
    obtain ⟨before, last, first, nparse, harrival, hexecute, hfinal, -⟩ := recvSize_arrival hsize
    have harrive : t.arrival = some (before, last) := harrival
    rw [readable, harrive] at h
    dsimp only at h
    split at h
    · cases h
    rename_i n hnumber
    rw [Bool.and_eq_true, decide_eq_true_eq, decide_eq_true_eq] at h
    refine ⟨before, last, n, harrive, hnumber, ?_, h.1⟩
    exact HttpResponseParser.contentLen_of_execute h.2 (by omega) hexecute hfinal
  constructor
  · intro parser data s hsize
    obtain ⟨before, last, n, harrival, hnumber, hlen, -⟩ := hlength parser data s hsize
    exact ⟨before, last, n, harrival, hnumber, hlen⟩
  · intro parser data s hsize cells hcells htake
    obtain ⟨before, last, n, -, -, hlen, hsmall⟩ := hlength parser data s hsize
    rw [hlen]
    exact takeChunk_eq hsmall hcells (length_recvSize hdata hsize) htake

theorem length_next (hdata : t.data.length ≤ buffSize) (h : t.next = some t') :
    t'.data.length ≤ buffSize := by
  unfold next at h
  split at h
  · rename_i parser data s hsize
    split at h
    · rename_i body data' s' hchunk
      split at h
      · cases h
      · cases h
        exact length_recvChunk (length_recvSize hdata hsize) hchunk
    · cases h
  · cases h

theorem length_first {start : Pieces} (h : first start = some t) : t.data.length ≤ buffSize := by
  unfold first at h
  split at h
  · rename_i parser data s hheader
    split at h
    · cases h
      exact length_recvHeader (Nat.zero_le _) hheader
    · cases h
  · cases h

theorem length_passes {fuel : Nat} (hdata : t.data.length ≤ buffSize) :
    ∀ t' ∈ passes fuel t, t'.data.length ≤ buffSize := by
  induction fuel generalizing t with
  | zero => exact fun _ hmem => absurd hmem List.not_mem_nil
  | succ fuel ih =>
      intro t' hmem
      rcases List.mem_cons.mp hmem with heq | hrest
      · rw [heq]
        exact hdata
      · cases hnext : t.next with
        | none =>
            rw [hnext] at hrest
            cases hrest
        | some after =>
            rw [hnext] at hrest
            exact ih (length_next hdata hnext) t' hrest

/-- A chunk whose copies stay inside is short enough for its line end. -/
theorem lt_of_takeChunk {n : Nat} {body cells : Bytes} {len : Nat} {s : Pieces}
    {result : Option (Bytes × Bytes × Nat) × Pieces}
    (h : takeChunk n body cells len s = .ok result) : n < 2 ^ 31 - 2 := by
  unfold takeChunk addInt at h
  split at h
  · omega
  · cases h

/-- Of a size line that arrives whole the number alone decides. -/
theorem readable_of_inBounds {last data : Bytes} {parser : HttpResponseParser} {s : Pieces}
    (hdata : t.data.length ≤ buffSize) (hwhole : t.arrival = some ([], last))
    (hsize : t.recvSize = .ok (some (parser, data), s)) (h : t.InBounds) : t.readable = true := by
  obtain ⟨before, last', n, harrival, hnumber, hlen⟩ := h.written parser data s hsize
  rw [hwhole] at harrival
  cases harrival
  rw [List.nil_append] at hnumber
  have hshort := length_recvSize hdata hsize
  have hcells : (data ++ List.replicate (buffSize + 1 - data.length) 0).length = buffSize + 1 := by
    rw [List.length_append, List.length_replicate]
    omega
  obtain ⟨result, htake, -⟩ := h.copies parser data s hsize _ hcells List.take_left
  rw [hlen] at htake
  rw [readable, hwhole]
  simp only [List.nil_append, hnumber, decide_true, Bool.and_true, decide_eq_true_eq]
  exact lt_of_takeChunk htake

end Pass

/--
In the passes of a run that can read their size lines nothing goes outside; and if nothing
does in a pass whose size line arrives whole, that pass can read it.
-/
theorem chunks_in_bounds {start : Pieces} {first : Pass} (hfirst : Pass.first start = some first)
    (fuel : Nat) :
    ((∀ t ∈ Pass.passes fuel first, t.readable = true) →
      ∀ t ∈ Pass.passes fuel first, t.InBounds) ∧
    ∀ t ∈ Pass.passes fuel first, ∀ last parser data s, t.arrival = some ([], last) →
      t.recvSize = .ok (some (parser, data), s) → t.InBounds → t.readable = true := by
  have hdata : ∀ t ∈ Pass.passes fuel first, t.data.length ≤ HttpConnection.buffSize :=
    Pass.length_passes (Pass.length_first hfirst)
  constructor
  · intro hreadable t hmem
    exact Pass.inBounds_of_readable (hdata t hmem) (hreadable t hmem)
  · intro t hmem last parser data s hwhole hsize hbounds
    exact Pass.readable_of_inBounds (hdata t hmem) hwhole hsize hbounds

/-- A response with chunks, all of which has arrived. -/
def chunkedResponse (chunks : Bytes) : Pieces where
  input := ascii "HTTP/1.1 200 OK\r\nTransfer-Encoding: chunked\r\n\r\n" ++ chunks
  ends := fun _ => false
  connected := true

theorem chunks_in_bounds_hello :
    ∃ first, Pass.first (chunkedResponse (ascii "5\r\nhello\r\n0\r\n\r\n")) = some first ∧
      ∀ t ∈ Pass.passes 3 first, t.InBounds := by
  have hreadable : (Pass.first (chunkedResponse (ascii "5\r\nhello\r\n0\r\n\r\n"))).any
      (fun first => (Pass.passes 3 first).all Pass.readable) = true := by
    decide +kernel
  cases hfirst : Pass.first (chunkedResponse (ascii "5\r\nhello\r\n0\r\n\r\n")) with
  | none =>
      rw [hfirst] at hreadable
      cases hreadable
  | some first =>
      rw [hfirst] at hreadable
      exact ⟨first, rfl, (chunks_in_bounds hfirst 3).1 (List.all_eq_true.mp hreadable)⟩

/-- With the line end the size of a chunk is more than an `int` holds. -/
theorem chunk_size_overflows :
    ∃ first, Pass.first (chunkedResponse (ascii "7fffffff\r\n")) = some first ∧
      ¬ first.InBounds := by
  have hsize : (Pass.first (chunkedResponse (ascii "7fffffff\r\n"))).any
      (fun first =>
        match first.recvSize with
        | .ok (some (parser, data), _) =>
            parser.parser.contentLen = ((2147483647 : Nat) : Int) ∧ data = []
        | _ => false) = true := by
    decide +kernel
  cases hfirst : Pass.first (chunkedResponse (ascii "7fffffff\r\n")) with
  | none =>
      rw [hfirst] at hsize
      cases hsize
  | some first =>
      rw [hfirst, Option.any_some] at hsize
      refine ⟨first, rfl, fun hbounds => ?_⟩
      split at hsize
      · rename_i parser data s hrecv
        obtain ⟨hlength, rfl⟩ := of_decide_eq_true hsize
        obtain ⟨result, htake, -⟩ := hbounds.copies parser [] s hrecv
          (List.replicate (HttpConnection.buffSize + 1) 0) List.length_replicate rfl
        rw [hlength] at htake
        exact absurd (Pass.lt_of_takeChunk htake) (by decide)
      · cases hsize

end Qslary.Http

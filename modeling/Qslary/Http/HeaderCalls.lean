import Qslary.Http.Chunks
import Qslary.Http.RequestRuns

/-!
# Calls of the response parser

A call of `httpclient_parser_execute` goes through if every field that it reports had the
end of its name in sight.  What it finds of the header does not depend on where the calls
divide it, except for the version, which is compared in the buffer of one call.
-/

namespace Qslary.Http

open Qslary.Foundation Response

/-! ## What a scan is watched for -/

/-- Chunks are announced; a name has begun and not ended; a field was reported like that. -/
structure Watch where
  announced : Bool
  opened : Bool
  astray : Bool
  deriving DecidableEq, Repr

namespace Watch

def start : Watch := ⟨false, false, false⟩

def act (w : Watch) : Action → Watch
  | .chunked | .chunkSize => { w with announced := true }
  | .fieldStart => { w with opened := true }
  | .fieldLen => { w with opened := false }
  | .httpField => { w with astray := w.astray || w.opened }
  | _ => w

/-- The scan of a text from a state of the automaton. -/
def scanFrom (w : Watch) (cs : Nat) (text : Bytes) : Scanned Nat Watch :=
  scan next (fun _ => act) cs 0 text w

theorem astray_act {w : Watch} (h : w.astray = true) (action : Action) :
    (w.act action).astray = true := by
  cases action <;> simp [act, h]

theorem astray_foldl {w : Watch} (h : w.astray = true) (actions : List Action) :
    (actions.foldl act w).astray = true := by
  induction actions generalizing w with
  | nil => exact h
  | cons action actions ih => exact ih (astray_act h action)

end Watch

namespace HttpResponseParser

/-! ## The registers in a call -/

/-- Every register is inside what the call has seen, up to the byte at `m`. -/
structure Within (m : Nat) (parser : HttpResponseParser) (w : Watch) : Prop where
  mark_le : parser.parser.mark ≤ m
  fieldStart_le : parser.parser.fieldStart ≤ m
  fieldLen_le : parser.parser.fieldLen ≤ m
  field_le : w.opened = false → parser.parser.fieldStart + parser.parser.fieldLen ≤ m
  bodyStart_le : parser.parser.bodyStart ≤ m + 1
  nread_eq : parser.parser.nread = 0
  chunked_eq : parser.parser.chunked = w.announced

variable {buffer : Bytes} {m p : Nat} {parser : HttpResponseParser} {w : Watch}

theorem Within.mono (h : Within m parser w) (hle : m ≤ p) : Within p parser w where
  mark_le := h.mark_le.trans hle
  fieldStart_le := h.fieldStart_le.trans hle
  fieldLen_le := h.fieldLen_le.trans hle
  field_le hopen := (h.field_le hopen).trans hle
  bodyStart_le := h.bodyStart_le.trans (Nat.succ_le_succ hle)
  nread_eq := h.nread_eq
  chunked_eq := h.chunked_eq

theorem len_of_le {start p : Nat} (h : start ≤ p) : HttpParser.len start p = p - start := if_pos h

theorem mark_fits {start : Nat} (hmark : start ≤ p) (hp : p < buffer.length) :
    HttpParser.len start p ≤ (buffer.drop start).length := by
  rw [len_of_le hmark, List.length_drop]
  omega

/-- An action on the byte at `p` goes through, unless a field is reported astray. -/
theorem Within.perform (h : Within p parser w) (hp : p < buffer.length) (action : Action) :
    (w.act action).astray = true ∨
      ∃ after, parser.perform buffer p action = .ok after ∧ Within p after (w.act action) := by
  obtain ⟨hmark, hstart, hlen, hfield, hbody, hnread, hchunked⟩ := h
  cases action with
  | mark => exact Or.inr ⟨_, rfl, le_rfl, hstart, hlen, hfield, hbody, hnread, hchunked⟩
  | fieldStart => exact Or.inr ⟨_, rfl, hmark, le_rfl, hlen, nofun, hbody, hnread, hchunked⟩
  | fieldLen =>
      have hnew := len_of_le hstart
      refine Or.inr ⟨_, rfl, hmark, hstart, ?_, fun _ => ?_, hbody, hnread, hchunked⟩
      · show HttpParser.len parser.parser.fieldStart p ≤ p
        omega
      · show parser.parser.fieldStart + HttpParser.len parser.parser.fieldStart p ≤ p
        omega
  | contentLen | connClose | statusCode =>
      exact Or.inr ⟨_, rfl, hmark, hstart, hlen, hfield, hbody, hnread, hchunked⟩
  | headerDone =>
      exact Or.inr ⟨_, rfl, hmark, hstart, hlen, hfield, le_rfl, hnread, hchunked⟩
  | chunkSize | chunked =>
      exact Or.inr ⟨_, rfl, hmark, hstart, hlen, hfield, hbody, hnread, rfl⟩
  | httpVersion =>
      refine Or.inr ⟨_, rfl, ?_⟩
      unfold onResponseVersion
      split
      · exact ⟨hmark, hstart, hlen, hfield, hbody, hnread, hchunked⟩
      · exact ⟨hmark, hstart, hlen, hfield, hbody, hnread, hchunked⟩
  | reasonPhrase =>
      have htext := mark_fits hmark hp
      have hafter : parser.perform buffer p .reasonPhrase = .ok { parser with
          data := { parser.data with
            reason := (buffer.drop parser.parser.mark).take
              (HttpParser.len parser.parser.mark p) } } := by
        simp only [HttpResponseParser.perform, onResponseReason, string, if_pos htext]
        rfl
      exact Or.inr ⟨_, hafter, hmark, hstart, hlen, hfield, hbody, hnread, hchunked⟩
  | httpField =>
      cases hopen : w.opened with
      | true => exact Or.inl (by simp [Watch.act, hopen])
      | false =>
          have hname := hfield hopen
          have htext := mark_fits hmark hp
          have hkey : parser.parser.fieldLen ≤ (buffer.drop parser.parser.fieldStart).length := by
            rw [List.length_drop]
            omega
          have hsame : Within p parser (w.act .httpField) :=
            ⟨hmark, hstart, hlen, hfield, hbody, hnread, hchunked⟩
          simp only [HttpResponseParser.perform, onResponseHttpField, string, if_pos htext,
            if_pos hkey]
          split
          · exact Or.inr ⟨parser, rfl, hsame⟩
          · exact Or.inr ⟨_, rfl, hmark, hstart, hlen, hfield, hbody, hnread, hchunked⟩

/-- A state in front of the byte at `p`: the registers are inside, or a field has gone astray. -/
def Inside (p : Nat) (state : Except Fault HttpResponseParser) (w : Watch) : Prop :=
  w.astray = true ∨ ∃ parser, state = .ok parser ∧ Within (p - 1) parser w

theorem Within.actions (h : Within p parser w) (hp : p < buffer.length) (actions : List Action) :
    Inside (p + 1) (actions.foldl (act buffer p) (.ok parser)) (actions.foldl Watch.act w) := by
  induction actions generalizing parser w with
  | nil => exact Or.inr ⟨parser, rfl, h⟩
  | cons action actions ih =>
      rcases h.perform hp action with hastray | ⟨mid, hmid, hwithin⟩
      · exact Or.inl (Watch.astray_foldl hastray actions)
      · have hact : act buffer p (.ok parser) action = .ok mid := hmid
        rw [List.foldl_cons, List.foldl_cons, hact]
        exact ih hwithin

theorem Inside.actions {state : Except Fault HttpResponseParser} (h : Inside p state w)
    (hp : p < buffer.length) (actions : List Action) :
    Inside (p + 1) (actions.foldl (act buffer p) state) (actions.foldl Watch.act w) := by
  rcases h with hastray | ⟨parser, rfl, hwithin⟩
  · exact Or.inl (Watch.astray_foldl hastray actions)
  · exact (hwithin.mono (Nat.sub_le p 1)).actions hp actions

/-- The scan of a call against the scan of the watch. -/
theorem run_within {start : HttpResponseParser} (hbody : start.parser.bodyStart ≤ 1)
    (hchunked : start.parser.chunked = w.announced) (data : Bytes) :
    (start.run data).halt = (w.scanFrom start.parser.cs data).halt ∧
      (start.run data).position = (w.scanFrom start.parser.cs data).position ∧
      Inside (w.scanFrom start.parser.cs data).position (start.run data).state
        (w.scanFrom start.parser.cs data).state := by
  have hscan : (start.run data).halt = (w.scanFrom start.parser.cs data).halt ∧
      (start.run data).position = 0 + (w.scanFrom start.parser.cs data).position ∧
      Inside (w.scanFrom start.parser.cs data).position (start.run data).state
        (w.scanFrom start.parser.cs data).state := by
    refine scan_related next (act data) (fun _ => Watch.act) 0
      (fun _ p rest state w => p + rest.length = data.length ∧ Inside p state w)
      (fun _ p state w => Inside p state w) ?_ ?_ ?_ ?_ (p := 0)
      ⟨Nat.zero_add _, Or.inr ⟨_, rfl, ?_⟩⟩
    · exact fun q p state w h => h.2
    · exact fun q p x xs state w _ h => h.2
    · intro q p x xs edge state w _ _ h
      have hlength := h.1
      rw [List.length_cons] at hlength
      rw [Nat.zero_add]
      exact h.2.actions (by omega) edge.actions
    · intro q p x xs edge state w _ _ h
      have hlength := h.1
      rw [List.length_cons] at hlength
      rw [Nat.zero_add]
      exact ⟨by omega, h.2.actions (by omega) edge.actions⟩
    · exact ⟨Nat.zero_le _, Nat.zero_le _, Nat.zero_le _, fun _ => Nat.zero_le _, hbody, rfl,
        hchunked⟩
  rwa [Nat.zero_add] at hscan

/-- A call on bytes of which no field is reported astray. -/
theorem execute_within {start : HttpResponseParser} {data : Bytes} (hdata : data ≠ [])
    (hshort : data.length < 2 ^ 31) (hbody : start.parser.bodyStart ≤ 1)
    (hchunked : start.parser.chunked = w.announced)
    (hkept : (w.scanFrom start.parser.cs data).state.astray = false) :
    ∃ parser after, (start.run data).state = .ok parser ∧
      start.execute data false = .ok (after, (w.scanFrom start.parser.cs data).position) ∧
      after.parser.cs = HttpParser.haltState (w.scanFrom start.parser.cs data).halt ∧
      after.parser.chunked = (w.scanFrom start.parser.cs data).state.announced ∧
      after.parser.bodyStart = parser.parser.bodyStart ∧ after.error = parser.error := by
  obtain ⟨hhalt, hposition, hstate⟩ := run_within hbody hchunked data
  rw [Inside, hkept] at hstate
  rcases hstate with hfalse | ⟨parser, hparser, hwithin⟩
  · cases hfalse
  have hseen := (position_of_halt next (fun _ => Watch.act) start.parser.cs 0 data w).1
  rw [Nat.zero_add] at hseen
  change (w.scanFrom start.parser.cs data).position ≤ data.length at hseen
  have hlength := List.length_pos_iff.mpr hdata
  obtain ⟨hmark, hstart, hlen, -, hbodyStart, hnread, hannounced⟩ := hwithin
  have hsound : (parser.parser.settle (start.run data).halt (start.run data).position).sound
      data.length = true := by
    simp only [HttpclientParser.sound, HttpclientParser.settle, hnread, hposition,
      Bool.and_eq_true, decide_eq_true_eq]
    omega
  refine ⟨parser, parser.set (parser.parser.settle (start.run data).halt (start.run data).position),
    hparser, ?_, ?_, hannounced, rfl, rfl⟩
  · rw [execute, if_neg (by omega)]
    simp only [Bool.false_eq_true, if_false, hparser, bind, Except.bind, hsound, if_true]
    rw [HttpclientParser.settle, hnread, hposition, Nat.zero_add]
  · show HttpParser.haltState (start.run data).halt = _
    rw [hhalt]

/-! ## What a call leaves as it is -/

theorem headerDone_not_mem {q : Nat} {x : UInt8} {edge : Edge Nat Action}
    (hnext : next q x = some edge) (hstops : edge.stops = false) :
    .headerDone ∉ edge.actions := by
  unfold next follow at hnext
  obtain ⟨arc, -, rfl⟩ := Option.map_eq_some_iff.mp hnext
  intro hmem
  exact absurd hstops (by simpa using hmem)

theorem kept_perform {after : HttpResponseParser} {action : Action}
    (h : parser.perform buffer p action = .ok after) :
    (action ≠ .headerDone → after.parser.bodyStart = parser.parser.bodyStart) ∧
      (action ≠ .httpVersion → after.error = parser.error) := by
  cases action with
  | headerDone =>
      cases h
      exact ⟨fun hne => absurd rfl hne, fun _ => rfl⟩
  | chunkSize | contentLen | mark | fieldStart | fieldLen | connClose | statusCode | chunked =>
      cases h
      exact ⟨fun _ => rfl, fun _ => rfl⟩
  | httpVersion =>
      simp only [perform, onResponseVersion, Except.ok.injEq] at h
      subst h
      refine ⟨fun _ => ?_, fun hne => absurd rfl hne⟩
      split
      · rfl
      · rfl
  | reasonPhrase =>
      obtain ⟨text, -, h⟩ := bind_eq_ok.mp h
      cases h
      exact ⟨fun _ => rfl, fun _ => rfl⟩
  | httpField =>
      simp only [perform, onResponseHttpField] at h
      split at h
      · cases h
        exact ⟨fun _ => rfl, fun _ => rfl⟩
      · obtain ⟨key, -, h⟩ := bind_eq_ok.mp h
        obtain ⟨text, -, h⟩ := bind_eq_ok.mp h
        cases h
        exact ⟨fun _ => rfl, fun _ => rfl⟩

theorem bodyStart_actions {after : HttpResponseParser} {actions : List Action}
    (h : actions.foldl (act buffer p) (.ok parser) = .ok after) (hheader : .headerDone ∉ actions) :
    after.parser.bodyStart = parser.parser.bodyStart := by
  refine of_actions (P := fun state => state.parser.bodyStart = parser.parser.bodyStart) ?_ h rfl
  intro action hmem before after hperform hbody
  refine ((kept_perform hperform).1 ?_).trans hbody
  rintro rfl
  exact hheader hmem

/-- Only the end of the header sets the start of the body. -/
theorem bodyStart_of_ended {q q' p' : Nat} {data : Bytes} {start after : HttpResponseParser}
    (hended : (scan next (act buffer) q p' data (.ok start)).halt = .ended q')
    (hafter : (scan next (act buffer) q p' data (.ok start)).state = .ok after) :
    after.parser.bodyStart = start.parser.bodyStart := by
  have hscan := scan_invariant next (act buffer)
    (fun _ _ _ state => ∀ after, state = .ok after →
      after.parser.bodyStart = start.parser.bodyStart)
    (fun halt _ state => halt = .ended q' → ∀ after, state = .ok after →
      after.parser.bodyStart = start.parser.bodyStart)
  refine hscan (fun _ _ _ h _ => h) (fun _ _ _ _ _ _ _ => nofun)
    (fun _ _ _ _ _ _ _ _ _ => nofun) ?_ ?_ hended after hafter
  · intro q p x xs edge state hnext hstops h after hfold
    cases state with
    | error fault =>
        rw [foldl_error] at hfold
        cases hfold
    | ok before =>
        rw [bodyStart_actions hfold (headerDone_not_mem hnext hstops)]
        exact h before rfl
  · intro after hafter
    cases hafter
    rfl

/-- The states behind the version. -/
def behindVersion (q : Nat) : Bool := q = 3 || (16 ≤ q && q ≤ 123)

theorem version_checks :
    ((List.range 124).all fun q => !behindVersion q || (row q).all fun arc =>
      .httpVersion ∉ arc.actions && behindVersion arc.target) = true := by
  decide +kernel

theorem keepsVersion_of_next {q : Nat} {x : UInt8} {edge : Edge Nat Action}
    (hq : behindVersion q = true) (hnext : next q x = some edge) :
    .httpVersion ∉ edge.actions ∧ behindVersion edge.target = true := by
  have hlt : q < 124 := by
    simp only [behindVersion, Bool.or_eq_true, Bool.and_eq_true, decide_eq_true_eq] at hq
    omega
  have hcheck := List.all_eq_true.mp version_checks q (List.mem_range.mpr hlt)
  rw [hq, Bool.not_true, Bool.false_or] at hcheck
  unfold next follow at hnext
  obtain ⟨arc, harc, rfl⟩ := Option.map_eq_some_iff.mp hnext
  have hkeeps := List.all_eq_true.mp hcheck arc (List.mem_of_find?_eq_some harc)
  rw [Bool.and_eq_true, decide_eq_true_eq] at hkeeps
  exact hkeeps

theorem error_behindVersion {q p' : Nat} {data : Bytes} {start after : HttpResponseParser}
    (hq : behindVersion q = true)
    (hafter : (scan next (act buffer) q p' data (.ok start)).state = .ok after) :
    after.error = start.error := by
  refine scan_kept (I := fun q => behindVersion q = true)
    (P := fun state => state.error = start.error) ?_ hq rfl hafter
  intro q x edge hnext hbehind
  obtain ⟨hversion, htarget⟩ := keepsVersion_of_next hbehind hnext
  refine ⟨htarget, fun action hmem p before after hperform herror => ?_⟩
  refine ((kept_perform hperform).2 ?_).trans herror
  rintro rfl
  exact hversion hmem

end HttpResponseParser

/-! ## Headers -/

namespace Watch

/--
The scan of what is left of a header: it stops at the end, in the state `last`, and chunks are
announced.
-/
structure Completes (w : Watch) (q : Nat) (text : Bytes) (last : Nat) : Prop where
  halt_eq : (w.scanFrom q text).halt = .stopped last
  position_eq : (w.scanFrom q text).position = text.length
  announced : (w.scanFrom q text).state.announced = true
  kept : (w.scanFrom q text).state.astray = false

variable {w : Watch} {q last : Nat} {text : Bytes}

theorem astray_scan (h : w.astray = true) (p : Nat) :
    (scan next (fun _ => act) q p text w).state.astray = true :=
  scan_invariant next (fun _ => act) (fun _ _ _ w => w.astray = true)
    (fun _ _ w => w.astray = true) (fun _ _ _ h => h) (fun _ _ _ _ _ _ h => h)
    (fun _ _ _ _ edge _ _ _ h => astray_foldl h edge.actions)
    (fun _ _ _ _ edge _ _ _ h => astray_foldl h edge.actions) h

/-- It does not matter to the watch where in the buffer it is. -/
theorem scan_shift (w : Watch) (q d : Nat) (text : Bytes) :
    (scan next (fun _ => act) q d text w).halt = (w.scanFrom q text).halt ∧
      (scan next (fun _ => act) q d text w).position = d + (w.scanFrom q text).position ∧
      (scan next (fun _ => act) q d text w).state = (w.scanFrom q text).state := by
  refine scan_related next (fun _ => act) (fun _ => act) d
    (fun _ _ _ state state' => state = state') (fun _ _ state state' => state = state')
    (fun _ _ _ _ h => h) (fun _ _ _ _ _ _ _ h => h) ?_ ?_ (p := 0) rfl
  · intro _ _ _ _ edge state state' _ _ h
    rw [h]
  · intro _ _ _ _ edge state state' _ _ h
    rw [h]

theorem Completes.append (h : w.Completes q text last) (rest : Bytes) :
    w.scanFrom q (text ++ rest) = w.scanFrom q text := by
  have hhalt := h.halt_eq
  refine scan_append_of_not_ended (fun r => ?_) rest
  change (w.scanFrom q text).halt ≠ _
  rw [hhalt]
  nofun

/-- A header that is not through goes on from where the scan has got to. -/
theorem Completes.split {front back : Bytes} (hback : back ≠ [])
    (h : w.Completes q (front ++ back) last) :
    ∃ q', (w.scanFrom q front).halt = .ended q' ∧
      (w.scanFrom q front).state.astray = false ∧
      (w.scanFrom q front).state.Completes q' back last := by
  obtain ⟨hhalt, hposition, hannounced, hkept⟩ := h
  have hlength := List.length_pos_iff.mpr hback
  have hseen := (position_of_halt next (fun _ => act) q 0 front w).1
  rw [Nat.zero_add] at hseen
  change (w.scanFrom q front).position ≤ front.length at hseen
  rw [List.length_append] at hposition
  cases hfront : (w.scanFrom q front).halt with
  | failed | stopped r =>
      have hsame : w.scanFrom q (front ++ back) = w.scanFrom q front := by
        refine scan_append_of_not_ended (fun r => ?_) back
        change (w.scanFrom q front).halt ≠ _
        rw [hfront]
        nofun
      rw [hsame] at hposition
      omega
  | ended q' =>
      have happend : w.scanFrom q (front ++ back) =
          scan next (fun _ => act) q' (0 + front.length) back (w.scanFrom q front).state :=
        scan_append_of_ended hfront back
      obtain ⟨hhalt', hposition', hstate'⟩ :=
        scan_shift (w.scanFrom q front).state q' (0 + front.length) back
      rw [happend] at hhalt hposition hannounced hkept
      rw [hposition'] at hposition
      rw [hhalt'] at hhalt
      refine ⟨q', rfl, ?_, hhalt, by omega, ?_, ?_⟩
      · by_contra hastray
        rw [Bool.not_eq_false] at hastray
        rw [astray_scan hastray] at hkept
        cases hkept
      · rw [← hstate']
        exact hannounced
      · rw [← hstate']
        exact hkept

theorem Completes.ne_nil (h : w.Completes q text last) : text ≠ [] := by
  intro hnil
  have hhalt := h.halt_eq
  rw [hnil] at hhalt
  cases hhalt

/-- Neither the error state nor the final one goes on. -/
theorem Completes.open_state (h : w.Completes q text last) : q ≠ 0 ∧ q ≠ 120 := by
  have hhalt := h.halt_eq
  obtain ⟨x, rest, rfl⟩ := List.exists_cons_of_ne_nil h.ne_nil
  constructor
  · rintro rfl
    have hnone : next 0 x = none := by
      unfold next
      rfl
    rw [scanFrom, scan, hnone] at hhalt
    cases hhalt
  · rintro rfl
    have hnone : next 120 x = none := by
      unfold next
      rfl
    rw [scanFrom, scan, hnone] at hhalt
    cases hhalt

end Watch

namespace HttpResponseParser

variable {start : HttpResponseParser} {w : Watch} {last : Nat}

theorem behindVersion_of_ended {S : Type} {act : Nat → S → Action → S} {q q' p : Nat}
    {data : Bytes} {s : S} (hq : behindVersion q = true)
    (h : (scan next act q p data s).halt = .ended q') : behindVersion q' = true := by
  have hscan := scan_invariant next act (fun q _ _ _ => behindVersion q = true)
    (fun halt _ _ => ∀ q', halt = .ended q' → behindVersion q' = true)
  refine hscan ?_ (fun _ _ _ _ _ _ _ => nofun) (fun _ _ _ _ _ _ _ _ _ => nofun) ?_ hq q' h
  · intro q p state hq q' hhalt
    cases hhalt
    exact hq
  · exact fun q p x xs edge state hnext _ hq => (keepsVersion_of_next hq hnext).2

/-- A call on the next bytes of a header, but not the last of them. -/
theorem execute_front {front back : Bytes} (hfront : front ≠ []) (hback : back ≠ [])
    (hshort : front.length < 2 ^ 31) (hbody : start.parser.bodyStart = 0)
    (hchunked : start.parser.chunked = w.announced)
    (h : w.Completes start.parser.cs (front ++ back) last) :
    ∃ parser after, ∃ w' : Watch, (start.run front).state = .ok parser ∧
      (start.run front).halt = .ended after.parser.cs ∧
      start.execute front false = .ok (after, front.length) ∧ after.error = parser.error ∧
      after.parser.bodyStart = 0 ∧ after.parser.chunked = w'.announced ∧
      w'.Completes after.parser.cs back last := by
  obtain ⟨q', hhalt, hkept, hcompletes⟩ := h.split hback
  have hposition :=
    (position_of_halt next (fun _ => Watch.act) start.parser.cs 0 front w).2 q' hhalt
  rw [Nat.zero_add] at hposition
  change (w.scanFrom start.parser.cs front).position = front.length at hposition
  obtain ⟨parser, after, hstate, hexecute, hcs, hannounced, hbodyStart, herror⟩ :=
    execute_within hfront hshort (by omega) hchunked hkept
  rw [hposition] at hexecute
  rw [hhalt] at hcs
  change after.parser.cs = q' at hcs
  have hrun := (run_within (by omega) hchunked front).1
  rw [hhalt] at hrun
  refine ⟨parser, after, (w.scanFrom start.parser.cs front).state, hstate, ?_, hexecute, herror, ?_,
    hannounced, ?_⟩
  · rw [hrun, hcs]
  · rw [hbodyStart, bodyStart_of_ended hrun hstate]
    exact hbody
  · rw [hcs]
    exact hcompletes

/-- A call with all that is left of a header, and perhaps more. -/
theorem execute_last {text rest : Bytes} (hshort : (text ++ rest).length < 2 ^ 31)
    (hbody : start.parser.bodyStart = 0) (hchunked : start.parser.chunked = w.announced)
    (h : w.Completes start.parser.cs text last) :
    ∃ parser after, (start.run (text ++ rest)).state = .ok parser ∧
      start.execute (text ++ rest) false = .ok (after, text.length) ∧
      after.error = parser.error ∧ after.parser.cs = last ∧ after.parser.chunked = true := by
  have hsame := h.append rest
  have hne : text ++ rest ≠ [] := by
    rw [ne_eq, List.append_eq_nil_iff, not_and_or]
    exact Or.inl h.ne_nil
  have hkept : (w.scanFrom start.parser.cs (text ++ rest)).state.astray = false := by
    rw [hsame]
    exact h.kept
  obtain ⟨parser, after, hstate, hexecute, hcs, hannounced, -, herror⟩ :=
    execute_within hne hshort (by omega) hchunked hkept
  rw [hsame, h.position_eq] at hexecute
  rw [hsame, h.halt_eq] at hcs
  rw [hsame, h.announced] at hannounced
  exact ⟨parser, after, hstate, hexecute, herror, hcs, hannounced⟩

/-! ## The version -/

def versions : List Bytes := [ascii "HTTP/1.1", ascii "HTTP/1.0"]

/-- The states in front of the bytes of a version, and the one behind them. -/
def versionStates : List Nat := [1, 8, 9, 10, 11, 12, 13, 14, 15]

/-- The edges along a version, and whether what is left of it is taken for a version. -/
theorem versions_checks :
    (versions.all fun version => version.length = 8 && (List.range 8).all fun j =>
      goes next (versionStates.getD j 0) (version.getD j 0) (if j = 0 then [.mark] else [])
        (versionStates.getD (j + 1) 0)) = true ∧
      goes next 15 32 [.httpVersion] 16 = true ∧
      (versions.all fun version => (List.range 9).all fun j =>
        (versionOf (version.drop j) (8 - j)).isSome =
          (decide (j = 0) || decide (j = 8))) = true := by
  decide +kernel

variable {version : Bytes}

theorem length_version (hversion : version ∈ versions) : version.length = 8 := by
  have hcheck := List.all_eq_true.mp versions_checks.1 version hversion
  rw [Bool.and_eq_true, decide_eq_true_eq] at hcheck
  exact hcheck.1

theorem next_of_version (hversion : version ∈ versions) {j : Nat} (hj : j < 8) :
    next (versionStates.getD j 0) (version.getD j 0) =
      some ⟨if j = 0 then [.mark] else [], versionStates.getD (j + 1) 0, false⟩ := by
  have hcheck := List.all_eq_true.mp versions_checks.1 version hversion
  rw [Bool.and_eq_true] at hcheck
  exact next_of_goes (List.all_eq_true.mp hcheck.2 j (List.mem_range.mpr hj))

/-- In a call that begins with byte `j` of the version nothing happens up to its end. -/
theorem scan_version (start : HttpResponseParser) (buffer : Bytes) (hversion : version ∈ versions)
    (hmark : start.parser.mark = 0) {j n : Nat} (hn : j + n ≤ 8) :
    scan next (act buffer) (versionStates.getD j 0) 0 ((version.drop j).take n) (.ok start) =
      ⟨.ended (versionStates.getD (j + n) 0), n, .ok start⟩ := by
  induction n with
  | zero => rfl
  | succ n ih =>
      have hlength := length_version hversion
      have hlast : (version.drop j).take (n + 1) =
          (version.drop j).take n ++ [version.getD (j + n) 0] := by
        have hlt : j + n < version.length := by omega
        rw [List.take_add_one, List.getElem?_drop, List.getD_eq_getElem?_getD,
          List.getElem?_eq_getElem hlt]
        rfl
      rw [hlast, scan_append, ih (by omega)]
      dsimp only
      rw [scan_cons (next_of_version hversion (by omega))]
      by_cases hzero : j + n = 0
      · obtain ⟨rfl, rfl⟩ := Nat.add_eq_zero_iff.mp hzero
        have hsame : start.set { start.parser with mark := 0 } = start := by
          rw [← hmark]
          rfl
        rw [if_pos rfl]
        show (⟨_, _, .ok (start.set { start.parser with mark := 0 })⟩ :
          Scanned Nat (Except Fault HttpResponseParser)) = _
        rw [hsame]
      · rw [if_neg hzero]
        rfl

/-- A call that begins with byte `j` of the version and has the space behind it. -/
theorem run_version (hversion : version ∈ versions) {j : Nat} (hj : j ≤ 8)
    (hcs : start.parser.cs = versionStates.getD j 0) (tail : Bytes) :
    start.run (version.drop j ++ 32 :: tail) =
      scan next (act (version.drop j ++ 32 :: tail)) 16 (9 - j) tail
        (.ok ((start.set start.parser.rewind).onResponseVersion (version.drop j ++ 32 :: tail)
          (8 - j))) := by
  have hlength := length_version hversion
  have hwhole : (version.drop j).take (8 - j) = version.drop j := by
    rw [List.take_of_length_le]
    rw [List.length_drop]
    omega
  have hend : j + (8 - j) = 8 := by omega
  have hlast : versionStates.getD 8 0 = 15 := rfl
  have hnext : 8 - j + 1 = 9 - j := by omega
  have hscan := scan_version (start.set start.parser.rewind) (version.drop j ++ 32 :: tail)
    hversion rfl (by omega : j + (8 - j) ≤ 8)
  rw [hwhole, hend, hlast, ← hcs] at hscan
  rw [run, scan_append]
  have hfront : scan next (act (version.drop j ++ 32 :: tail)) start.parser.cs 0 (version.drop j)
      (.ok (start.set start.parser.rewind)) =
      ⟨.ended 15, 8 - j, .ok (start.set start.parser.rewind)⟩ := hscan
  rw [hfront]
  dsimp only
  rw [scan_cons (next_of_goes versions_checks.2.1), hnext]
  rfl

theorem error_of_version (hversion : version ∈ versions) {j : Nat} (hj : j ≤ 8)
    (hcs : start.parser.cs = versionStates.getD j 0) (herror : start.error = 0) {tail : Bytes}
    {parser : HttpResponseParser}
    (h : (start.run (version.drop j ++ 32 :: tail)).state = .ok parser) :
    parser.error = 0 ↔ j = 0 ∨ j = 8 := by
  have hlength := length_version hversion
  have htake : (version.drop j ++ 32 :: tail).take (8 - j) = (version.drop j).take (8 - j) := by
    rw [List.take_append_of_le_length]
    rw [List.length_drop]
    omega
  have hfound := List.all_eq_true.mp (List.all_eq_true.mp versions_checks.2.2 version hversion) j
    (List.mem_range.mpr (by omega))
  rw [decide_eq_true_eq] at hfound
  rw [run_version hversion hj hcs] at h
  rw [error_behindVersion rfl h, onResponseVersion, Request.versionOf_congr htake]
  cases hof : versionOf (version.drop j) (8 - j) with
  | some found =>
      rw [hof, Option.isSome_some, eq_comm, Bool.or_eq_true, decide_eq_true_eq,
        decide_eq_true_eq] at hfound
      exact iff_of_true herror hfound
  | none =>
      rw [hof, Option.isSome_none, eq_comm, Bool.or_eq_false_iff, decide_eq_false_iff_not,
        decide_eq_false_iff_not, ← not_or] at hfound
      exact iff_of_false (by decide : (1001 : Nat) ≠ 0) hfound

end HttpResponseParser

end Qslary.Http

import Qslary.Foundation.Facts
import Qslary.Foundation.Rows
import Qslary.Http.Session

/-!
# Requests that are accepted

Whatever arrives, and however it is cut into reads, a request that is handed on holds no
line end in its values, no blank, `?` or `#` in its path, and so on.  A register that is
left over from an earlier call may cut a part at the wrong place, but not so that other
bytes get into it.
-/

namespace Qslary.Http

open Qslary.Foundation

/-! ## Texts without some bytes -/

def Outside (bytes : List (Nat × Nat)) (byte : UInt8) : Prop := within bytes byte.toNat = false

instance (bytes : List (Nat × Nat)) (byte : UInt8) : Decidable (Outside bytes byte) :=
  inferInstanceAs (Decidable (_ = _))

def Free (bytes : List (Nat × Nat)) (text : Bytes) : Prop := ∀ byte ∈ text, Outside bytes byte

instance (bytes : List (Nat × Nat)) (text : Bytes) : Decidable (Free bytes text) :=
  List.decidableBAll _ text

/-- As far as the text can be read, it holds none of these bytes. -/
def Cut (bytes : List (Nat × Nat)) (start : Bytes) (length : Nat) : Prop :=
  ∀ text, string start length = .ok text → Free bytes text

section

variable {bytes : List (Nat × Nat)} {buffer : Bytes} {m n p : Nat}

theorem eq_take_of_string {start text : Bytes} {length : Nat}
    (h : string start length = .ok text) : length ≤ start.length ∧ text = start.take length := by
  unfold string at h
  split at h
  · rename_i hle
    cases h
    exact ⟨hle, rfl⟩
  · cases h

theorem cut_of_over (h : Over (Outside bytes) buffer m (m + n)) : Cut bytes (buffer.drop m) n := by
  intro text htext
  have htake := h.take
  rw [Nat.add_sub_cancel_left] at htake
  rw [(eq_take_of_string htext).2]
  exact htake

/-- A register behind the byte makes a length that no buffer has. -/
theorem cut_len (hshort : buffer.length < 2 ^ 31) (h : Over (Outside bytes) buffer m p) :
    Cut bytes (buffer.drop m) (HttpParser.len m p) := by
  rcases Nat.lt_or_ge p m with hlt | hle
  · intro text htext
    obtain ⟨hfits, rfl⟩ := eq_take_of_string htext
    have hlen : HttpParser.len m p = 2 ^ 64 - (m - p) := if_neg (by omega)
    rw [hlen, List.length_drop] at hfits
    have hempty : buffer.drop m = [] := by
      rw [List.drop_eq_nil_iff]
      omega
    simp [Free, hempty]
  · rw [Request.len_eq hle]
    exact cut_of_over (by rwa [Nat.add_sub_cancel' hle])

end

namespace Request

/-! ## Bytes that cannot occur -/

def notInValue : List (Nat × Nat) := [(0, 0), (10, 10), (13, 13), (127, 127)]

def notInName : List (Nat × Nat) :=
  [(0, 0), (9, 9), (32, 32), (34, 34), (40, 41), (44, 44), (47, 47), (58, 64), (91, 93),
    (123, 123), (125, 125), (127, 255)]

def notInPath : List (Nat × Nat) :=
  [(0, 1), (7, 32), (34, 35), (62, 63), (92, 92), (96, 96), (124, 124), (127, 127)]

def notInQuery : List (Nat × Nat) :=
  [(0, 32), (34, 35), (60, 60), (62, 62), (91, 93), (96, 96), (124, 124), (127, 127)]

/-- The parts that end at the current byte and hold none of those bytes. -/
structure Kept where
  value : Bool
  path : Bool
  fragment : Bool
  query : Bool
  name : Bool
  named : Bool

namespace Kept

def perform (k : Kept) : Action → Option Kept
  | .mark => some { k with value := true, path := true, fragment := true }
  | .fieldStart => some { k with name := true, named := false }
  | .fieldLen => some { k with named := k.name }
  | .queryStart => some { k with query := true }
  | .httpField => if k.named && k.value then some k else none
  | .fragment => if k.fragment then some k else none
  | .queryString => if k.query then some k else none
  | .requestPath => if k.path then some k else none
  | .requestMethod | .requestUri | .httpVersion | .xmlSent | .jsonSent | .headerDone => some k

def pass (k : Kept) (byte : UInt8) : Kept where
  value := k.value && Outside notInValue byte
  path := k.path && Outside notInPath byte
  fragment := k.fragment && Outside notInQuery byte
  query := k.query && Outside notInQuery byte
  name := k.name && Outside notInName byte
  named := k.named

def le (k l : Kept) : Bool :=
  (!k.value || l.value) && (!k.path || l.path) && (!k.fragment || l.fragment) &&
    (!k.query || l.query) && (!k.name || l.name) && (!k.named || l.named)

end Kept

/-- Between these states the automaton walks along a path or a host in front of one. -/
def pathStates : List (Nat × Nat) :=
  [(19, 19), (24, 28), (33, 173), (194, 195), (198, 198), (202, 347)]

def kept (cs : Nat) : Kept where
  value := cs = 16
  path := within pathStates cs
  fragment := [21, 22, 23].contains cs
  query := [30, 31, 32].contains cs
  name := [14, 18, 348].contains cs
  named := [15, 16].contains cs

/-- The edge is for none of these bytes. -/
def Arc.avoids (arc : Arc) (bytes : List (Nat × Nat)) : Bool :=
  apart arc.bytes bytes && (!arc.uri || apart [(94, 94), (123, 123), (125, 125)] bytes)

/-- Along an edge that stays in the scan, every part is kept that its target is said to have. -/
def Arc.keeps (arc : Arc) (cs : Nat) : Bool :=
  match arc.actions.foldlM Kept.perform (kept cs) with
  | none => false
  | some k =>
      arc.actions.contains .headerDone || (kept arc.target).le
        { value := k.value && arc.avoids notInValue, path := k.path && arc.avoids notInPath
          fragment := k.fragment && arc.avoids notInQuery, query := k.query && arc.avoids notInQuery
          name := k.name && arc.avoids notInName, named := k.named }

theorem table_keeps :
    (table.zipIdx.all fun row => row.1.all fun arc => arc.keeps row.2) = true := by
  decide +kernel

theorem Arc.free_of_avoids {arc : Arc} {bytes : List (Nat × Nat)} {uriRelaxed : Bool} {byte : UInt8}
    (h : arc.avoids bytes = true) (htakes : arc.takes uriRelaxed byte.toNat = true) :
    Outside bytes byte := by
  obtain ⟨hbytes, hextra⟩ := Bool.and_eq_true_iff.mp h
  rcases Bool.or_eq_true_iff.mp htakes with hwithin | huri
  · exact within_of_apart hbytes hwithin
  · simp only [Bool.and_eq_true, Bool.or_eq_true, decide_eq_true_eq] at huri
    refine within_of_apart (by simpa [huri.1.1] using hextra) ?_
    simp only [within, List.any_cons, List.any_nil, Bool.or_false, Bool.or_eq_true,
      Bool.and_eq_true, decide_eq_true_eq]
    omega

theorem disciplined_kept {uriRelaxed : Bool} {cs : Nat} {byte : UInt8} {edge : Edge Nat Action}
    (h : next uriRelaxed cs byte = some edge) :
    ∃ k, edge.actions.foldlM Kept.perform (kept cs) = some k ∧
      (edge.stops = false → (kept edge.target).le (k.pass byte) = true) := by
  obtain ⟨row, arc, hrow, hmem, htakes, rfl⟩ := mem_of_next h
  have hrows := List.all_eq_true.mp table_keeps (row, cs) (List.mem_zipIdx_iff_getElem?.mpr hrow)
  have hkeeps := List.all_eq_true.mp hrows arc hmem
  unfold Arc.keeps at hkeeps
  cases hfold : arc.actions.foldlM Kept.perform (kept cs) with
  | none => simp [hfold] at hkeeps
  | some k =>
      refine ⟨k, rfl, fun hstops => ?_⟩
      dsimp only at hstops
      have hfree : ∀ bytes, arc.avoids bytes = true → Outside bytes byte :=
        fun bytes havoids => Arc.free_of_avoids havoids htakes
      simp only [hfold, Kept.le, Bool.and_eq_true, Bool.or_eq_true]
        at hkeeps
      simp only [Kept.le, Kept.pass, Bool.and_eq_true, Bool.or_eq_true, decide_eq_true_eq]
      grind

def facts (uriRelaxed : Bool) : Facts (next uriRelaxed) Kept where
  known := kept
  perform := Kept.perform
  pass := Kept.pass
  le k l := k.le l = true
  disciplined := disciplined_kept

/-! ## What the callbacks are told -/

def Report.Clean : Report → Prop
  | .element .requestPath start length => Cut notInPath start length
  | .element .fragment start length => Cut notInQuery start length
  | .element .queryString start length => Cut notInQuery start length
  | .element _ _ _ => True
  | .httpField field flen value vlen => Cut notInName field flen ∧ Cut notInValue value vlen

/-- What the registers cut out in front of the byte at `p`. -/
structure Kept.Holds (buffer : Bytes) (k : Kept) (p : Nat) (s : HttpParser) : Prop where
  value : k.value = true → Over (Outside notInValue) buffer s.mark p
  path : k.path = true → Over (Outside notInPath) buffer s.mark p
  fragment : k.fragment = true → Over (Outside notInQuery) buffer s.mark p
  query : k.query = true → Over (Outside notInQuery) buffer s.queryStart p
  name : k.name = true → Over (Outside notInName) buffer s.fieldStart p
  named : k.named = true → Over (Outside notInName) buffer s.fieldStart (s.fieldStart + s.fieldLen)
  fieldStart_le : s.fieldStart ≤ p

section

variable {buffer : Bytes} {p : Nat} {s : HttpParser} {k l : Kept}

theorem Kept.Holds.perform (hshort : buffer.length < 2 ^ 31) {action : Action}
    (hl : k.perform action = some l) (h : k.Holds buffer p s) :
    l.Holds buffer p (s.perform buffer p action).1 ∧
      ∀ report ∈ (s.perform buffer p action).2, report.Clean := by
  have hhere : ∀ bytes, Over (Outside bytes) buffer p p := fun bytes => over_of_le (Nat.le_refl p)
  have hnone : ∀ report ∈ ([] : List Report), report.Clean := by simp
  cases action with
  | mark =>
      cases hl
      exact ⟨⟨fun _ => hhere _, fun _ => hhere _, fun _ => hhere _, h.query, h.name, h.named,
        h.fieldStart_le⟩, hnone⟩
  | fieldStart =>
      cases hl
      exact ⟨⟨h.value, h.path, h.fragment, h.query, fun _ => hhere _,
        fun hfalse => absurd hfalse Bool.false_ne_true, Nat.le_refl p⟩, hnone⟩
  | fieldLen =>
      cases hl
      refine ⟨⟨h.value, h.path, h.fragment, h.query, h.name, fun hname => ?_, h.fieldStart_le⟩,
        hnone⟩
      have hlen : s.fieldStart + HttpParser.len s.fieldStart p = p := by
        rw [len_eq h.fieldStart_le, Nat.add_sub_cancel' h.fieldStart_le]
      simpa only [HttpParser.perform, hlen] using h.name hname
  | queryStart =>
      cases hl
      exact ⟨⟨h.value, h.path, h.fragment, fun _ => hhere _, h.name, h.named, h.fieldStart_le⟩,
        hnone⟩
  | httpField =>
      obtain ⟨hflags, hl⟩ := Option.ite_none_right_eq_some.mp hl
      cases hl
      rw [Bool.and_eq_true] at hflags
      refine ⟨h, fun report hreport => ?_⟩
      rw [List.mem_singleton.mp hreport]
      exact ⟨cut_of_over (h.named hflags.1), cut_len hshort (h.value hflags.2)⟩
  | fragment =>
      obtain ⟨hflag, hl⟩ := Option.ite_none_right_eq_some.mp hl
      cases hl
      refine ⟨h, fun report hreport => ?_⟩
      rw [List.mem_singleton.mp hreport]
      exact cut_len hshort (h.fragment hflag)
  | queryString =>
      obtain ⟨hflag, hl⟩ := Option.ite_none_right_eq_some.mp hl
      cases hl
      refine ⟨h, fun report hreport => ?_⟩
      rw [List.mem_singleton.mp hreport]
      exact cut_len hshort (h.query hflag)
  | requestPath =>
      obtain ⟨hflag, hl⟩ := Option.ite_none_right_eq_some.mp hl
      cases hl
      refine ⟨h, fun report hreport => ?_⟩
      rw [List.mem_singleton.mp hreport]
      exact cut_len hshort (h.path hflag)
  | requestMethod | requestUri | httpVersion =>
      cases hl
      refine ⟨h, fun report hreport => ?_⟩
      rw [List.mem_singleton.mp hreport]
      trivial
  | xmlSent | jsonSent =>
      cases hl
      exact ⟨⟨h.value, h.path, h.fragment, h.query, h.name, h.named, h.fieldStart_le⟩, hnone⟩
  | headerDone =>
      cases hl
      simp only [HttpParser.perform, HttpParser.headerDone]
      split
      · exact ⟨⟨h.value, h.path, h.fragment, h.query, h.name, h.named, h.fieldStart_le⟩, hnone⟩
      · refine ⟨⟨h.value, h.path, h.fragment, h.query, h.name, h.named, h.fieldStart_le⟩, ?_⟩
        intro report hreport
        rw [List.mem_singleton.mp hreport]
        trivial

theorem Kept.Holds.pass {byte : UInt8} (hbyte : buffer[p]? = some byte) (h : k.Holds buffer p s) :
    (k.pass byte).Holds buffer (p + 1) s := by
  refine ⟨?_, ?_, ?_, ?_, ?_, h.named, Nat.le_succ_of_le h.fieldStart_le⟩
  all_goals
    intro hflag
    obtain ⟨hk, hfree⟩ := Bool.and_eq_true_iff.mp hflag
    refine Over.succ ?_ hbyte (of_decide_eq_true hfree)
  · exact h.value hk
  · exact h.path hk
  · exact h.fragment hk
  · exact h.query hk
  · exact h.name hk

theorem Kept.Holds.weaken (hle : k.le l = true) (h : l.Holds buffer p s) : k.Holds buffer p s := by
  simp only [Kept.le, Bool.and_eq_true, Bool.or_eq_true, Bool.not_eq_true'] at hle
  obtain ⟨hvalue, hpath, hfragment, hquery, hname, hnamed, hstart⟩ := h
  constructor <;> grind

/-- Over registers that a call has rewound, every part is empty. -/
theorem kept_rewind (k : Kept) (buffer : Bytes) (parser : HttpParser) :
    k.Holds buffer 0 parser.rewind :=
  ⟨fun _ => over_of_le (Nat.zero_le _), fun _ => over_of_le (Nat.zero_le _),
    fun _ => over_of_le (Nat.zero_le _), fun _ => over_of_le (Nat.zero_le _),
    fun _ => over_of_le (Nat.zero_le _), fun _ => over_of_le (Nat.zero_le _), Nat.le_refl 0⟩

theorem facts_sound (uriRelaxed : Bool) (hshort : buffer.length < 2 ^ 31) :
    (facts uriRelaxed).Sound (HttpParser.act buffer) buffer
      (fun k p s => k.Holds buffer p s.1 ∧ ∀ report ∈ s.2, report.Clean) where
  perform := by
    rintro k l p s action - hl ⟨hholds, hclean⟩
    obtain ⟨hafter, hreports⟩ := hholds.perform hshort hl
    refine ⟨hafter, fun report hreport => ?_⟩
    rcases List.mem_append.mp hreport with hold | hnew
    · exact hclean report hold
    · exact hreports report hnew
  pass hbyte h := ⟨h.1.pass hbyte, h.2⟩
  weaken hle h := ⟨h.1.weaken hle, h.2⟩

theorem clean_of_run (parser : HttpParser) (hshort : buffer.length < 2 ^ 31) :
    ∀ report ∈ (parser.run buffer).state.2, report.Clean := by
  obtain ⟨k, p, -, hclean⟩ := (facts_sound parser.uriRelaxed hshort).scan (q := parser.cs)
    (s := (parser.rewind, [])) ⟨kept_rewind _ _ _, nofun⟩
  exact hclean

end

end Request

/-! ## Requests that are handed on -/

open Request

structure HttpRequest.WellFormed (req : HttpRequest) : Prop where
  method : req.method ≠ .UNKNOW
  version : req.version ∈ [0, 0x10, 0x11]
  path : Free notInPath req.path
  query : Free notInQuery req.query
  fragment : Free notInQuery req.fragment
  headers : ∀ entry ∈ req.headers.entries, Free notInName entry.1 ∧ Free notInValue entry.2

theorem HttpRequest.wellFormed_new : HttpRequest.new.WellFormed :=
  ⟨nofun, by decide, by decide, nofun, nofun, nofun⟩

theorem Parsed.call_wellFormed {parsed after : Parsed} {report : Report} (hclean : report.Clean)
    (hcall : parsed.call report = .ok after) (h : parsed.data.WellFormed) :
    after.data.WellFormed := by
  cases report with
  | element kind start length =>
      cases kind with
      | requestMethod =>
          cases hcall
          unfold Parsed.onRequestMethod
          dsimp only
          split
          · exact h
          · rename_i hmethod
            exact { h with method := hmethod }
      | requestUri | headerDone =>
          cases hcall
          exact h
      | fragment =>
          obtain ⟨text, htext, hcall⟩ := bind_eq_ok.mp hcall
          cases hcall
          exact { h with fragment := hclean text htext }
      | queryString =>
          obtain ⟨text, htext, hcall⟩ := bind_eq_ok.mp hcall
          cases hcall
          exact { h with query := hclean text htext }
      | httpVersion =>
          cases hcall
          unfold Parsed.onRequestVersion
          split
          · rename_i version hversion
            refine { h with version := ?_ }
            unfold versionOf at hversion
            grind
          · exact h
      | requestPath =>
          obtain ⟨text, htext, hcall⟩ := bind_eq_ok.mp hcall
          cases hcall
          exact { h with path := hclean text htext }
  | httpField field flen value vlen =>
      simp only [Parsed.call, Parsed.onRequestHttpField] at hcall
      split at hcall
      · cases hcall
        exact h
      · obtain ⟨key, hkey, hcall⟩ := bind_eq_ok.mp hcall
        obtain ⟨text, htext, hcall⟩ := bind_eq_ok.mp hcall
        cases hcall
        exact { h with
          headers := RankedMap.forall_assign h.headers (hclean.1 key hkey) (hclean.2 text htext) }

theorem Parsed.calls_wellFormed {parsed after : Parsed} {reports : List Report}
    (hclean : ∀ report ∈ reports, report.Clean)
    (hcalls : reports.foldlM Parsed.call parsed = .ok after) (h : parsed.data.WellFormed) :
    after.data.WellFormed := by
  induction reports generalizing parsed with
  | nil =>
      cases hcalls
      exact h
  | cons report reports ih =>
      rw [List.foldlM_cons] at hcalls
      obtain ⟨first, hfirst, hrest⟩ := bind_eq_ok.mp hcalls
      obtain ⟨hreport, hreports⟩ := List.forall_mem_cons.mp hclean
      exact ih hreports hrest (Parsed.call_wellFormed hreport hfirst h)

theorem HttpRequestParser.execute_wellFormed {parser after : HttpRequestParser} {data : Bytes}
    {offset : Nat} (hexecute : parser.execute data = .ok (after, offset))
    (h : parser.data.WellFormed) : after.data.WellFormed := by
  obtain ⟨⟨machine, reports, n⟩, hrun, hcalls⟩ := bind_eq_ok.mp hexecute
  obtain ⟨parsed, hparsed, hafter⟩ := bind_eq_ok.mp hcalls
  cases hafter
  refine Parsed.calls_wellFormed ?_ hparsed h
  unfold HttpParser.execute at hrun
  split at hrun
  · cases hrun
    exact nofun
  · split at hrun
    · cases hrun
    · rename_i hlong
      dsimp only at hrun
      split at hrun
      · cases hrun
        exact clean_of_run parser.parser (Nat.not_le.mp hlong)
      · cases hrun

theorem HttpSession.recvHeader_wellFormed {fuel : Nat} {parser after : HttpRequestParser}
    {data rest : Bytes} {stream stream' : Stream}
    (hrecv : recvHeader fuel parser data stream = .ok (some (after, rest), stream'))
    (h : parser.data.WellFormed) : after.data.WellFormed := by
  induction fuel generalizing parser data stream with
  | zero => cases hrecv
  | succ fuel ih =>
      unfold recvHeader at hrecv
      split at hrecv
      · cases hrecv
      · obtain ⟨⟨next, nparse⟩, hexecute, hrecv⟩ := bind_eq_ok.mp hrecv
        have hnext := HttpRequestParser.execute_wellFormed hexecute h
        dsimp only at hrecv
        split at hrecv
        · cases hrecv
        · split at hrecv
          · cases hrecv
          · split at hrecv
            · cases hrecv
              exact hnext
            · exact ih hrecv hnext

theorem HttpRequest.WellFormed.init {req : HttpRequest} (h : req.WellFormed) :
    req.init.WellFormed := by
  unfold HttpRequest.init
  split
  · exact h
  · split
    · exact h
    · exact { h with }

/-- Over any memory and from any stream, only well-formed requests are handed on. -/
theorem recvRequest_wellFormed {memory : HttpParser} {stream rest : Stream} {req : HttpRequest}
    (h : HttpSession.recvRequest memory stream = .ok (some req, rest)) : req.WellFormed := by
  obtain ⟨⟨received, stream'⟩, hheader, hbody⟩ := bind_eq_ok.mp h
  cases received with
  | none => cases hbody
  | some received =>
      obtain ⟨parser, data⟩ := received
      have hparser := HttpSession.recvHeader_wellFormed hheader HttpRequest.wellFormed_new
      dsimp only at hbody
      split at hbody
      · split at hbody
        · cases hbody
        · cases hbody
          exact HttpRequest.WellFormed.init { hparser with }
      · cases hbody
        exact hparser.init

theorem recvRequest_wellFormed_host :
    ∃ req rest, HttpSession.recvRequest ⟨0, 0, 0, 0, 0, 0, 0, 0, false, false, false⟩
        ⟨ascii "GET /a HTTP/1.1\r\nHost: b\r\n\r\n", fun _ => 64, true⟩ = .ok (some req, rest) ∧
      req.WellFormed := by
  have hsome : ((HttpSession.recvRequest ⟨0, 0, 0, 0, 0, 0, 0, 0, false, false, false⟩
      ⟨ascii "GET /a HTTP/1.1\r\nHost: b\r\n\r\n", fun _ => 64, true⟩).toOption.bind
        Prod.fst).isSome = true := by
    decide +kernel
  cases hrecv : HttpSession.recvRequest ⟨0, 0, 0, 0, 0, 0, 0, 0, false, false, false⟩
      ⟨ascii "GET /a HTTP/1.1\r\nHost: b\r\n\r\n", fun _ => 64, true⟩ with
  | error fault =>
      rw [hrecv] at hsome
      cases hsome
  | ok result =>
      obtain ⟨_ | req, rest⟩ := result
      · rw [hrecv] at hsome
        cases hsome
      · exact ⟨req, rest, rfl, recvRequest_wellFormed hrecv⟩

end Qslary.Http

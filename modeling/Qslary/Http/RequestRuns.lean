import Mathlib.Data.List.Find
import Mathlib.Data.List.Forall2
import Qslary.Foundation.Transition
import Qslary.Http.RequestParser

/-!
# Runs of the request parser

What the table says of the registers: from the start of a request, every token is cut
at registers that have been written.  Two scans of the same bytes, in buffers that hold
them at different offsets, make reports alike as long as the tokens start in both; a
call keeps the assertions that it ends with.
-/

namespace Qslary.Http

open Qslary.Foundation

namespace Request

/-! ## Registers written -/

/-- The registers that hold an offset of this call. -/
structure Written where
  mark : Bool
  fieldStart : Bool
  fieldLen : Bool
  queryStart : Bool
  deriving DecidableEq, Repr

def Written.nothing : Written := ⟨false, false, false, false⟩

/-- Undefined if the action reports a token by a register that is not written. -/
def Written.perform (w : Written) : Action → Option Written
  | .mark => some { w with mark := true }
  | .fieldStart => some { w with fieldStart := true, fieldLen := false }
  | .fieldLen => some { w with fieldLen := w.fieldStart }
  | .queryStart => some { w with queryStart := true }
  | .httpField => if w.fieldLen && w.mark then some w else none
  | .requestMethod | .fragment | .httpVersion | .requestPath => if w.mark then some w else none
  | .queryString => if w.queryStart then some w else none
  | .requestUri | .xmlSent | .jsonSent | .headerDone => some w

/-- Every token reported from here on starts in these bytes. -/
def tokensWithin (uriRelaxed : Bool) : Nat → Written → Bytes → Bool
  | _, _, [] => true
  | cs, w, byte :: bytes =>
      match next uriRelaxed cs byte with
      | none => true
      | some edge =>
          match edge.actions.foldlM Written.perform w with
          | none => false
          | some w => edge.stops || tokensWithin uriRelaxed edge.target w bytes

/-! ## What the table says -/

def Written.le (w v : Written) : Bool :=
  (!w.mark || v.mark) && (!w.fieldStart || v.fieldStart) && (!w.fieldLen || v.fieldLen) &&
    (!w.queryStart || v.queryStart)

/-- The registers that are written whenever the automaton gets to a state. -/
def known (cs : Nat) : Written where
  mark := cs ≠ 1
  fieldStart := [14, 15, 16, 18, 348].contains cs
  fieldLen := [15, 16].contains cs
  queryStart := [30, 31, 32].contains cs

def Arc.disciplined (arc : Arc) (cs : Nat) : Bool :=
  match arc.actions.foldlM Written.perform (known cs) with
  | none => false
  | some w => (known arc.target).le w

/-- The name of the method ends at a space. -/
def Arc.endsMethod (arc : Arc) : Bool :=
  !arc.actions.contains .requestMethod || (arc.bytes = [(32, 32)] && !arc.uri)

/-- Only the edges that leave the scan lead to a final state. -/
def Arc.staysOpen (arc : Arc) : Bool :=
  arc.actions.contains .headerDone || arc.target < 348

theorem table_disciplined :
    (table.zipIdx.all fun row => row.1.all fun arc =>
      arc.disciplined row.2 && arc.endsMethod && arc.staysOpen) = true := by
  decide +kernel

variable {uriRelaxed : Bool} {cs : Nat} {byte : UInt8} {edge : Edge Nat Action}

theorem mem_of_next (h : next uriRelaxed cs byte = some edge) :
    ∃ row arc, table[cs]? = some row ∧ arc ∈ row ∧ arc.takes uriRelaxed byte.toNat = true ∧
      edge = ⟨arc.actions, arc.target, arc.actions.contains .headerDone⟩ := by
  unfold next at h
  obtain ⟨arc, hfind, rfl⟩ := Option.map_eq_some_iff.mp h
  have hmem := List.mem_of_find?_eq_some hfind
  have htakes := List.find?_some hfind
  cases hrow : table[cs]? with
  | none =>
      rw [hrow] at hmem
      cases hmem
  | some row =>
      rw [hrow, Option.getD_some] at hmem
      exact ⟨row, arc, rfl, hmem, htakes, rfl⟩

theorem arc_of_next (h : next uriRelaxed cs byte = some edge) :
    ∃ arc : Arc, arc.takes uriRelaxed byte.toNat = true ∧ arc.disciplined cs = true ∧
      arc.endsMethod = true ∧ arc.staysOpen = true ∧
      edge = ⟨arc.actions, arc.target, arc.actions.contains .headerDone⟩ := by
  obtain ⟨row, arc, hrow, hmem, htakes, hedge⟩ := mem_of_next h
  have hrows := List.all_eq_true.mp table_disciplined (row, cs)
    (List.mem_zipIdx_iff_getElem?.mpr hrow)
  have harc := List.all_eq_true.mp hrows arc hmem
  rw [Bool.and_eq_true, Bool.and_eq_true] at harc
  exact ⟨arc, htakes, harc.1.1, harc.1.2, harc.2, hedge⟩

theorem disciplined_of_next (h : next uriRelaxed cs byte = some edge) :
    ∃ w, edge.actions.foldlM Written.perform (known cs) = some w ∧
      (known edge.target).le w = true := by
  obtain ⟨arc, -, hdisciplined, -, -, rfl⟩ := arc_of_next h
  unfold Arc.disciplined at hdisciplined
  cases hfold : arc.actions.foldlM Written.perform (known cs) with
  | none => simp [hfold] at hdisciplined
  | some w =>
      rw [hfold] at hdisciplined
      exact ⟨w, rfl, hdisciplined⟩

theorem space_of_next (h : next uriRelaxed cs byte = some edge)
    (hmethod : .requestMethod ∈ edge.actions) : byte = 32 := by
  obtain ⟨arc, htakes, -, hends, -, rfl⟩ := arc_of_next h
  have hcontains : arc.actions.contains .requestMethod = true := List.contains_iff_mem.mpr hmethod
  simp only [Arc.endsMethod, hcontains, Bool.not_true, Bool.false_or, Bool.and_eq_true,
    decide_eq_true_eq, Bool.not_eq_true'] at hends
  simp only [Arc.takes, hends.1, hends.2, List.any_cons, List.any_nil, Bool.or_false,
    Bool.false_and, Bool.and_eq_true, decide_eq_true_eq] at htakes
  have hbyte : byte.toNat = 32 := Nat.le_antisymm htakes.2 htakes.1
  exact UInt8.toNat_inj.mp hbyte

theorem stops_of_next (h : next uriRelaxed cs byte = some edge) :
    edge.stops = edge.actions.contains .headerDone := by
  obtain ⟨row, arc, -, -, -, rfl⟩ := mem_of_next h
  rfl

theorem open_of_next (h : next uriRelaxed cs byte = some edge) (hstops : edge.stops = false) :
    edge.target < 348 := by
  obtain ⟨arc, -, -, -, hopen, rfl⟩ := arc_of_next h
  dsimp only at hstops
  rw [Arc.staysOpen, hstops, Bool.false_or, decide_eq_true_eq] at hopen
  exact hopen

/-! ## A call from the start -/

theorem Written.perform_mono {w v w' : Written} {action : Action} (hle : w.le v = true)
    (h : w.perform action = some w') : ∃ v', v.perform action = some v' ∧ w'.le v' = true := by
  obtain ⟨m, f, l, q⟩ := w
  obtain ⟨m', f', l', q'⟩ := v
  simp only [Written.le, Bool.and_eq_true, Bool.or_eq_true, Bool.not_eq_true'] at hle
  cases action <;> simp only [Written.perform] at h ⊢ <;> grind [Written.le]

theorem Written.foldlM_mono {w v w' : Written} {actions : List Action} (hle : w.le v = true)
    (h : actions.foldlM Written.perform w = some w') :
    ∃ v', actions.foldlM Written.perform v = some v' ∧ w'.le v' = true := by
  induction actions generalizing w v with
  | nil =>
      cases h
      exact ⟨v, rfl, hle⟩
  | cons action actions ih =>
      rw [List.foldlM_cons] at h
      obtain ⟨u, hfirst, hrest⟩ := Option.bind_eq_some_iff.mp h
      obtain ⟨u', hfirst', hle'⟩ := Written.perform_mono hle hfirst
      obtain ⟨v', hrest', hle''⟩ := ih hle' hrest
      refine ⟨v', ?_, hle''⟩
      rw [List.foldlM_cons, hfirst']
      exact hrest'

theorem Written.le_refl (w : Written) : w.le w = true := by
  simp only [Written.le, Bool.not_or_self, Bool.and_self]

theorem Written.le_trans {u v w : Written} (huv : u.le v = true) (hvw : v.le w = true) :
    u.le w = true := by
  simp only [Written.le, Bool.and_eq_true, Bool.or_eq_true, Bool.not_eq_true'] at huv hvw ⊢
  grind

/-- Where the known registers are written, no token can start before. -/
theorem tokensWithin_of_known {w : Written} (hle : (known cs).le w = true) (bytes : Bytes) :
    tokensWithin uriRelaxed cs w bytes = true := by
  induction bytes generalizing cs w with
  | nil => rfl
  | cons byte bytes ih =>
      unfold tokensWithin
      cases hnext : next uriRelaxed cs byte with
      | none => rfl
      | some edge =>
          obtain ⟨u, hfold, htarget⟩ := disciplined_of_next hnext
          obtain ⟨v, hfold', hmono⟩ := Written.foldlM_mono hle hfold
          simp only [hfold', ih (Written.le_trans htarget hmono), Bool.or_true]

theorem tokensWithin_start (uriRelaxed : Bool) (bytes : Bytes) :
    tokensWithin uriRelaxed 1 .nothing bytes = true :=
  tokensWithin_of_known (by decide) bytes

/-! ## Tokens -/

/-- What a callback is told, as far as it can be read. -/
inductive Token where
  | element (kind : Element) (text : Option Bytes)
  | field (name value : Option Bytes)
  deriving DecidableEq, Repr

/-- Nothing is done with the whole URI, nor at the end of the header. -/
def Report.token : Report → Option Token
  | .element .requestUri _ _ => none
  | .element .headerDone _ _ => none
  | .element kind start length => some (.element kind (string start length).toOption)
  | .httpField field flen value vlen =>
      some (.field (string field flen).toOption (string value vlen).toOption)

/-- The callbacks take both reports, and cannot tell them apart. -/
structure Report.Alike (r r' : Report) : Prop where
  token : r.token = r'.token
  called : ∀ parsed : Parsed, ∃ after, parsed.call r = .ok after ∧ parsed.call r' = .ok after

theorem string_eq_ok {start start' : Bytes} {length : Nat}
    (h : start.take length = start'.take length) (hfits : length ≤ start'.length) :
    string start length = .ok (start'.take length) ∧
      string start' length = .ok (start'.take length) := by
  have hfits' : length ≤ start.length := by
    have := congrArg List.length h
    simp only [List.length_take] at this
    omega
  exact ⟨by rw [string, if_pos hfits', h], if_pos hfits⟩

theorem take_takeWhile_append (p : UInt8 → Bool) (l : Bytes) (end' : UInt8) (n : Nat) :
    (l.takeWhile p ++ [end']).take n = ((l.take n).takeWhile p ++ [end']).take n := by
  induction l generalizing n with
  | nil => simp
  | cons x l ih =>
      cases n with
      | zero => rfl
      | succ n =>
          rw [List.take_succ_cons]
          by_cases hx : p x = true
          · simp only [List.takeWhile_cons, hx, if_true, List.cons_append, List.take_succ_cons, ih n]
          · simp only [List.takeWhile_cons, hx, Bool.false_eq_true, if_false]

theorem strneq_congr {start start' text : Bytes} {length : Nat}
    (h : start.take length = start'.take length) :
    strneq start text length = strneq start' text length := by
  rw [strneq, strneq, take_takeWhile_append, h, ← take_takeWhile_append]

theorem versionOf_congr {start start' : Bytes} {length : Nat}
    (h : start.take length = start'.take length) :
    versionOf start length = versionOf start' length := by
  simp only [versionOf, strneq_congr h]

theorem alike_element {kind : Element} {start start' : Bytes} {length : Nat}
    (h : start.take length = start'.take length) (hfits : length ≤ start'.length)
    (hkind : kind ≠ .requestMethod) :
    Report.Alike (.element kind start length) (.element kind start' length) := by
  obtain ⟨hstart, hstart'⟩ := string_eq_ok h hfits
  refine ⟨by cases kind <;> simp only [Report.token, hstart, hstart'], fun parsed => ?_⟩
  cases kind with
  | requestMethod => exact absurd rfl hkind
  | requestUri => exact ⟨_, rfl, rfl⟩
  | headerDone => exact ⟨_, rfl, rfl⟩
  | httpVersion =>
      refine ⟨parsed.onRequestVersion start' length, ?_, ?_⟩
      · simp only [Parsed.call, Parsed.onRequestVersion, versionOf_congr h]
      · simp only [Parsed.call]
  | fragment =>
      simp only [Parsed.call, hstart, hstart']
      exact ⟨_, rfl, rfl⟩
  | queryString =>
      simp only [Parsed.call, hstart, hstart']
      exact ⟨_, rfl, rfl⟩
  | requestPath =>
      simp only [Parsed.call, hstart, hstart']
      exact ⟨_, rfl, rfl⟩

theorem alike_ignored {kind : Element} (hkind : kind = .requestUri ∨ kind = .headerDone)
    (start start' : Bytes) (length length' : Nat) :
    Report.Alike (.element kind start length) (.element kind start' length') := by
  rcases hkind with rfl | rfl
  · exact ⟨rfl, fun parsed => ⟨parsed, rfl, rfl⟩⟩
  · exact ⟨rfl, fun parsed => ⟨parsed, rfl, rfl⟩⟩

theorem alike_httpField {field field' value value' : Bytes} {flen vlen : Nat}
    (hfield : field.take flen = field'.take flen) (hflen : flen ≤ field'.length)
    (hvalue : value.take vlen = value'.take vlen) (hvlen : vlen ≤ value'.length) :
    Report.Alike (.httpField field flen value vlen) (.httpField field' flen value' vlen) := by
  obtain ⟨hkey, hkey'⟩ := string_eq_ok hfield hflen
  obtain ⟨htext, htext'⟩ := string_eq_ok hvalue hvlen
  refine ⟨by simp only [Report.token, hkey, hkey', htext, htext'], fun parsed => ?_⟩
  simp only [Parsed.call, Parsed.onRequestHttpField, hkey, hkey', htext, htext']
  split
  · exact ⟨_, rfl, rfl⟩
  · exact ⟨_, rfl, rfl⟩

theorem isPrefixOf_append_cons {name : Bytes} {x : UInt8} (h : x ∉ name) (token rest : Bytes) :
    name.isPrefixOf (token ++ x :: rest) = name.isPrefixOf token := by
  induction token generalizing name with
  | nil =>
      cases name with
      | nil => rfl
      | cons y name =>
          have hne : (y == x) = false := by
            simp only [beq_eq_false_iff_ne]
            rintro rfl
            exact h List.mem_cons_self
          simp [List.isPrefixOf, hne]
  | cons z token ih =>
      cases name with
      | nil => rfl
      | cons y name =>
          have hrest := ih fun hmem => h (List.mem_cons_of_mem _ hmem)
          simp only [List.cons_append, List.isPrefixOf, hrest]

theorem charsToHttpMethod_space (token rest : Bytes) :
    charsToHttpMethod (token ++ 32 :: rest) = charsToHttpMethod token := by
  have hnames : ∀ entry ∈ httpMethodMap, 32 ∉ ascii entry.2 := by decide
  have hfind : httpMethodMap.find? (fun entry => (ascii entry.2).isPrefixOf (token ++ 32 :: rest)) =
      httpMethodMap.find? fun entry => (ascii entry.2).isPrefixOf token := by
    refine List.find?_congr fun entry hentry => ?_
    exact isPrefixOf_append_cons (hnames entry hentry) token rest
  rw [charsToHttpMethod, charsToHttpMethod, hfind]

/-! ## Two scans of the same bytes -/

/-- The second buffer holds what the first one holds from `d` on, and perhaps ends before. -/
structure Inside (whole part : Bytes) (d : Nat) : Prop where
  extends_part : part <+: whole.drop d
  short : whole.length < 2 ^ 31

section Inside

variable {whole part : Bytes} {d p m : Nat}

theorem lt_of_getElem? {byte : UInt8} (hbyte : part[p]? = some byte) : p < part.length := by
  by_contra hge
  rw [List.getElem?_eq_none (by omega)] at hbyte
  cases hbyte

theorem Inside.bound (h : Inside whole part d) (hp : p < part.length) : d + p < 2 ^ 31 := by
  have hlength := h.extends_part.length_le
  have hshort := h.short
  rw [List.length_drop] at hlength
  omega

theorem len_eq (hm : m ≤ p) : HttpParser.len m p = p - m := if_pos hm

theorem Inside.take_drop {n : Nat} (h : Inside whole part d) (hn : m + n ≤ part.length) :
    (whole.drop (d + m)).take n = (part.drop m).take n := by
  obtain ⟨rest, hrest⟩ := h.extends_part
  have hle : m ≤ part.length := by omega
  have hfits : n ≤ (part.drop m).length := by
    rw [List.length_drop]
    omega
  rw [← List.drop_drop, ← hrest, List.drop_append_of_le_length hle,
    List.take_append_of_le_length hfits]

/-- Both buffers hold the same token, and then the same byte. -/
theorem Inside.drop_eq (h : Inside whole part d) (hm : m ≤ p) {byte : UInt8}
    (hbyte : part[p]? = some byte) :
    ∃ token after after', part.drop m = token ++ byte :: after ∧
      whole.drop (d + m) = token ++ byte :: after' := by
  obtain ⟨rest, hrest⟩ := h.extends_part
  have hp := lt_of_getElem? hbyte
  have hdrop : part.drop p = byte :: part.drop (p + 1) := by
    rw [List.drop_eq_getElem_cons hp]
    rw [List.getElem?_eq_getElem hp, Option.some.injEq] at hbyte
    rw [hbyte]
  have hpart : part.drop m = (part.drop m).take (p - m) ++ byte :: part.drop (p + 1) := by
    rw [← hdrop, show part.drop p = (part.drop m).drop (p - m) by
      rw [List.drop_drop]
      congr 1
      omega]
    exact (List.take_append_drop _ _).symm
  refine ⟨(part.drop m).take (p - m), part.drop (p + 1), part.drop (p + 1) ++ rest, hpart, ?_⟩
  rw [← List.drop_drop, ← hrest, List.drop_append_of_le_length (by omega)]
  conv => enter [1, 1]; rw [hpart]
  rw [List.append_assoc, List.cons_append]

end Inside

/-- What two parsers share, the one `d` bytes ahead of the other. -/
structure Agree (d p : Nat) (w : Written) (s t : HttpParser) : Prop where
  mark : w.mark = true → s.mark = d + t.mark ∧ t.mark ≤ p
  fieldStart : w.fieldStart = true → s.fieldStart = d + t.fieldStart ∧ t.fieldStart ≤ p
  fieldLen : w.fieldLen = true → s.fieldStart = d + t.fieldStart ∧ s.fieldLen = t.fieldLen ∧
    t.fieldStart + t.fieldLen ≤ p
  queryStart : w.queryStart = true → s.queryStart = d + t.queryStart ∧ t.queryStart ≤ p
  xmlSent : s.xmlSent = t.xmlSent
  jsonSent : s.jsonSent = t.jsonSent

section Agree

variable {whole part : Bytes} {d p : Nat} {w v : Written} {s t : HttpParser} {byte : UInt8}

theorem agree_nothing (hxml : s.xmlSent = t.xmlSent) (hjson : s.jsonSent = t.jsonSent) :
    Agree d p .nothing s t :=
  ⟨nofun, nofun, nofun, nofun, hxml, hjson⟩

theorem Agree.later (h : Agree d p w s t) : Agree d (p + 1) w s t := by
  refine ⟨fun hw => ?_, fun hw => ?_, fun hw => ?_, fun hw => ?_, h.xmlSent, h.jsonSent⟩
  · exact ⟨(h.mark hw).1, Nat.le_succ_of_le (h.mark hw).2⟩
  · exact ⟨(h.fieldStart hw).1, Nat.le_succ_of_le (h.fieldStart hw).2⟩
  · exact ⟨(h.fieldLen hw).1, (h.fieldLen hw).2.1, Nat.le_succ_of_le (h.fieldLen hw).2.2⟩
  · exact ⟨(h.queryStart hw).1, Nat.le_succ_of_le (h.queryStart hw).2⟩

/-- A token cut at a register that is written is the same in both buffers. -/
theorem alike_report (hin : Inside whole part d) (hbyte : part[p]? = some byte) {m n : Nat}
    (hm : n = d + m ∧ m ≤ p) {kind : Element} (hkind : kind = .requestMethod → byte = 32) :
    Report.Alike (HttpParser.report whole (d + p) n kind) (HttpParser.report part p m kind) := by
  obtain ⟨rfl, hle⟩ := hm
  have hp := lt_of_getElem? hbyte
  have hbound := hin.bound hp
  have hlen : HttpParser.len (d + m) (d + p) = HttpParser.len m p := by
    rw [len_eq (by omega), len_eq (by omega)]
    omega
  have htext : (whole.drop (d + m)).take (p - m) = (part.drop m).take (p - m) :=
    hin.take_drop (by omega)
  rw [HttpParser.report, HttpParser.report, hlen, len_eq hle]
  by_cases hmethod : kind = .requestMethod
  · obtain ⟨token, after, after', hpart, hwhole⟩ := hin.drop_eq hle hbyte
    have hfits : p - m ≤ (part.drop m).length := by
      rw [List.length_drop]
      omega
    obtain ⟨hstring, hstring'⟩ := string_eq_ok htext hfits
    refine ⟨by simp only [hmethod, Report.token, hstring, hstring'], fun parsed => ?_⟩
    rw [hmethod, hpart, hwhole, hkind hmethod]
    refine ⟨parsed.onRequestMethod token, ?_, ?_⟩
    · simp only [Parsed.call, Parsed.onRequestMethod, charsToHttpMethod_space]
    · simp only [Parsed.call, Parsed.onRequestMethod, charsToHttpMethod_space]
  · refine alike_element htext ?_ hmethod
    rw [List.length_drop]
    omega

theorem Agree.perform {action : Action} (h : Agree d p w s t) (hin : Inside whole part d)
    (hbyte : part[p]? = some byte) (hspace : action = .requestMethod → byte = 32)
    (hw : w.perform action = some v) :
    Agree d p v (s.perform whole (d + p) action).1 (t.perform part p action).1 ∧
      List.Forall₂ Report.Alike (s.perform whole (d + p) action).2 (t.perform part p action).2 := by
  have hbound := hin.bound (lt_of_getElem? hbyte)
  have hother : ∀ kind : Element, kind ≠ .requestMethod → kind = .requestMethod → byte = 32 :=
    fun kind hne heq => absurd heq hne
  cases action with
  | mark =>
      cases hw
      exact ⟨{ h with mark := fun _ => ⟨rfl, Nat.le_refl p⟩ }, .nil⟩
  | fieldStart =>
      cases hw
      refine ⟨{ h with
        fieldStart := fun _ => ⟨rfl, Nat.le_refl p⟩, fieldLen := fun hlen => ?_ }, .nil⟩
      cases hlen
  | fieldLen =>
      cases hw
      have hlen : w.fieldStart = true → s.fieldStart = d + t.fieldStart ∧
          HttpParser.len s.fieldStart (d + p) = HttpParser.len t.fieldStart p ∧
          t.fieldStart + HttpParser.len t.fieldStart p ≤ p := by
        intro hstart
        obtain ⟨heq, hle⟩ := h.fieldStart hstart
        rw [heq, len_eq (by omega), len_eq hle]
        omega
      simp only [HttpParser.perform]
      exact ⟨⟨h.mark, h.fieldStart, hlen, h.queryStart, h.xmlSent, h.jsonSent⟩, .nil⟩
  | queryStart =>
      cases hw
      exact ⟨{ h with queryStart := fun _ => ⟨rfl, Nat.le_refl p⟩ }, .nil⟩
  | httpField =>
      obtain ⟨hflags, hv⟩ := Option.ite_none_right_eq_some.mp hw
      cases hv
      rw [Bool.and_eq_true] at hflags
      obtain ⟨hstart, hlen, hfits⟩ := h.fieldLen hflags.1
      obtain ⟨hmark, hle⟩ := h.mark hflags.2
      refine ⟨h, .cons ?_ .nil⟩
      have hvlen : HttpParser.len s.mark (d + p) = HttpParser.len t.mark p := by
        rw [hmark, len_eq (by omega), len_eq hle]
        omega
      rw [hlen, hvlen, hstart, hmark]
      have hp := lt_of_getElem? hbyte
      refine alike_httpField (hin.take_drop (by omega)) ?_ (hin.take_drop ?_) ?_
      · rw [List.length_drop]
        omega
      · rw [len_eq hle]
        omega
      · rw [len_eq hle, List.length_drop]
        omega
  | requestMethod =>
      obtain ⟨hflag, hv⟩ := Option.ite_none_right_eq_some.mp hw
      cases hv
      exact ⟨h, .cons (alike_report hin hbyte (h.mark hflag) fun _ => hspace rfl) .nil⟩
  | fragment | httpVersion | requestPath =>
      obtain ⟨hflag, hv⟩ := Option.ite_none_right_eq_some.mp hw
      cases hv
      exact ⟨h, .cons (alike_report hin hbyte (h.mark hflag) (hother _ nofun)) .nil⟩
  | queryString =>
      obtain ⟨hflag, hv⟩ := Option.ite_none_right_eq_some.mp hw
      cases hv
      exact ⟨h, .cons (alike_report hin hbyte (h.queryStart hflag) (hother _ nofun)) .nil⟩
  | requestUri =>
      cases hw
      exact ⟨h, .cons (alike_ignored (.inl rfl) _ _ _ _) .nil⟩
  | xmlSent =>
      cases hw
      exact ⟨{ h with xmlSent := rfl }, .nil⟩
  | jsonSent =>
      cases hw
      exact ⟨{ h with jsonSent := rfl }, .nil⟩
  | headerDone =>
      cases hw
      simp only [HttpParser.perform, HttpParser.headerDone, h.xmlSent, h.jsonSent]
      split
      · exact ⟨⟨h.mark, h.fieldStart, h.fieldLen, h.queryStart, rfl, rfl⟩, .nil⟩
      · exact ⟨⟨h.mark, h.fieldStart, h.fieldLen, h.queryStart, rfl, rfl⟩,
          .cons (alike_ignored (.inr rfl) _ _ _ _) .nil⟩

/-- The actions of one edge, with the reports made before. -/
theorem Agree.foldl {actions : List Action} {rs rs' : List Report} (h : Agree d p w s t)
    (hreports : List.Forall₂ Report.Alike rs rs') (hin : Inside whole part d)
    (hbyte : part[p]? = some byte) (hspace : .requestMethod ∈ actions → byte = 32)
    (hw : actions.foldlM Written.perform w = some v) :
    Agree d p v (actions.foldl (HttpParser.act whole (d + p)) (s, rs)).1
        (actions.foldl (HttpParser.act part p) (t, rs')).1 ∧
      List.Forall₂ Report.Alike (actions.foldl (HttpParser.act whole (d + p)) (s, rs)).2
        (actions.foldl (HttpParser.act part p) (t, rs')).2 := by
  induction actions generalizing w s t rs rs' with
  | nil =>
      cases hw
      exact ⟨h, hreports⟩
  | cons action actions ih =>
      rw [List.foldlM_cons] at hw
      obtain ⟨u, hfirst, hrest⟩ := Option.bind_eq_some_iff.mp hw
      obtain ⟨hagree, halike⟩ := h.perform hin hbyte
        (fun heq => hspace (heq ▸ List.mem_cons_self)) hfirst
      exact ih hagree (List.rel_append hreports halike)
        (fun hmem => hspace (List.mem_cons_of_mem _ hmem)) hrest

/-- Two scans make reports alike if every token reported starts in the shorter buffer. -/
theorem scan_agree {rs rs' : List Report} (h : Agree d 0 w s t)
    (hreports : List.Forall₂ Report.Alike rs rs') (hin : Inside whole part d)
    (htokens : tokensWithin uriRelaxed cs w part = true) :
    (scan (next uriRelaxed) (HttpParser.act whole) cs d part (s, rs)).halt =
        (scan (next uriRelaxed) (HttpParser.act part) cs 0 part (t, rs')).halt ∧
      (scan (next uriRelaxed) (HttpParser.act whole) cs d part (s, rs)).position =
        d + (scan (next uriRelaxed) (HttpParser.act part) cs 0 part (t, rs')).position ∧
      ∃ i v, Agree d i v (scan (next uriRelaxed) (HttpParser.act whole) cs d part (s, rs)).state.1
          (scan (next uriRelaxed) (HttpParser.act part) cs 0 part (t, rs')).state.1 ∧
        List.Forall₂ Report.Alike
          (scan (next uriRelaxed) (HttpParser.act whole) cs d part (s, rs)).state.2
          (scan (next uriRelaxed) (HttpParser.act part) cs 0 part (t, rs')).state.2 := by
  have hedge : ∀ cs p (byte : UInt8) bytes (edge : Edge Nat Action)
      (s t : HttpParser × List Report), next uriRelaxed cs byte = some edge →
      (part.drop p = byte :: bytes ∧ ∃ w, tokensWithin uriRelaxed cs w (byte :: bytes) = true ∧
        Agree d p w s.1 t.1 ∧ List.Forall₂ Report.Alike s.2 t.2) →
      ∃ v, (edge.stops || tokensWithin uriRelaxed edge.target v bytes) = true ∧
        Agree d (p + 1) v (edge.actions.foldl (HttpParser.act whole (d + p)) s).1
          (edge.actions.foldl (HttpParser.act part p) t).1 ∧
        List.Forall₂ Report.Alike (edge.actions.foldl (HttpParser.act whole (d + p)) s).2
          (edge.actions.foldl (HttpParser.act part p) t).2 := by
    rintro cs p byte bytes edge s t hnext ⟨hdrop, w, hwithin, hagree, halike⟩
    have hbyte : part[p]? = some byte := by
      rw [← List.head?_drop, hdrop]
      rfl
    simp only [tokensWithin, hnext] at hwithin
    cases hfold : edge.actions.foldlM Written.perform w with
    | none => simp [hfold] at hwithin
    | some v =>
        simp only [hfold] at hwithin
        obtain ⟨hagree', halike'⟩ := hagree.foldl halike hin hbyte (space_of_next hnext) hfold
        exact ⟨v, hwithin, hagree'.later, halike'⟩
  refine scan_related (next uriRelaxed) (HttpParser.act whole) (HttpParser.act part) d
    (fun cs p bytes s t => part.drop p = bytes ∧ ∃ w, tokensWithin uriRelaxed cs w bytes = true ∧
      Agree d p w s.1 t.1 ∧ List.Forall₂ Report.Alike s.2 t.2)
    (fun _ _ s t => ∃ i v, Agree d i v s.1 t.1 ∧ List.Forall₂ Report.Alike s.2 t.2)
    ?_ ?_ ?_ ?_ (p := 0) (s := (s, rs)) (t := (t, rs')) ⟨rfl, w, htokens, h, hreports⟩
  · rintro cs p s t ⟨-, w, -, hagree, halike⟩
    exact ⟨p, w, hagree, halike⟩
  · rintro cs p byte bytes s t - ⟨-, w, -, hagree, halike⟩
    exact ⟨p, w, hagree, halike⟩
  · intro cs p byte bytes edge s t hnext _ hrel
    obtain ⟨v, -, hagree, halike⟩ := hedge cs p byte bytes edge s t hnext hrel
    exact ⟨p + 1, v, hagree, halike⟩
  · intro cs p byte bytes edge s t hnext hstops hrel
    obtain ⟨v, hwithin, hagree, halike⟩ := hedge cs p byte bytes edge s t hnext hrel
    rw [hstops, Bool.false_or] at hwithin
    refine ⟨?_, v, hwithin, hagree, halike⟩
    rw [← List.tail_drop, hrel.1]
    rfl

end Agree

/-! ## One call -/

/-- What the assertions at the end of a call need. -/
structure Held (length p : Nat) (s : HttpParser) : Prop where
  mark : s.mark < length
  fieldStart : s.fieldStart < length
  fieldStart_le : s.fieldStart ≤ p
  fieldLen : s.fieldLen ≤ length
  bodyStart : s.bodyStart ≤ length
  nread : s.nread = 0

section Held

variable {s : HttpParser} {buffer : Bytes} {p : Nat}

theorem Held.perform {action : Action} (h : Held buffer.length p s)
    (hp : p < buffer.length) :
    Held buffer.length p (s.perform buffer p action).1 := by
  cases action with
  | mark => exact { h with mark := hp }
  | fieldStart => exact { h with fieldStart := hp, fieldStart_le := Nat.le_refl p }
  | fieldLen =>
      have hlen : HttpParser.len s.fieldStart p ≤ buffer.length := by
        rw [len_eq h.fieldStart_le]
        omega
      simp only [HttpParser.perform]
      exact ⟨h.mark, h.fieldStart, h.fieldStart_le, hlen, h.bodyStart, h.nread⟩
  | headerDone =>
      have hmark : s.mark ≤ buffer.length := Nat.le_of_lt h.mark
      simp only [HttpParser.perform, HttpParser.headerDone]
      split
      · exact { h with bodyStart := hmark }
      · exact { h with bodyStart := hp }
  | xmlSent => exact { h with }
  | jsonSent => exact { h with }
  | queryStart => exact { h with }
  | _ => exact h

theorem bodyStart_perform {action : Action} (h : action ≠ .headerDone) :
    (s.perform buffer p action).1.bodyStart = s.bodyStart := by
  cases action with
  | headerDone => exact absurd rfl h
  | _ => simp only [HttpParser.perform]

theorem Held.foldl {actions : List Action} {rs : List Report} (h : Held buffer.length p s)
    (hp : p < buffer.length) :
    Held buffer.length p (actions.foldl (HttpParser.act buffer p) (s, rs)).1 := by
  induction actions generalizing s rs with
  | nil => exact h
  | cons action actions ih => exact ih (h.perform hp)

theorem bodyStart_foldl {actions : List Action} {rs : List Report}
    (h : .headerDone ∉ actions) :
    (actions.foldl (HttpParser.act buffer p) (s, rs)).1.bodyStart = s.bodyStart := by
  induction actions generalizing s rs with
  | nil => rfl
  | cons action actions ih =>
      have hfirst : action ≠ .headerDone := fun heq => h (heq ▸ List.mem_cons_self)
      rw [List.foldl_cons, HttpParser.act]
      rw [ih fun hmem => h (List.mem_cons_of_mem _ hmem), bodyStart_perform hfirst]

theorem Held.later (h : Held buffer.length p s) : Held buffer.length (p + 1) s :=
  { h with fieldStart_le := Nat.le_succ_of_le h.fieldStart_le }

variable {parser : HttpParser}

/-- A scan keeps the assertions, and only its last edge moves the start of the body. -/
theorem run_held (hne : buffer ≠ []) (hbody : parser.bodyStart ≤ buffer.length) :
    Held buffer.length (parser.run buffer).position (parser.run buffer).state.1 ∧
      ((∀ r, (parser.run buffer).halt ≠ .stopped r) →
        (parser.run buffer).state.1.bodyStart = parser.bodyStart) := by
  have hpos := List.length_pos_iff.mpr hne
  have hstart : Held buffer.length 0 parser.rewind :=
    ⟨hpos, hpos, Nat.le_refl 0, Nat.zero_le _, hbody, rfl⟩
  refine scan_invariant (next parser.uriRelaxed) (HttpParser.act buffer)
    (fun _ p rest s => p + rest.length = buffer.length ∧ Held buffer.length p s.1 ∧
      s.1.bodyStart = parser.bodyStart)
    (fun halt p s => Held buffer.length p s.1 ∧
      ((∀ r, halt ≠ .stopped r) → s.1.bodyStart = parser.bodyStart))
    ?_ ?_ ?_ ?_ ⟨Nat.zero_add _, hstart, rfl⟩
  · rintro cs p s ⟨-, hheld, hsame⟩
    exact ⟨hheld, fun _ => hsame⟩
  · rintro cs p byte rest s - ⟨-, hheld, hsame⟩
    exact ⟨hheld, fun _ => hsame⟩
  · rintro cs p byte rest edge s - - ⟨hlength, hheld, -⟩
    rw [List.length_cons] at hlength
    exact ⟨(hheld.foldl (by omega)).later, fun hnever => absurd rfl (hnever edge.target)⟩
  · rintro cs p byte rest edge s hnext hstops ⟨hlength, hheld, hsame⟩
    rw [List.length_cons] at hlength
    rw [stops_of_next hnext] at hstops
    have hno : .headerDone ∉ edge.actions := by
      intro hmem
      rw [List.contains_iff_mem.mpr hmem] at hstops
      cases hstops
    exact ⟨by omega, (hheld.foldl (by omega)).later, (bodyStart_foldl hno).trans hsame⟩

/-- The parser after a call. -/
def after (parser : HttpParser) (buffer : Bytes) : HttpParser :=
  (parser.run buffer).state.1.settle (parser.run buffer).halt (parser.run buffer).position

theorem execute_eq (hne : buffer ≠ []) (hshort : buffer.length < 2 ^ 31)
    (hbody : parser.bodyStart ≤ buffer.length) :
    parser.execute buffer =
      .ok (after parser buffer, (parser.run buffer).state.2, (parser.run buffer).position) := by
  have hheld := (run_held hne hbody).1
  have hpos := List.length_pos_iff.mpr hne
  have hposition : (parser.run buffer).position ≤ buffer.length := by
    have := (position_of_halt (next parser.uriRelaxed) (HttpParser.act buffer) parser.cs 0
      buffer (parser.rewind, [])).1
    rw [Nat.zero_add] at this
    exact this
  have hnread : (after parser buffer).nread = (parser.run buffer).position := by
    show (parser.run buffer).state.1.nread + _ = _
    rw [hheld.nread, Nat.zero_add]
  have hsound : (after parser buffer).sound buffer.length = true := by
    simp only [HttpParser.sound, Bool.and_eq_true, decide_eq_true_eq, hnread]
    exact ⟨⟨⟨⟨hposition, hheld.bodyStart⟩, hheld.mark⟩, hheld.fieldLen⟩, hheld.fieldStart⟩
  unfold HttpParser.execute
  rw [if_neg (Nat.ne_of_gt hpos), if_neg (by omega)]
  show (if (after parser buffer).sound buffer.length = true then
    Except.ok (after parser buffer, (parser.run buffer).state.2, (after parser buffer).nread)
    else _) = _
  rw [if_pos hsound, hnread]

theorem frame_perform (s : HttpParser) (buffer : Bytes) (p : Nat) (action : Action) :
    (s.perform buffer p action).1.cs = s.cs ∧
      (s.perform buffer p action).1.uriRelaxed = s.uriRelaxed := by
  cases action with
  | headerDone =>
      simp only [HttpParser.perform, HttpParser.headerDone]
      split <;> exact ⟨rfl, rfl⟩
  | _ => exact ⟨rfl, rfl⟩

theorem run_frame (parser : HttpParser) (buffer : Bytes) :
    (parser.run buffer).state.1.cs = parser.cs ∧
      (parser.run buffer).state.1.uriRelaxed = parser.uriRelaxed := by
  have hfold : ∀ p (actions : List Action) (s : HttpParser × List Report),
      s.1.cs = parser.cs ∧ s.1.uriRelaxed = parser.uriRelaxed →
      (actions.foldl (HttpParser.act buffer p) s).1.cs = parser.cs ∧
        (actions.foldl (HttpParser.act buffer p) s).1.uriRelaxed = parser.uriRelaxed := by
    intro p actions
    induction actions with
    | nil => exact fun _ h => h
    | cons action actions ih =>
        intro s h
        obtain ⟨hcs, huri⟩ := frame_perform s.1 buffer p action
        exact ih _ ⟨hcs.trans h.1, huri.trans h.2⟩
  exact scan_invariant (next parser.uriRelaxed) (HttpParser.act buffer)
    (fun _ _ _ s => s.1.cs = parser.cs ∧ s.1.uriRelaxed = parser.uriRelaxed)
    (fun _ _ s => s.1.cs = parser.cs ∧ s.1.uriRelaxed = parser.uriRelaxed)
    (fun _ _ _ h => h) (fun _ _ _ _ _ _ h => h)
    (fun _ p _ _ edge s _ _ h => hfold p edge.actions s h)
    (fun _ p _ _ edge s _ _ h => hfold p edge.actions s h) ⟨rfl, rfl⟩

theorem after_cs (parser : HttpParser) (buffer : Bytes) :
    (after parser buffer).cs =
      if parser.cs = 0 then 0 else HttpParser.haltState (parser.run buffer).halt := by
  simp only [after, HttpParser.settle, HttpParser.hasError, (run_frame parser buffer).1,
    decide_eq_true_eq]
  split <;> simp_all

theorem of_execute_eq_ok {machine : HttpParser} {rs : List Report} {n : Nat}
    (hne : buffer ≠ []) (h : parser.execute buffer = .ok (machine, rs, n)) :
    buffer.length < 2 ^ 31 ∧ machine = after parser buffer ∧ rs = (parser.run buffer).state.2 := by
  have hlength : buffer.length ≠ 0 := fun hzero => hne (List.length_eq_zero_iff.mp hzero)
  rw [HttpParser.execute, if_neg hlength] at h
  split at h
  · cases h
  · rename_i hshort
    dsimp only at h
    split at h
    · cases h
      exact ⟨Nat.lt_of_not_le hshort, rfl, rfl⟩
    · cases h

end Held

/-- A scan from the start that ends is not in a final state. -/
theorem lt_of_ended {bytes : Bytes} {cs : Nat} (h : course (next uriRelaxed) 1 bytes = .ended cs) :
    cs < 348 := by
  have hopen : ∀ r, course (next uriRelaxed) 1 bytes = .ended r → r < 348 :=
    scan_invariant (next uriRelaxed) (fun _ (_ : Unit) (_ : Action) => ()) (fun cs _ _ _ => cs < 348)
      (fun halt _ _ => ∀ r, halt = .ended r → r < 348)
      (fun cs _ _ hcs r heq => by
        cases heq
        exact hcs)
      (fun _ _ _ _ _ _ _ => nofun) (fun _ _ _ _ _ _ _ _ _ => nofun)
      (fun _ _ _ _ _ _ hnext hstops _ => open_of_next hnext hstops) (by decide)
  exact hopen cs h

/-! ## Reports -/

theorem foldl_reports (buffer : Bytes) (p : Nat) (actions : List Action) (s : HttpParser)
    (rs rs' : List Report) :
    actions.foldl (HttpParser.act buffer p) (s, rs ++ rs') =
      ((actions.foldl (HttpParser.act buffer p) (s, rs')).1,
        rs ++ (actions.foldl (HttpParser.act buffer p) (s, rs')).2) := by
  induction actions generalizing s rs' with
  | nil => rfl
  | cons action actions ih =>
      simp only [List.foldl_cons, HttpParser.act, List.append_assoc, ih]

/-- Reports made before a scan stay in front of its own. -/
theorem scan_reports (buffer : Bytes) (p : Nat) (bytes : Bytes) (s : HttpParser)
    (rs : List Report) :
    (scan (next uriRelaxed) (HttpParser.act buffer) cs p bytes (s, rs)).state =
      ((scan (next uriRelaxed) (HttpParser.act buffer) cs p bytes (s, [])).state.1,
        rs ++ (scan (next uriRelaxed) (HttpParser.act buffer) cs p bytes (s, [])).state.2) := by
  have hfold : ∀ p (actions : List Action) (s t : HttpParser × List Report),
      s = (t.1, rs ++ t.2) → actions.foldl (HttpParser.act buffer (0 + p)) s =
        ((actions.foldl (HttpParser.act buffer p) t).1,
          rs ++ (actions.foldl (HttpParser.act buffer p) t).2) := by
    rintro p actions s ⟨t, rs'⟩ rfl
    rw [Nat.zero_add]
    exact foldl_reports buffer p actions t rs rs'
  have hscan : (scan (next uriRelaxed) (HttpParser.act buffer) cs (0 + p) bytes (s, rs)).state =
      ((scan (next uriRelaxed) (HttpParser.act buffer) cs p bytes (s, [])).state.1,
        rs ++ (scan (next uriRelaxed) (HttpParser.act buffer) cs p bytes (s, [])).state.2) :=
    (scan_related (next uriRelaxed) (HttpParser.act buffer) (HttpParser.act buffer) 0
      (fun _ _ _ s t => s = (t.1, rs ++ t.2)) (fun _ _ s t => s = (t.1, rs ++ t.2))
      (fun _ _ _ _ h => h) (fun _ _ _ _ _ _ _ h => h)
      (fun _ p _ _ edge s t _ _ h => hfold p edge.actions s t h)
      (fun _ p _ _ edge s t _ _ h => hfold p edge.actions s t h) (by rw [List.append_nil])).2.2
  rwa [Nat.zero_add] at hscan

/-- The registers do not depend on what the buffer holds. -/
theorem perform_registers (buffer buffer' : Bytes) (p : Nat) (s : HttpParser) (action : Action) :
    (s.perform buffer p action).1 = (s.perform buffer' p action).1 := by
  cases action with
  | headerDone =>
      simp only [HttpParser.perform, HttpParser.headerDone]
      split <;> rfl
  | _ => rfl

theorem scan_registers (buffer buffer' : Bytes) (bytes : Bytes) (s : HttpParser)
    (rs rs' : List Report) :
    (scan (next uriRelaxed) (HttpParser.act buffer) cs 0 bytes (s, rs)).state.1 =
      (scan (next uriRelaxed) (HttpParser.act buffer') cs 0 bytes (s, rs')).state.1 := by
  have hfold : ∀ p (actions : List Action) (s t : HttpParser × List Report), s.1 = t.1 →
      (actions.foldl (HttpParser.act buffer (0 + p)) s).1 =
        (actions.foldl (HttpParser.act buffer' p) t).1 := by
    intro p actions
    rw [Nat.zero_add]
    induction actions with
    | nil => exact fun _ _ h => h
    | cons action actions ih =>
        intro s t h
        refine ih _ _ ?_
        show (s.1.perform buffer p action).1 = (t.1.perform buffer' p action).1
        rw [h, perform_registers buffer buffer']
  exact (scan_related (next uriRelaxed) (HttpParser.act buffer) (HttpParser.act buffer') 0
    (fun _ _ _ s t => s.1 = t.1) (fun _ _ s t => s.1 = t.1) (fun _ _ _ _ h => h)
    (fun _ _ _ _ _ _ _ h => h) (fun _ p _ _ edge s t _ _ h => hfold p edge.actions s t h)
    (fun _ p _ _ edge s t _ _ h => hfold p edge.actions s t h) (p := 0) (s := (s, rs))
    (t := (s, rs')) rfl).2.2

/-- Alike reports put the same request together. -/
theorem foldlM_alike {rs rs' : List Report} (h : List.Forall₂ Report.Alike rs rs')
    (parsed : Parsed) :
    ∃ after, rs.foldlM Parsed.call parsed = .ok after ∧
      rs'.foldlM Parsed.call parsed = .ok after := by
  induction h generalizing parsed with
  | nil => exact ⟨parsed, rfl, rfl⟩
  | cons hhead _ ih =>
      obtain ⟨middle, hfirst, hfirst'⟩ := hhead.called parsed
      obtain ⟨after, hrest, hrest'⟩ := ih middle
      refine ⟨after, ?_, ?_⟩
      · rw [List.foldlM_cons, hfirst]
        exact hrest
      · rw [List.foldlM_cons, hfirst']
        exact hrest'

theorem run_error {parser : HttpParser} {buffer : Bytes} (hcs : parser.cs = 0)
    (hne : buffer ≠ []) : parser.run buffer = ⟨.failed, 0, (parser.rewind, [])⟩ := by
  cases buffer with
  | nil => exact absurd rfl hne
  | cons byte bytes =>
      rw [HttpParser.run, hcs, scan, next_error]

end Request

open Request

section

variable {memory : HttpParser} {a b : Bytes}

theorem execute_of_calls {machine : HttpParser} {before parsed : Parsed} {bytes : Bytes}
    (hcall : (machine.run bytes).state.2.foldlM Parsed.call before = .ok parsed)
    (hne : bytes ≠ []) (hshort : bytes.length < 2 ^ 31)
    (hbody : machine.bodyStart ≤ bytes.length) :
    HttpRequestParser.execute ⟨before, machine⟩ bytes =
      .ok (⟨parsed, after machine bytes⟩, (machine.run bytes).position) := by
  rw [HttpRequestParser.execute, execute_eq hne hshort hbody]
  simp only [bind, Except.bind, hcall]

/-- The course of `a` in front of `b`, next to the course of `a` alone. -/
theorem scan_front (memory : HttpParser) (hshort : (a ++ b).length < 2 ^ 31) :
    ∃ front, scan (next memory.uriRelaxed) (HttpParser.act (a ++ b)) 1 0 a
        (memory.init.rewind, []) = front ∧
      front.halt = (memory.init.run a).halt ∧ front.position = (memory.init.run a).position ∧
      front.state.1 = (memory.init.run a).state.1 ∧
      List.Forall₂ Report.Alike front.state.2 (memory.init.run a).state.2 := by
  have hin : Inside (a ++ b) a 0 := ⟨List.prefix_append a b, hshort⟩
  have hself : Agree 0 0 .nothing memory.init.rewind memory.init.rewind :=
    agree_nothing rfl rfl
  obtain ⟨hhalt, hposition, _, _, -, halike⟩ :=
    scan_agree hself .nil hin (tokensWithin_start memory.uriRelaxed a)
  rw [Nat.zero_add] at hposition
  exact ⟨_, rfl, hhalt, hposition, scan_registers _ _ _ _ _ _, halike⟩

end

end Qslary.Http

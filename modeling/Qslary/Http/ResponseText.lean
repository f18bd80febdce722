import Qslary.Foundation.Segments
import Qslary.Http.Framing
import Qslary.Http.RequestRuns
import Qslary.Http.ResponseParser

/-!
# The pieces of a response

What the parser makes of the pieces that `dump` writes one after another: the version, the
status, the reason and the header fields.  Along a name the automaton spells the three
names that mean something to it, and forgets them where another byte comes.
-/

namespace Qslary.Http.Response

open Qslary.Foundation

/-! ## What a piece changes -/

/-- The registers are inside what has been scanned, and no chunks are announced. -/
structure Seen (p : Nat) (parser : HttpResponseParser) : Prop where
  mark : parser.parser.mark ≤ p
  fieldStart : parser.parser.fieldStart ≤ p
  fieldLen : parser.parser.fieldLen ≤ p
  bodyStart : parser.parser.bodyStart = 0
  nread : parser.parser.nread = 0
  chunked : parser.parser.chunked = false
  error : parser.error = 0

theorem Seen.mono {p p' : Nat} {parser : HttpResponseParser} (h : Seen p parser) (hle : p ≤ p') :
    Seen p' parser :=
  ⟨h.mark.trans hle, h.fieldStart.trans hle, h.fieldLen.trans hle, h.bodyStart, h.nread, h.chunked,
    h.error⟩

/-- No call fails, and the response is changed by `f`. -/
def Tells (f : HttpResponse → HttpResponse) (s t : Nat × Except Fault HttpResponseParser) : Prop :=
  ∀ parser, s.2 = .ok parser → Seen s.1 parser →
    ∃ after, t.2 = .ok after ∧ Seen t.1 after ∧ after.data = f parser.data

theorem Tells.silent (s t : Nat × Except Fault HttpResponseParser) (h : s.1 ≤ t.1 ∧ t.2 = s.2) :
    Tells id s t :=
  fun parser hparser hseen => ⟨parser, h.2.trans hparser, hseen.mono h.1, rfl⟩

theorem Tells.comp {f g : HttpResponse → HttpResponse} (s t : Nat × Except Fault HttpResponseParser)
    (h : Relation.Comp (Tells f) (Tells g) s t) : Tells (fun rsp => g (f rsp)) s t := by
  obtain ⟨mid, hf, hg⟩ := h
  intro parser hparser hseen
  obtain ⟨between, hmid, hseen, hdata⟩ := hf parser hparser hseen
  obtain ⟨after, ht, hseen, hdata'⟩ := hg between hmid hseen
  exact ⟨after, ht, hseen, hdata'.trans (congrArg g hdata)⟩

abbrev Piece (q : Nat) (text : Bytes) (f : HttpResponse → HttpResponse) (r : Nat) : Prop :=
  Takes next HttpResponseParser.act q text (Tells f) r

theorem Piece.append {q r t : Nat} {text text' : Bytes} {f g : HttpResponse → HttpResponse}
    (h : Piece q text f r) (h' : Piece r text' g t) :
    Piece q (text ++ text') (fun rsp => g (f rsp)) t :=
  (Takes.append h h').mono Tells.comp

theorem Piece.flatMap {ι : Type*} {q : Nat} {text : ι → Bytes}
    {f : ι → HttpResponse → HttpResponse} {is : List ι} (h : ∀ i ∈ is, Piece q (text i) (f i) q) :
    Piece q (is.flatMap text) (fun rsp => is.foldl (fun rsp i => f i rsp) rsp) q := by
  refine (Takes.flatMap h).mono ?_
  clear h
  induction is with
  | nil =>
      rintro s t rfl
      exact Tells.silent s s ⟨Nat.le_refl _, rfl⟩
  | cons i is ih =>
      rintro s t ⟨mid, hi, his⟩
      exact Tells.comp s t ⟨mid, hi, ih mid t his⟩

theorem Piece.walk {q r : Nat} {text : Bytes} (h : walk next q text = some r) :
    Piece q text id r :=
  (Takes.walk h).mono Tells.silent

/-! ## Tokens -/

section

variable {q mid last r : Nat} {x y : UInt8} {rest : Bytes} {action : Action}

/-- The action reads the text in front of the byte that it stands on, from the mark on. -/
def Reads (action : Action) (text : Bytes) (y : UInt8) (f : HttpResponse → HttpResponse) : Prop :=
  ∀ before after (parser : HttpResponseParser),
    parser.parser.mark = before.length →
      parser.perform (before ++ (text ++ y :: after)) (before.length + text.length) action =
        .ok { parser with data := f parser.data }

theorem Piece.token {f : HttpResponse → HttpResponse}
    (hfirst : next q x = some ⟨[.mark], mid, false⟩)
    (hbody : Foundation.walk next mid rest = some last)
    (hlast : next last y = some ⟨[action], r, false⟩) (hreads : Reads action (x :: rest) y f) :
    Piece q (x :: (rest ++ [y])) f r := by
  refine Takes.token hfirst hbody hlast fun before after s parser hparser hseen => ?_
  dsimp only at hparser hseen
  subst hparser
  have hread := hreads before after (parser.set { parser.parser with mark := before.length }) rfl
  refine ⟨_, hread, ?_, rfl⟩
  have hstart := hseen.fieldStart
  have hlen := hseen.fieldLen
  exact ⟨by simp only [HttpResponseParser.set]; omega, by simp only [HttpResponseParser.set]; omega,
    by simp only [HttpResponseParser.set]; omega, hseen.bodyStart, hseen.nread, hseen.chunked,
    hseen.error⟩

theorem drop_mark (before text : Bytes) (rest : Bytes) :
    (before ++ (text ++ rest)).drop before.length = text ++ rest := List.drop_left

theorem len_mark (m n : Nat) : HttpParser.len m (m + n) = n := by
  rw [Request.len_eq (Nat.le_add_right m n), Nat.add_sub_cancel_left]

theorem string_front (text rest : Bytes) : string (text ++ rest) text.length = .ok text := by
  simp [string]

end

/-! ## The status line -/

def versionRow (version : UInt8) : Bool :=
  match versionText version with
  | [] => false
  | x :: rest =>
      goes next 1 x [.mark] 8 && walk next 8 rest = some 15 &&
        versionOf (versionText version) (versionText version).length = some version

structure StatusRows : Prop where
  versions : [0x10, 0x11].all versionRow = true
  version_end : goes next 15 32 [.httpVersion] 16 = true
  status_first : leads next 16 digit [.mark] [17] = true
  status : leads next 17 digit [] [17] = true
  status_end : goes next 17 32 [.statusCode] 18 = true
  reason_first : leads next 18 reasonByte [.mark] [19] = true
  reason : leads next 19 valueByte [] [19] = true
  reason_end : goes next 19 13 [.reasonPhrase] 24 = true
  newline : goes next 24 10 [] 20 = true

theorem statusRows : StatusRows := by constructor <;> decide +kernel

theorem walk_leads {q : Nat} {bytes : List (Nat × Nat)} {text : Bytes}
    (h : leads next q bytes [] [q] = true) (htext : ∀ x ∈ text, within bytes x.toNat = true) :
    walk next q text = some q := by
  refine walk_stay fun x hx => ?_
  obtain ⟨r, hr, hnext⟩ := next_of_leads h (htext x hx)
  rwa [List.mem_singleton.mp hr] at hnext

theorem piece_version {version : UInt8} (hversion : version = 0x10 ∨ version = 0x11) :
    Piece 1 (versionText version ++ [32]) (fun rsp => { rsp with version := version }) 16 := by
  have hrow := List.all_eq_true.mp statusRows.versions version (by simpa using hversion)
  unfold versionRow at hrow
  cases htext : versionText version with
  | nil => simp [htext] at hrow
  | cons x rest =>
      simp only [htext, Bool.and_eq_true, decide_eq_true_eq] at hrow
      obtain ⟨⟨hfirst, hwalk⟩, hread⟩ := hrow
      refine Piece.token (next_of_goes hfirst) hwalk (next_of_goes statusRows.version_end) ?_
      intro before after parser hmark
      have htake : (x :: rest ++ 32 :: after).take (x :: rest).length =
          (x :: rest).take (x :: rest).length := by
        simp
      simp only [HttpResponseParser.perform, HttpResponseParser.onResponseVersion, hmark, drop_mark,
        len_mark, Request.versionOf_congr htake, hread]

theorem within_of_isDigit {x : UInt8} (h : isDigit x = true) : within digit x.toNat = true := by
  have hbounds : 48 ≤ x.toNat ∧ x.toNat ≤ 57 := by simpa [isDigit, UInt8.le_iff_toNat_le] using h
  simpa [within, digit] using hbounds

theorem piece_status {status : UInt32} (hsmall : status.toNat < 2 ^ 31) :
    Piece 16 (decimal status.toNat ++ [32]) (fun rsp => { rsp with status := status }) 18 := by
  cases htext : decimal status.toNat with
  | nil => exact absurd htext (decimal_ne_nil _)
  | cons x rest =>
      have hdigits : ∀ y ∈ x :: rest, within digit y.toNat = true := fun y hy =>
        within_of_isDigit (isDigit_of_mem_decimal (htext ▸ hy))
      obtain ⟨hx, hrest⟩ := List.forall_mem_cons.mp hdigits
      obtain ⟨r, hr, hfirst⟩ := next_of_leads statusRows.status_first hx
      rw [List.mem_singleton.mp hr] at hfirst
      refine Piece.token hfirst (walk_leads statusRows.status hrest)
        (next_of_goes statusRows.status_end) ?_
      intro before after parser hmark
      have hvalue : strtol 10 (x :: rest ++ 32 :: after) = status.toNat := by
        rw [← htext]
        exact strtol_decimal (by decide) after (by omega)
      have hint : (intOf status.toNat % 2 ^ 32).toNat = status.toNat := by
        unfold intOf
        omega
      simp only [HttpResponseParser.perform, HttpResponseParser.onResponseStatus, hmark, drop_mark,
        hvalue, hint, UInt32.ofNat_toNat]

/-- A reason without a line end, that may begin with a carriage return. -/
def ReasonText (reason : Bytes) : Prop :=
  ∃ x rest, reason = x :: rest ∧ within reasonByte x.toNat = true ∧
    ∀ y ∈ rest, within valueByte y.toNat = true

theorem piece_reason {reason : Bytes} (h : ReasonText reason) :
    Piece 18 (reason ++ crlf) (fun rsp => { rsp with reason := reason }) 20 := by
  obtain ⟨x, rest, rfl, hx, hrest⟩ := h
  obtain ⟨r, hr, hfirst⟩ := next_of_leads statusRows.reason_first hx
  rw [List.mem_singleton.mp hr] at hfirst
  have hline : Piece 18 (x :: (rest ++ [13])) (fun rsp => { rsp with reason := x :: rest }) 24 := by
    refine Piece.token hfirst (walk_leads statusRows.reason hrest)
      (next_of_goes statusRows.reason_end) ?_
    intro before after parser hmark
    simp only [HttpResponseParser.perform, HttpResponseParser.onResponseReason, hmark, drop_mark,
      len_mark, string_front]
    rfl
  simpa using hline.append (.walk (walk_cons (next_of_goes statusRows.newline) []))

/-! ## Names -/

/-- The names that mean something to the automaton. -/
def reserved : List Bytes :=
  [ascii "connection", ascii "transfer-encoding", ascii "content-length"]

/-- The states along these names, with what has been spelled. -/
def spelled : List (Nat × Bytes) :=
  (List.range 10).map (fun i => (25 + i, (ascii "connection").take (i + 1))) ++
    (List.range 11).map (fun i => (101 + i, (ascii "content-length").take (i + 4))) ++
    (List.range 17).map fun i => (44 + i, (ascii "transfer-encoding").take (i + 1))

/-- The edge leads into the state of a name that means nothing, or along one of the others. -/
def spells (actions : List Action) (text : Bytes) (edge : Option (Edge Nat Action)) : Bool :=
  edgeIs actions (21 :: (spelled.filter fun entry => entry.2 = text).map Prod.fst) edge

structure NameRows : Prop where
  first : (everyByte tokenByte fun x => spells [.fieldStart] [toLower x] (next 20 x)) = true
  rest : (spelled.all fun entry => everyByte tokenByte fun x =>
    spells [] (entry.2 ++ [toLower x]) (next entry.1 x)) = true
  other : leads next 21 tokenByte [] [21] = true
  colon : (goes next 21 58 [.fieldLen] 22 && spelled.all fun entry =>
    reserved.contains entry.2 || goes next entry.1 58 [.fieldLen] 22) = true

theorem nameRows : NameRows := by constructor <;> decide +kernel

/-- A state that is got to by a text. -/
def SpelledBy (q : Nat) (text : Bytes) : Prop := q = 21 ∨ (q, text) ∈ spelled

theorem spelledBy_of_spells {actions : List Action} {text : Bytes} {edge : Option (Edge Nat Action)}
    (h : spells actions text edge = true) :
    ∃ r, SpelledBy r text ∧ edge = some ⟨actions, r, false⟩ := by
  obtain ⟨r, hr, hedge⟩ := exists_of_edgeIs h
  refine ⟨r, ?_, hedge⟩
  rcases List.mem_cons.mp hr with rfl | hr
  · exact .inl rfl
  · simp only [List.mem_map, List.mem_filter, decide_eq_true_eq] at hr
    obtain ⟨⟨q, found⟩, ⟨hmem, rfl⟩, rfl⟩ := hr
    exact .inr hmem

theorem walk_name {q : Nat} {text rest : Bytes} (hq : SpelledBy q text)
    (hrest : ∀ x ∈ rest, within tokenByte x.toNat = true) :
    ∃ last, walk next q rest = some last ∧ SpelledBy last (text ++ lower rest) := by
  induction rest generalizing q text with
  | nil => exact ⟨q, rfl, by simpa [lower] using hq⟩
  | cons x rest ih =>
      obtain ⟨hx, hrest⟩ := List.forall_mem_cons.mp hrest
      have hnext : ∃ r, SpelledBy r (text ++ [toLower x]) ∧ next q x = some ⟨[], r, false⟩ := by
        rcases hq with rfl | hmem
        · obtain ⟨r, hr, hnext⟩ := next_of_leads nameRows.other hx
          exact ⟨r, .inl (List.mem_singleton.mp hr), hnext⟩
        · exact spelledBy_of_spells
            (of_everyByte (List.all_eq_true.mp nameRows.rest _ hmem) hx)
      obtain ⟨r, hr, hnext⟩ := hnext
      obtain ⟨last, hwalk, hlast⟩ := ih hr hrest
      exact ⟨last, (walk_cons hnext rest).trans hwalk, by simpa [lower] using hlast⟩

/-- A name over the bytes of a token, but none that the automaton knows. -/
def NameText (name : Bytes) : Prop :=
  name ≠ [] ∧ (∀ x ∈ name, within tokenByte x.toNat = true) ∧ lower name ∉ reserved

def valueFirst : List (Nat × Nat) := [(0, 8), (14, 31), (33, 255)]

/-- Blanks in front of a value would be left out. -/
def ValueText (value : Bytes) : Prop :=
  value = [] ∨ ∃ x rest, value = x :: rest ∧ within valueFirst x.toNat = true ∧
    ∀ y ∈ rest, within valueByte y.toNat = true

structure ValueRows : Prop where
  blank : goes next 22 32 [.mark] 22 = true
  empty : goes next 22 13 [.mark, .httpField] 24 = true
  first : leads next 22 valueFirst [.mark] [23] = true
  rest : leads next 23 valueByte [] [23] = true
  last : goes next 23 13 [.httpField] 24 = true

theorem valueRows : ValueRows := by constructor <;> decide +kernel

/-! ## Fields -/

/-- The automaton takes a name, and `leading` is what it does at the first byte besides. -/
def TakesName (q : Nat) (name : Bytes) (leading : List Action) (colon : Nat) : Prop :=
  ∃ x rest mid last, name = x :: rest ∧ next q x = some ⟨leading ++ [.fieldStart], mid, false⟩ ∧
    walk next mid rest = some last ∧ next last 58 = some ⟨[.fieldLen], colon, false⟩ ∧
    next colon 32 = some ⟨[.mark], colon, false⟩

/-- The automaton takes a value and the line end behind it. -/
def TakesValue (colon : Nat) (value : Bytes) (closing : List Action) (r : Nat) : Prop :=
  ∃ behind, next behind 10 = some ⟨[], r, false⟩ ∧
    (value = [] ∧ closing = [] ∧ next colon 13 = some ⟨[.mark, .httpField], behind, false⟩ ∨
      ∃ x rest mid last, value = x :: rest ∧ next colon x = some ⟨[.mark], mid, false⟩ ∧
        walk next mid rest = some last ∧
        next last 13 = some ⟨closing ++ [.httpField], behind, false⟩)

section

variable {leading closing : List Action} {name value : Bytes} {q colon r : Nat}

/-- What is done along a field that begins at `p`, with a name and a value of these lengths. -/
def fieldSteps (leading closing : List Action) (p name value : Nat) : List (Nat × List Action) :=
  [(p, leading ++ [.fieldStart]), (p + name, [.fieldLen]), (p + name + 1, [.mark]),
    (p + name + 1 + 1, [.mark]), (p + name + 1 + 1 + value, closing ++ [.httpField])]

def act (buffer : Bytes) (steps : List (Nat × List Action)) (s : Except Fault HttpResponseParser) :
    Except Fault HttpResponseParser :=
  steps.foldl (fun s step => step.2.foldl (HttpResponseParser.act buffer step.1) s) s

theorem act_field (hleading : leading = [] ∨ leading = [.connClose])
    (hclosing : closing = [] ∨ closing = [.contentLen]) (hname : name ≠ [])
    (before value after : Bytes) (parser : HttpResponseParser) :
    ∃ machine : HttpclientParser,
      machine.mark = before.length + name.length + 1 + 1 ∧
      machine.fieldStart = before.length ∧ machine.fieldLen = name.length ∧
      machine.bodyStart = parser.parser.bodyStart ∧ machine.nread = parser.parser.nread ∧
      machine.chunked = parser.parser.chunked ∧
      act (before ++ (name ++ 58 :: 32 :: (value ++ after)))
          (fieldSteps leading closing before.length name.length value.length) (.ok parser) =
        .ok ⟨machine, parser.data.setHeaderEntry name value, parser.error⟩ := by
  have hvalue : (before ++ (name ++ 58 :: 32 :: (value ++ after))).drop
      (before.length + name.length + 1 + 1) = value ++ after := by
    rw [← List.drop_drop, ← List.drop_drop, ← List.drop_drop, List.drop_left, List.drop_left]
    rfl
  have hfield : ∀ machine : HttpclientParser, machine.fieldStart = before.length →
      machine.fieldLen = name.length → machine.mark = before.length + name.length + 1 + 1 →
      HttpResponseParser.perform (before ++ (name ++ 58 :: 32 :: (value ++ after)))
        (before.length + name.length + 1 + 1 + value.length) ⟨machine, parser.data, parser.error⟩
          .httpField = .ok ⟨machine, parser.data.setHeaderEntry name value, parser.error⟩ := by
    intro machine hstart hlen hmark
    have hne : name.length ≠ 0 := fun h => hname (List.length_eq_zero_iff.mp h)
    simp only [HttpResponseParser.perform, HttpResponseParser.onResponseHttpField, hstart, hlen,
      hmark, hvalue, drop_mark, len_mark, string_front, if_neg hne]
    rfl
  have hact : ∀ p (parser : HttpResponseParser) action,
      HttpResponseParser.act (before ++ (name ++ 58 :: 32 :: (value ++ after))) p (.ok parser)
        action = parser.perform (before ++ (name ++ 58 :: 32 :: (value ++ after))) p action :=
    fun _ _ _ => rfl
  have hlen := len_mark before.length name.length
  refine ⟨{ parser.parser with
    mark := before.length + name.length + 1 + 1, fieldStart := before.length,
    fieldLen := name.length, close := if leading = [] then parser.parser.close else true
    contentLen := if closing = [] then parser.parser.contentLen
      else intOf (strtol 10 (value ++ after)) }, rfl, rfl, rfl, rfl, rfl, rfl, ?_⟩
  rcases hleading with rfl | rfl <;> rcases hclosing with rfl | rfl
  all_goals
    refine Eq.trans ?_ (hfield _ rfl rfl rfl)
    simp [act, fieldSteps, hact, HttpResponseParser.perform, HttpResponseParser.set, hlen, hvalue]

theorem scan_value (h : TakesValue colon value closing r) (buffer after : Bytes) (p : Nat)
    (s : Except Fault HttpResponseParser) :
    scan next (HttpResponseParser.act buffer) colon p (value ++ 13 :: 10 :: after) s =
      scan next (HttpResponseParser.act buffer) r (p + value.length + 2) after
        (act buffer [(p, [.mark]), (p + value.length, closing ++ [.httpField])] s) := by
  obtain ⟨behind, hnewline, ⟨rfl, rfl, hempty⟩ | ⟨x, rest, mid, last, rfl, hfirst, hwalk, hlast⟩⟩ := h
  · rw [List.nil_append, scan_cons hempty, scan_cons hnewline]
    rfl
  · have hbehind : p + 1 + rest.length = p + (x :: rest).length := by
      rw [List.length_cons]
      omega
    rw [List.cons_append, scan_cons hfirst, scan_walk hwalk, scan_cons hlast, scan_cons hnewline,
      hbehind]
    rfl

theorem Piece.field (hname : TakesName q name leading colon)
    (hleading : leading = [] ∨ leading = [.connClose])
    (hvalue : TakesValue colon value closing r) (hclosing : closing = [] ∨ closing = [.contentLen]) :
    Piece q (headerLine (name, value) ++ crlf) (fun rsp => rsp.setHeaderEntry name value) r := by
  have hcolon : ascii ": " = [58, 32] := by decide
  obtain ⟨x, rest, mid, last, rfl, hfirst, hwalk, hlast, hblank⟩ := hname
  intro before after s
  have htext : headerLine (x :: rest, value) ++ crlf ++ after =
      x :: rest ++ 58 :: 32 :: (value ++ 13 :: 10 :: after) := by
    simp [headerLine, hcolon]
  have hlength : (headerLine (x :: rest, value) ++ crlf).length =
      (x :: rest).length + 1 + 1 + value.length + 2 := by
    simp [headerLine, hcolon]
    omega
  have hbehind : before.length + 1 + rest.length = before.length + (x :: rest).length := by
    rw [List.length_cons]
    omega
  rw [htext, hlength]
  refine ⟨act (before ++ (x :: rest ++ 58 :: 32 :: (value ++ 13 :: 10 :: after)))
    (fieldSteps leading closing before.length (x :: rest).length value.length) s,
    fun parser hparser hseen => ?_, ?_⟩
  · dsimp only at hparser hseen
    subst hparser
    obtain ⟨machine, hmark, hstart, hlen, hbody, hnread, hchunked, hact⟩ :=
      act_field hleading hclosing (List.cons_ne_nil x rest) before value (13 :: 10 :: after) parser
    refine ⟨_, hact, ?_, rfl⟩
    exact ⟨by simp only [hmark]; omega, by simp only [hstart]; omega, by simp only [hlen]; omega,
      hbody.trans hseen.bodyStart, hnread.trans hseen.nread, hchunked.trans hseen.chunked,
      hseen.error⟩
  · rw [List.cons_append, scan_cons hfirst, scan_walk hwalk, scan_cons hlast, scan_cons hblank,
      scan_value hvalue, hbehind]
    simp only [← Nat.add_assoc]
    rfl

theorem takesName_of_nameText (h : NameText name) : TakesName 20 name [] 22 := by
  obtain ⟨hne, htoken, hreserved⟩ := h
  obtain ⟨x, rest, rfl⟩ := List.exists_cons_of_ne_nil hne
  obtain ⟨hx, hrest⟩ := List.forall_mem_cons.mp htoken
  obtain ⟨mid, hmid, hfirst⟩ := spelledBy_of_spells (of_everyByte nameRows.first hx)
  obtain ⟨last, hwalk, hlast⟩ := walk_name hmid hrest
  have hcolon := nameRows.colon
  rw [Bool.and_eq_true, List.all_eq_true] at hcolon
  refine ⟨x, rest, mid, last, rfl, hfirst, hwalk, ?_, next_of_goes valueRows.blank⟩
  rcases hlast with rfl | hmem
  · exact next_of_goes hcolon.1
  · have hrow := hcolon.2 _ hmem
    rw [Bool.or_eq_true, List.contains_iff_mem] at hrow
    rcases hrow with hname | hgoes
    · exact absurd hname (by simpa [lower] using hreserved)
    · exact next_of_goes hgoes

theorem takesValue_of_valueText (h : ValueText value) : TakesValue 22 value [] 20 := by
  refine ⟨24, next_of_goes statusRows.newline, ?_⟩
  rcases h with rfl | ⟨x, rest, rfl, hx, hrest⟩
  · exact .inl ⟨rfl, rfl, next_of_goes valueRows.empty⟩
  · obtain ⟨mid, hmid, hfirst⟩ := next_of_leads valueRows.first hx
    rw [List.mem_singleton.mp hmid] at hfirst
    exact .inr ⟨x, rest, 23, 23, rfl, hfirst, walk_leads valueRows.rest hrest,
      next_of_goes valueRows.last⟩

theorem piece_field (hname : NameText name) (hvalue : ValueText value) :
    Piece 20 (headerLine (name, value) ++ crlf) (fun rsp => rsp.setHeaderEntry name value) 20 :=
  Piece.field (takesName_of_nameText hname) (.inl rfl) (takesValue_of_valueText hvalue) (.inl rfl)

/-! ## The fields that `dump` adds -/

def takesName (q : Nat) (name : Bytes) (leading : List Action) (mid last colon : Nat) : Bool :=
  match name with
  | [] => false
  | x :: rest =>
      goes next q x (leading ++ [.fieldStart]) mid && walk next mid rest = some last &&
        goes next last 58 [.fieldLen] colon && goes next colon 32 [.mark] colon

theorem of_takesName {mid last : Nat} (h : takesName q name leading mid last colon = true) :
    TakesName q name leading colon := by
  unfold takesName at h
  split at h
  · cases h
  · simp only [Bool.and_eq_true, decide_eq_true_eq] at h
    exact ⟨_, _, mid, last, rfl, next_of_goes h.1.1.1, h.1.1.2, next_of_goes h.1.2,
      next_of_goes h.2⟩

def takesValue (colon : Nat) (value : Bytes) (mid last behind r : Nat) : Bool :=
  match value with
  | [] => false
  | x :: rest =>
      goes next colon x [.mark] mid && walk next mid rest = some last &&
        goes next last 13 [.httpField] behind && goes next behind 10 [] r

theorem of_takesValue {mid last behind : Nat} (h : takesValue colon value mid last behind r = true) :
    TakesValue colon value [] r := by
  unfold takesValue at h
  split at h
  · cases h
  · simp only [Bool.and_eq_true, decide_eq_true_eq] at h
    exact ⟨behind, next_of_goes h.2, .inr ⟨_, _, mid, last, rfl, next_of_goes h.1.1.1, h.1.1.2,
      next_of_goes h.1.2⟩⟩

/-- `close` is noticed when the next line begins. -/
structure AddedRows : Prop where
  connection : takesName 20 (ascii "connection") [] 25 34 35 = true
  keepAlive : takesValue 35 (ascii "keep-alive") 23 23 24 20 = true
  close : takesValue 35 (ascii "close") 96 100 88 43 = true
  length_open : takesName 20 (ascii "content-length") [] 25 111 112 = true
  length_close : takesName 43 (ascii "content-length") [.connClose] 25 111 112 = true
  digit_first : leads next 112 digit [.mark] [119] = true
  digits : leads next 119 digit [] [119] = true
  length_end : goes next 119 13 [.contentLen, .httpField] 24 = true
  end_open : goes next 20 13 [] 3 = true
  end_close : goes next 43 13 [.connClose] 3 = true
  done : ((next 3 10).any fun edge =>
    edge.actions = [.headerDone] && edge.target = 120 && edge.stops) = true

theorem addedRows : AddedRows := by constructor <;> decide +kernel

theorem piece_connection (close : Bool) :
    Piece 20 (headerLine (ascii "connection", if close then ascii "close" else ascii "keep-alive") ++
      crlf) (fun rsp => rsp.setHeaderEntry (ascii "connection")
        (if close then ascii "close" else ascii "keep-alive")) (if close then 43 else 20) := by
  cases close with
  | true =>
      exact Piece.field (of_takesName addedRows.connection) (.inl rfl)
        (of_takesValue addedRows.close) (.inl rfl)
  | false =>
      exact Piece.field (of_takesName addedRows.connection) (.inl rfl)
        (of_takesValue addedRows.keepAlive) (.inl rfl)

theorem takesValue_decimal (n : Nat) : TakesValue 112 (decimal n) [.contentLen] 20 := by
  cases htext : decimal n with
  | nil => exact absurd htext (decimal_ne_nil n)
  | cons x rest =>
      have hdigits : ∀ y ∈ x :: rest, within digit y.toNat = true := fun y hy =>
        within_of_isDigit (isDigit_of_mem_decimal (htext ▸ hy))
      obtain ⟨hx, hrest⟩ := List.forall_mem_cons.mp hdigits
      obtain ⟨mid, hmid, hfirst⟩ := next_of_leads addedRows.digit_first hx
      rw [List.mem_singleton.mp hmid] at hfirst
      exact ⟨24, next_of_goes statusRows.newline, .inr ⟨x, rest, 119, 119, rfl, hfirst,
        walk_leads addedRows.digits hrest, next_of_goes addedRows.length_end⟩⟩

theorem piece_length (close : Bool) (n : Nat) :
    Piece (if close then 43 else 20) (headerLine (ascii "content-length", decimal n) ++ crlf)
      (fun rsp => rsp.setHeaderEntry (ascii "content-length") (decimal n)) 20 := by
  cases close with
  | true =>
      exact Piece.field (of_takesName addedRows.length_close) (.inr rfl) (takesValue_decimal n)
        (.inr rfl)
  | false =>
      exact Piece.field (of_takesName addedRows.length_open) (.inl rfl) (takesValue_decimal n)
        (.inr rfl)

theorem piece_end {q : Nat} (hq : q = 20 ∨ q = 43) : Piece q [13] id 3 := by
  rcases hq with rfl | rfl
  · exact .walk (walk_cons (next_of_goes addedRows.end_open) [])
  · intro before after s
    refine ⟨HttpResponseParser.act (before ++ ([13] ++ after)) before.length s .connClose,
      fun parser hparser hseen => ?_, ?_⟩
    · dsimp only at hparser hseen
      subst hparser
      have hlater := hseen.mono (Nat.le_succ _)
      exact ⟨_, rfl, ⟨hlater.mark, hlater.fieldStart, hlater.fieldLen, hlater.bodyStart,
        hlater.nread, hlater.chunked, hlater.error⟩, rfl⟩
    · rw [List.singleton_append, scan_cons (next_of_goes addedRows.end_close)]
      rfl

theorem next_done : next 3 10 = some ⟨[.headerDone], 120, true⟩ := by
  have hrow := addedRows.done
  simp only [Option.any_eq_true, Bool.and_eq_true, decide_eq_true_eq] at hrow
  obtain ⟨⟨actions, target, stops⟩, hnext, ⟨rfl, rfl⟩, rfl⟩ := hrow
  exact hnext

end

/-! ## A header -/

/-- A whole header is taken in one call, which changes the response as its pieces do. -/
theorem Piece.execute {lead : Bytes} {f : HttpResponse → HttpResponse} {q : Nat}
    (h : Piece 1 lead f q) (hq : q = 20 ∨ q = 43) (rest : Bytes)
    (hshort : (lead ++ crlf ++ rest).length < 2 ^ 31) :
    ∃ machine : HttpclientParser, machine.cs = 120 ∧ machine.chunked = false ∧
      HttpResponseParser.new.execute (lead ++ crlf ++ rest) false =
        .ok (⟨machine, f .new, 0⟩, (lead ++ crlf).length) := by
  obtain ⟨s, htells, hscan⟩ := (Piece.append h (piece_end hq)).stop next_done rest
    (.ok HttpResponseParser.new)
  have hnew : Seen 0 HttpResponseParser.new :=
    ⟨Nat.le_refl 0, Nat.le_refl 0, Nat.le_refl 0, rfl, rfl, rfl, rfl⟩
  obtain ⟨after, rfl, hseen, hdata⟩ := htells _ rfl hnew
  have htext : lead ++ crlf ++ rest = lead ++ [13] ++ 10 :: rest := by simp
  have hrun : HttpResponseParser.new.run (lead ++ crlf ++ rest) = _ :=
    (congrArg _ htext).trans hscan
  have hlength : (lead ++ crlf).length = (lead ++ [13]).length + 1 := by simp
  have hwhole : (lead ++ [13]).length < (lead ++ crlf ++ rest).length := by simp
  generalize hend : ({ after.parser with bodyStart := (lead ++ [13]).length + 1 } :
    HttpclientParser).settle (.stopped 120) ((lead ++ [13]).length + 1) = machine
  have hsound : machine.sound (lead ++ crlf ++ rest).length = true ∧
      machine.nread = (lead ++ crlf).length := by
    have hmark : after.parser.mark ≤ (lead ++ [13]).length := hseen.mark
    have hstart : after.parser.fieldStart ≤ (lead ++ [13]).length := hseen.fieldStart
    have hlen : after.parser.fieldLen ≤ (lead ++ [13]).length := hseen.fieldLen
    rw [← hend, hlength]
    simp only [HttpclientParser.sound, HttpclientParser.settle, hseen.nread, Bool.and_eq_true,
      decide_eq_true_eq]
    omega
  refine ⟨machine, by rw [← hend]; rfl, by rw [← hend]; exact hseen.chunked, ?_⟩
  have hstate : (HttpResponseParser.new.run (lead ++ crlf ++ rest)).state =
      .ok (after.set { after.parser with bodyStart := (lead ++ [13]).length + 1 }) := by
    rw [hrun]
    rfl
  have hmachine : ({ after.parser with bodyStart := (lead ++ [13]).length + 1 } :
      HttpclientParser).settle (HttpResponseParser.new.run (lead ++ crlf ++ rest)).halt
        (HttpResponseParser.new.run (lead ++ crlf ++ rest)).position = machine := by
    rw [hrun]
    exact hend
  rw [HttpResponseParser.execute, if_neg (by omega)]
  simp only [Bool.false_eq_true, if_false, hstate, bind, Except.bind, HttpResponseParser.set,
    hmachine, hsound.1, if_true, hsound.2]
  rw [hseen.error, hdata]
  rfl

end Qslary.Http.Response

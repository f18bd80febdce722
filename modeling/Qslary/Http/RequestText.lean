import Qslary.Foundation.Rows
import Qslary.Foundation.Segments
import Qslary.Http.RequestRuns
import Qslary.Http.Requests
import Qslary.Uri.Grammar

/-!
# The pieces of a request

What the parser makes of the pieces that `dump` writes one after another: the method, the
three parts of the target, the version and the header fields.
-/

namespace Qslary.Http.Request

open Qslary.Foundation
open Qslary.Uri (Encoded)

/-! ## What a piece changes -/

/-- No message without a header is under way. -/
def Plain (s : HttpParser) : Prop := s.xmlSent = false ∧ s.jsonSent = false

/-- The callbacks take what is reported, and change the request by `f`. -/
def Speaks (f : HttpRequest → HttpRequest) (s t : Nat × HttpParser × List Report) : Prop :=
  Plain s.2.1 → Plain t.2.1 ∧ ∃ reports, t.2.2 = s.2.2 ++ reports ∧
    ∀ parsed : Parsed, reports.foldlM Parsed.call parsed =
      .ok { parsed with data := f parsed.data }

theorem Speaks.silent (s t : Nat × HttpParser × List Report) (h : t.2 = s.2) : Speaks id s t := by
  intro hplain
  rw [h]
  exact ⟨hplain, [], (List.append_nil _).symm, fun _ => rfl⟩

theorem Speaks.comp {f g : HttpRequest → HttpRequest} (s t : Nat × HttpParser × List Report)
    (h : Relation.Comp (Speaks f) (Speaks g) s t) : Speaks (fun req => g (f req)) s t := by
  obtain ⟨mid, hf, hg⟩ := h
  intro hplain
  obtain ⟨hmid, reports, hreports, hcalls⟩ := hf hplain
  obtain ⟨ht, more, hmore, hcalls'⟩ := hg hmid
  refine ⟨ht, reports ++ more, by rw [hmore, hreports, List.append_assoc], fun parsed => ?_⟩
  rw [List.foldlM_append, hcalls]
  exact hcalls' _

abbrev Piece (uriRelaxed : Bool) (q : Nat) (text : Bytes) (f : HttpRequest → HttpRequest)
    (r : Nat) : Prop :=
  Takes (next uriRelaxed) HttpParser.act q text (Speaks f) r

theorem Piece.append {uriRelaxed : Bool} {q r t : Nat} {text text' : Bytes}
    {f g : HttpRequest → HttpRequest} (h : Piece uriRelaxed q text f r)
    (h' : Piece uriRelaxed r text' g t) :
    Piece uriRelaxed q (text ++ text') (fun req => g (f req)) t :=
  (Takes.append h h').mono Speaks.comp

theorem Piece.flatMap {ι : Type*} {uriRelaxed : Bool} {q : Nat} {text : ι → Bytes}
    {f : ι → HttpRequest → HttpRequest} {is : List ι}
    (h : ∀ i ∈ is, Piece uriRelaxed q (text i) (f i) q) :
    Piece uriRelaxed q (is.flatMap text) (fun req => is.foldl (fun req i => f i req) req) q := by
  refine (Takes.flatMap h).mono ?_
  clear h
  induction is with
  | nil =>
      rintro s t rfl
      exact Speaks.silent s s rfl
  | cons i is ih =>
      rintro s t ⟨mid, hi, his⟩
      exact Speaks.comp s t ⟨mid, hi, ih mid t his⟩

/-! ## Tokens -/

theorem string_append (text rest : Bytes) : string (text ++ rest) text.length = .ok text := by
  simp [string]

theorem report_token (before text rest : Bytes) (kind : Element) :
    HttpParser.report (before ++ (text ++ rest)) (before.length + text.length) before.length kind =
      .element kind (text ++ rest) text.length := by
  rw [HttpParser.report, List.drop_left, len_eq (Nat.le_add_right _ _), Nat.add_sub_cancel_left]

section

variable {uriRelaxed : Bool} {q mid last r : Nat} {x y : UInt8} {rest : Bytes}
  {register action : Action} {kind : Element}

/-- The register is where the token begins that the action reports. -/
def Cuts (register action : Action) (kind : Element) : Prop :=
  ∀ buffer m p (s : HttpParser × List Report), ∃ t : HttpParser, (Plain s.1 → Plain t) ∧
    HttpParser.act buffer p (HttpParser.act buffer m s register) action =
      (t, s.2 ++ [HttpParser.report buffer p m kind])

theorem cuts_mark (action : Action) (kind : Element) (h : (action, kind) ∈ [(.requestMethod, .requestMethod),
    (.requestPath, .requestPath), (.fragment, .fragment), (.httpVersion, .httpVersion)]) :
    Cuts .mark action kind := by
  intro buffer m p s
  refine ⟨{ s.1 with mark := m }, id, ?_⟩
  simp only [List.mem_cons, Prod.mk.injEq, List.not_mem_nil, or_false] at h
  rcases h with ⟨rfl, rfl⟩ | ⟨rfl, rfl⟩ | ⟨rfl, rfl⟩ | ⟨rfl, rfl⟩ <;>
    simp [HttpParser.act, HttpParser.perform]

theorem cuts_queryStart : Cuts .queryStart .queryString .queryString := fun buffer m p s =>
  ⟨{ s.1 with queryStart := m }, id, by simp [HttpParser.act, HttpParser.perform]⟩

/-- A token from its first byte on is reported at the byte behind it. -/
theorem Piece.token {more : List Action} {f : HttpRequest → HttpRequest}
    (hcuts : Cuts register action kind)
    (hfirst : next uriRelaxed q x = some ⟨[register], mid, false⟩)
    (hbody : walk (next uriRelaxed) mid rest = some last)
    (hlast : next uriRelaxed last y = some ⟨action :: more, r, false⟩)
    (hmore : more = [] ∨ more = [.requestUri])
    (hcall : ∀ (parsed : Parsed) after,
      parsed.call (.element kind (x :: rest ++ y :: after) (x :: rest).length) =
        .ok { parsed with data := f parsed.data }) :
    Piece uriRelaxed q (x :: (rest ++ [y])) f r := by
  refine Takes.token hfirst hbody hlast fun before after s hplain => ?_
  obtain ⟨t, ht, hact⟩ := hcuts (before ++ (x :: rest ++ y :: after)) before.length
    (before.length + (x :: rest).length) s
  rw [List.foldl_cons, List.foldl_cons, List.foldl_nil, hact, report_token]
  rcases hmore with rfl | rfl
  · refine ⟨ht hplain, _, rfl, fun parsed => ?_⟩
    rw [List.foldlM_cons, hcall]
    rfl
  · simp only [List.foldl_cons, List.foldl_nil, HttpParser.act, HttpParser.perform,
      List.append_assoc]
    refine ⟨ht hplain, _, rfl, fun parsed => ?_⟩
    rw [List.singleton_append, List.foldlM_cons, hcall]
    rfl

/-! ## The request line -/

def methodRow (uriRelaxed : Bool) (entry : HttpMethod × String) : Bool :=
  match ascii entry.2 with
  | [] => false
  | x :: rest =>
      goes (next uriRelaxed) 1 x [.mark] 2 &&
        ((walk (next uriRelaxed) 2 rest).any fun last =>
          goes (next uriRelaxed) last 32 [.requestMethod] 3) &&
        charsToHttpMethod (ascii entry.2) = entry.1

theorem methodRows (uriRelaxed : Bool) : httpMethodMap.all (methodRow uriRelaxed) = true := by
  cases uriRelaxed <;> decide +kernel

theorem entry_of_method {method : HttpMethod} (h : method ≠ .UNKNOW) :
    ∃ name, (method, name) ∈ httpMethodMap ∧ httpMethodToString method = ascii name := by
  cases method with
  | UNKNOW => exact absurd rfl h
  | _ => exact ⟨_, by decide, rfl⟩

theorem piece_method {method : HttpMethod} (h : method ≠ .UNKNOW) (uriRelaxed : Bool) :
    Piece uriRelaxed 1 (httpMethodToString method ++ [32]) (fun req => { req with method := method })
      3 := by
  obtain ⟨name, hmem, hname⟩ := entry_of_method h
  have hrow := List.all_eq_true.mp (methodRows uriRelaxed) _ hmem
  rw [hname]
  unfold methodRow at hrow
  dsimp only at hrow
  cases htext : ascii name with
  | nil => simp [htext] at hrow
  | cons x rest =>
      simp only [htext, Bool.and_eq_true, decide_eq_true_eq, Option.any_eq_true] at hrow
      obtain ⟨⟨hfirst, last, hwalk, hlast⟩, hmethod⟩ := hrow
      refine Piece.token (cuts_mark .requestMethod .requestMethod (by simp)) (next_of_goes hfirst) hwalk (next_of_goes hlast)
        (.inl rfl) fun parsed after => ?_
      simp only [Parsed.call, Parsed.onRequestMethod, charsToHttpMethod_space, hmethod, if_neg h]

/-- A byte of the set or a percent-encoded one leads to `r`. -/
def takesByte (uriRelaxed : Bool) (bytes : List (Nat × Nat)) (q : Nat) (actions : List Action)
    (first second r : Nat) : Bool :=
  leads (next uriRelaxed) q bytes actions [r] && goes (next uriRelaxed) q 37 actions first &&
    leads (next uriRelaxed) first Qslary.Uri.hexDigit [] [second] &&
    leads (next uriRelaxed) second Qslary.Uri.hexDigit [] [r]

/-- The rows along a target; the byte behind the first slash is none. -/
structure TargetRows (uriRelaxed : Bool) : Prop where
  slash : goes (next uriRelaxed) 3 47 [.mark] 33 = true
  path_first : (everyByte pathByte fun x =>
    x = 47 || edgeIs [] [26] (next uriRelaxed 33 x)) = true
  path_encoded : goes (next uriRelaxed) 33 37 [] 27 = true
  path : takesByte uriRelaxed pathByte 26 [] 27 28 26 = true
  query_first : takesByte uriRelaxed queryByte 29 [.queryStart] 31 32 30 = true
  query : takesByte uriRelaxed queryByte 30 [] 31 32 30 = true
  fragment_first : takesByte uriRelaxed queryByte 20 [.mark] 22 23 21 = true
  fragment : takesByte uriRelaxed queryByte 21 [] 22 23 21 = true
  path_ends : ([33, 26].all fun q => goes (next uriRelaxed) q 32 [.requestPath, .requestUri] 4 &&
    goes (next uriRelaxed) q 35 [.requestPath, .requestUri] 20 &&
    goes (next uriRelaxed) q 63 [.requestPath] 29) = true
  query_ends : (goes (next uriRelaxed) 30 32 [.queryString, .requestUri] 4 &&
    goes (next uriRelaxed) 30 35 [.queryString, .requestUri] 20) = true
  fragment_ends : goes (next uriRelaxed) 21 32 [.fragment] 4 = true

theorem targetRows (uriRelaxed : Bool) : TargetRows uriRelaxed := by
  cases uriRelaxed <;> constructor <;> decide +kernel

section

variable {bytes : List (Nat × Nat)} {actions : List Action} {first second : Nat} {text : Bytes}

theorem walk_encoded (hloop : takesByte uriRelaxed bytes q [] first second q = true)
    (htext : Encoded bytes text) : walk (next uriRelaxed) q text = some q := by
  simp only [takesByte, Bool.and_eq_true] at hloop
  obtain ⟨⟨⟨hbyte, hpct⟩, hfirst⟩, hsecond⟩ := hloop
  induction htext with
  | nil => rfl
  | byte hx _ ih =>
      obtain ⟨r, hr, hnext⟩ := next_of_leads hbyte hx
      rw [walk_cons hnext, List.mem_singleton.mp hr, ih]
  | pct hx hy _ ih =>
      obtain ⟨mid, hmid, hnext⟩ := next_of_leads hfirst hx
      obtain ⟨r, hr, hnext'⟩ := next_of_leads hsecond hy
      rw [List.mem_singleton.mp hmid] at hnext
      rw [walk_cons (next_of_goes hpct), walk_cons hnext, walk_cons hnext',
        List.mem_singleton.mp hr, ih]

/-- A text that is not empty begins with the actions. -/
theorem begin_encoded (hbegin : takesByte uriRelaxed bytes q actions first second r = true)
    (hloop : takesByte uriRelaxed bytes r [] first second r = true)
    (htext : Encoded bytes text) (hne : text ≠ []) :
    ∃ x rest mid, text = x :: rest ∧ next uriRelaxed q x = some ⟨actions, mid, false⟩ ∧
      walk (next uriRelaxed) mid rest = some r := by
  simp only [takesByte, Bool.and_eq_true] at hbegin
  obtain ⟨⟨⟨hbyte, hpct⟩, hfirst⟩, hsecond⟩ := hbegin
  cases htext with
  | nil => exact absurd rfl hne
  | byte hx hrest =>
      obtain ⟨mid, hmid, hnext⟩ := next_of_leads hbyte hx
      rw [List.mem_singleton.mp hmid] at hnext
      exact ⟨_, _, r, rfl, hnext, walk_encoded hloop hrest⟩
  | pct hx hy hrest =>
      obtain ⟨mid, hmid, hnext⟩ := next_of_leads hfirst hx
      obtain ⟨mid', hmid', hnext'⟩ := next_of_leads hsecond hy
      rw [List.mem_singleton.mp hmid'] at hnext'
      refine ⟨_, _, first, rfl, next_of_goes hpct, ?_⟩
      rw [walk_cons hnext, List.mem_singleton.mp hmid, walk_cons hnext', walk_encoded hloop hrest]

end

theorem piece_path {path : Bytes} (hpath : ∃ rest, path = 47 :: rest ∧ rest.head? ≠ some 47 ∧
    Encoded pathByte rest) (uriRelaxed : Bool) (y : UInt8) (more : List Action) (r : Nat)
    (hend : (y, more, r) ∈ [(32, [Action.requestUri], 4), (35, [.requestUri], 20), (63, [], 29)]) :
    Piece uriRelaxed 3 (path ++ [y]) (fun req => { req with path := path }) r := by
  obtain ⟨rest, rfl, hhead, hrest⟩ := hpath
  have hrows := targetRows uriRelaxed
  have hwalk : ∃ last ∈ [33, 26], walk (next uriRelaxed) 33 rest = some last := by
    cases hrest with
    | nil => exact ⟨33, by simp, rfl⟩
    | @byte x rest hx hrest =>
        have hne : x ≠ 47 := fun h => hhead (congrArg some h)
        have hnext := of_everyByte hrows.path_first hx
        rw [decide_eq_false hne, Bool.false_or] at hnext
        obtain ⟨mid, hmid, hnext⟩ := exists_of_edgeIs hnext
        refine ⟨26, by simp, ?_⟩
        rw [walk_cons hnext, List.mem_singleton.mp hmid, walk_encoded hrows.path hrest]
    | @pct x y rest hx hy hrest =>
        have hpath := hrows.path
        simp only [takesByte, Bool.and_eq_true] at hpath
        obtain ⟨mid, hmid, hnext⟩ := next_of_leads hpath.1.2 hx
        obtain ⟨mid', hmid', hnext'⟩ := next_of_leads hpath.2 hy
        rw [List.mem_singleton.mp hmid] at hnext
        refine ⟨26, by simp, ?_⟩
        rw [walk_cons (next_of_goes hrows.path_encoded), walk_cons hnext, walk_cons hnext',
          List.mem_singleton.mp hmid', walk_encoded hrows.path hrest]
  obtain ⟨last, hlast, hwalk⟩ := hwalk
  have hends := List.all_eq_true.mp hrows.path_ends last hlast
  simp only [Bool.and_eq_true] at hends
  have hedge : next uriRelaxed last y = some ⟨.requestPath :: more, r, false⟩ := by
    simp only [List.mem_cons, Prod.mk.injEq, List.not_mem_nil, or_false] at hend
    rcases hend with ⟨rfl, rfl, rfl⟩ | ⟨rfl, rfl, rfl⟩ | ⟨rfl, rfl, rfl⟩
    · exact next_of_goes hends.1.1
    · exact next_of_goes hends.1.2
    · exact next_of_goes hends.2
  refine Piece.token (cuts_mark .requestPath .requestPath (by simp)) (next_of_goes hrows.slash)
    hwalk hedge ?_ fun parsed after => ?_
  · simp only [List.mem_cons, Prod.mk.injEq, List.not_mem_nil, or_false] at hend
    tauto
  · simp only [Parsed.call, string_append]
    rfl

theorem piece_query {query : Bytes} (hquery : Encoded queryByte query) (hne : query ≠ [])
    (uriRelaxed : Bool) (y : UInt8) (r : Nat) (hend : (y, r) ∈ [((32 : UInt8), 4), (35, 20)]) :
    Piece uriRelaxed 29 (query ++ [y]) (fun req => { req with query := query }) r := by
  have hrows := targetRows uriRelaxed
  obtain ⟨x, rest, mid, rfl, hfirst, hwalk⟩ :=
    begin_encoded hrows.query_first hrows.query hquery hne
  have hends := hrows.query_ends
  simp only [Bool.and_eq_true] at hends
  have hedge : next uriRelaxed 30 y = some ⟨[.queryString, .requestUri], r, false⟩ := by
    simp only [List.mem_cons, Prod.mk.injEq, List.not_mem_nil, or_false] at hend
    rcases hend with ⟨rfl, rfl⟩ | ⟨rfl, rfl⟩
    · exact next_of_goes hends.1
    · exact next_of_goes hends.2
  refine Piece.token cuts_queryStart hfirst hwalk hedge (.inr rfl) fun parsed after => ?_
  simp only [Parsed.call, string_append]
  rfl

theorem piece_fragment {fragment : Bytes} (hfragment : Encoded queryByte fragment)
    (hne : fragment ≠ []) (uriRelaxed : Bool) :
    Piece uriRelaxed 20 (fragment ++ [32]) (fun req => { req with fragment := fragment }) 4 := by
  have hrows := targetRows uriRelaxed
  obtain ⟨x, rest, mid, rfl, hfirst, hwalk⟩ :=
    begin_encoded hrows.fragment_first hrows.fragment hfragment hne
  refine Piece.token (cuts_mark .fragment .fragment (by simp)) hfirst hwalk
    (next_of_goes hrows.fragment_ends) (.inl rfl) fun parsed after => ?_
  simp only [Parsed.call, string_append]
  rfl

def versionRow (uriRelaxed : Bool) (version : UInt8) : Bool :=
  match versionText version with
  | [] => false
  | x :: rest =>
      goes (next uriRelaxed) 4 x [.mark] 5 && walk (next uriRelaxed) 5 rest = some 12 &&
        versionOf (versionText version) (versionText version).length = some version

theorem versionRows (uriRelaxed : Bool) : ([0x10, 0x11].all (versionRow uriRelaxed) &&
    goes (next uriRelaxed) 12 13 [.httpVersion] 17 && goes (next uriRelaxed) 17 10 [] 13) = true := by
  cases uriRelaxed <;> decide +kernel

/-- The number, and the line end behind it. -/
theorem piece_version {version : UInt8} (hversion : version = 0x10 ∨ version = 0x11)
    (uriRelaxed : Bool) :
    Piece uriRelaxed 4 (versionText version ++ crlf) (fun req => { req with version := version })
      13 := by
  have hrows := versionRows uriRelaxed
  simp only [Bool.and_eq_true] at hrows
  obtain ⟨⟨hversions, hlast⟩, hnewline⟩ := hrows
  have hrow := List.all_eq_true.mp hversions version (by simpa using hversion)
  unfold versionRow at hrow
  cases htext : versionText version with
  | nil => simp [htext] at hrow
  | cons x rest =>
      simp only [htext, Bool.and_eq_true, decide_eq_true_eq] at hrow
      obtain ⟨⟨hfirst, hwalk⟩, hread⟩ := hrow
      have hline : Piece uriRelaxed 4 (x :: (rest ++ [13]))
          (fun req => { req with version := version }) 17 := by
        refine Piece.token (cuts_mark .httpVersion .httpVersion (by simp)) (next_of_goes hfirst)
          hwalk (next_of_goes hlast) (.inl rfl) fun parsed after => ?_
        have htake : (x :: rest ++ 13 :: after).take (x :: rest).length =
            (x :: rest).take (x :: rest).length := by
          simp
        simp only [Parsed.call, Parsed.onRequestVersion, versionOf_congr htake, hread]
      have hend : Piece uriRelaxed 17 [10] id 13 :=
        (Takes.walk (walk_cons (next_of_goes hnewline) [])).mono fun s t h => Speaks.silent s t h.2
      simpa using hline.append hend

/-! ## Header fields -/

/-- A line end cannot begin a name, though it may go on in one. -/
def nameFirst : List (Nat × Nat) :=
  [(1, 8), (11, 12), (14, 31), (33, 33), (35, 39), (42, 43), (45, 46), (48, 57), (65, 90), (94, 122),
    (124, 124), (126, 126)]

def valueFirst : List (Nat × Nat) := [(1, 8), (11, 12), (14, 31), (33, 126), (128, 255)]

def NameText (name : Bytes) : Prop :=
  ∃ x rest, name = x :: rest ∧ within nameFirst x.toNat = true ∧
    ∀ y ∈ rest, within tokenByte y.toNat = true

/-- Blanks in front of a value would be left out. -/
def ValueText (value : Bytes) : Prop :=
  value = [] ∨ ∃ x rest, value = x :: rest ∧ within valueFirst x.toNat = true ∧
    ∀ y ∈ rest, within valueByte y.toNat = true

structure FieldRows (uriRelaxed : Bool) : Prop where
  name_first : leads (next uriRelaxed) 13 nameFirst [.fieldStart] [14] = true
  name : leads (next uriRelaxed) 14 tokenByte [] [14] = true
  colon : goes (next uriRelaxed) 14 58 [.fieldLen] 15 = true
  blank : goes (next uriRelaxed) 15 32 [.mark] 15 = true
  empty : goes (next uriRelaxed) 15 13 [.mark, .httpField] 17 = true
  value_first : leads (next uriRelaxed) 15 valueFirst [.mark] [16] = true
  value : leads (next uriRelaxed) 16 valueByte [] [16] = true
  value_end : goes (next uriRelaxed) 16 13 [.httpField] 17 = true
  newline : goes (next uriRelaxed) 17 10 [] 13 = true

theorem fieldRows (uriRelaxed : Bool) : FieldRows uriRelaxed := by
  cases uriRelaxed <;> constructor <;> decide +kernel

theorem walk_leads {bytes : List (Nat × Nat)} {text : Bytes}
    (h : leads (next uriRelaxed) q bytes [] [q] = true)
    (htext : ∀ x ∈ text, within bytes x.toNat = true) : walk (next uriRelaxed) q text = some q := by
  refine walk_stay fun x hx => ?_
  obtain ⟨r, hr, hnext⟩ := next_of_leads h (htext x hx)
  rwa [List.mem_singleton.mp hr] at hnext

/-- A value, whether there is one or not, is taken up to the line end. -/
theorem scan_value {value : Bytes} (hvalue : ValueText value) (uriRelaxed : Bool)
    (buffer after : Bytes) (p : Nat) (s : HttpParser × List Report) :
    scan (next uriRelaxed) (HttpParser.act buffer) 15 p (value ++ 13 :: 10 :: after) s =
      scan (next uriRelaxed) (HttpParser.act buffer) 13 (p + value.length + 2) after
        (HttpParser.act buffer (p + value.length) (HttpParser.act buffer p s .mark) .httpField) := by
  have hrows := fieldRows uriRelaxed
  rcases hvalue with rfl | ⟨x, rest, rfl, hx, hrest⟩
  · rw [List.nil_append, scan_cons (next_of_goes hrows.empty),
      scan_cons (next_of_goes hrows.newline)]
    rfl
  · obtain ⟨r, hr, hfirst⟩ := next_of_leads hrows.value_first hx
    rw [List.mem_singleton.mp hr] at hfirst
    have hbehind : p + 1 + rest.length = p + (x :: rest).length := by
      rw [List.length_cons]
      omega
    rw [List.cons_append, scan_cons hfirst, scan_walk (walk_leads hrows.value hrest),
      scan_cons (next_of_goes hrows.value_end), scan_cons (next_of_goes hrows.newline), hbehind]
    rfl

theorem act_field (before name value after : Bytes) (s : HttpParser × List Report) :
    ∃ t : HttpParser, (Plain s.1 → Plain t) ∧
      [(before.length, Action.fieldStart), (before.length + name.length, .fieldLen),
          (before.length + name.length + 1, .mark), (before.length + name.length + 1 + 1, .mark),
          (before.length + name.length + 1 + 1 + value.length, .httpField)].foldl
        (fun s step =>
          HttpParser.act (before ++ (name ++ 58 :: 32 :: (value ++ after))) step.1 s step.2) s =
      (t, s.2 ++ [.httpField (name ++ 58 :: 32 :: (value ++ after)) name.length (value ++ after)
        value.length]) := by
  have hlen : ∀ n k, HttpParser.len n (n + k) = k := fun n k => by
    rw [len_eq (Nat.le_add_right n k), Nat.add_sub_cancel_left]
  have hvalue : (before ++ (name ++ 58 :: 32 :: (value ++ after))).drop
      (before.length + name.length + 1 + 1) = value ++ after := by
    rw [← List.drop_drop, ← List.drop_drop, ← List.drop_drop, List.drop_left, List.drop_left]
    rfl
  refine ⟨{ s.1 with
    mark := before.length + name.length + 1 + 1, fieldStart := before.length,
    fieldLen := name.length }, id, ?_⟩
  simp only [List.foldl_cons, List.foldl_nil, HttpParser.act, HttpParser.perform, hlen, hvalue,
    List.append_nil, List.drop_left]

theorem piece_field {name value : Bytes} (hname : NameText name) (hvalue : ValueText value)
    (uriRelaxed : Bool) :
    Piece uriRelaxed 13 (headerLine (name, value) ++ crlf) (fun req => req.setHeaderEntry name value)
      13 := by
  have hrows := fieldRows uriRelaxed
  have hcolon : ascii ": " = [58, 32] := by decide
  obtain ⟨x, rest, rfl, hx, hrest⟩ := hname
  obtain ⟨r, hr, hfirst⟩ := next_of_leads hrows.name_first hx
  rw [List.mem_singleton.mp hr] at hfirst
  intro before after s
  obtain ⟨t, ht, hact⟩ := act_field before (x :: rest) value (13 :: 10 :: after) s
  have htext : headerLine (x :: rest, value) ++ crlf ++ after =
      x :: rest ++ 58 :: 32 :: (value ++ 13 :: 10 :: after) := by
    simp [headerLine, hcolon]
  have hlength : (headerLine (x :: rest, value) ++ crlf).length =
      (x :: rest).length + 2 + value.length + 2 := by
    simp [headerLine, hcolon]
    omega
  have hbehind : before.length + 1 + rest.length = before.length + (x :: rest).length := by
    rw [List.length_cons]
    omega
  refine ⟨(t, s.2 ++ [.httpField (x :: rest ++ 58 :: 32 :: (value ++ 13 :: 10 :: after))
    (x :: rest).length (value ++ 13 :: 10 :: after) value.length]),
    fun hplain => ⟨ht hplain, _, rfl, fun parsed => ?_⟩, ?_⟩
  · rw [List.foldlM_cons, Parsed.call, Parsed.onRequestHttpField, if_neg (by simp), string_append,
      string_append]
    rfl
  · rw [htext, hlength, ← hact, List.cons_append, scan_cons hfirst,
      scan_walk (walk_leads hrows.name hrest), scan_cons (next_of_goes hrows.colon),
      scan_cons (next_of_goes hrows.blank), scan_value hvalue, hbehind]
    simp only [← Nat.add_assoc]
    rfl

/-! ## The empty line -/

theorem endRows (uriRelaxed : Bool) : (goes (next uriRelaxed) 13 13 [.fieldStart] 18 &&
    (next uriRelaxed 18 10).any fun edge =>
      edge.actions = [.headerDone] && edge.target = 348 && edge.stops) = true := by
  cases uriRelaxed <;> decide +kernel

theorem piece_end (uriRelaxed : Bool) : Piece uriRelaxed 13 [13] id 18 := by
  have hrows := endRows uriRelaxed
  simp only [Bool.and_eq_true] at hrows
  intro before after s
  refine ⟨({ s.1 with fieldStart := before.length }, s.2), fun hplain =>
    ⟨hplain, [], (List.append_nil _).symm, fun _ => rfl⟩, ?_⟩
  rw [List.singleton_append, scan_cons (next_of_goes hrows.1)]
  simp [HttpParser.act, HttpParser.perform]

theorem next_end (uriRelaxed : Bool) :
    next uriRelaxed 18 10 = some ⟨[.headerDone], 348, true⟩ := by
  have hrows := endRows uriRelaxed
  simp only [Bool.and_eq_true, Option.any_eq_true, decide_eq_true_eq] at hrows
  obtain ⟨-, ⟨actions, target, stops⟩, hnext, ⟨rfl, rfl⟩, rfl⟩ := hrows
  exact hnext

/-- A whole header is taken, and the callbacks change the request as its pieces do. -/
theorem Piece.run {lead : Bytes} {f : HttpRequest → HttpRequest} {memory : HttpParser}
    (h : Piece memory.uriRelaxed 1 lead f 13) (rest : Bytes) (parsed : Parsed) :
    (memory.init.run (lead ++ crlf ++ rest)).halt = .stopped 348 ∧
      (memory.init.run (lead ++ crlf ++ rest)).position = (lead ++ crlf).length ∧
      (memory.init.run (lead ++ crlf ++ rest)).state.2.foldlM Parsed.call parsed =
        .ok { parsed with data := f parsed.data } := by
  obtain ⟨⟨s, reports⟩, hspeaks, hscan⟩ := (h.append (piece_end memory.uriRelaxed)).stop
    (next_end memory.uriRelaxed) rest (memory.init.rewind, [])
  obtain ⟨hplain, said, hsaid, hcalls⟩ := hspeaks ⟨rfl, rfl⟩
  have htext : lead ++ crlf ++ rest = lead ++ [13] ++ 10 :: rest := by simp
  have hrun : memory.init.run (lead ++ crlf ++ rest) = _ := (congrArg _ htext).trans hscan
  have hxml : s.xmlSent = false := hplain.1
  have hjson : s.jsonSent = false := hplain.2
  have hreports : reports = said := hsaid
  rw [hrun]
  refine ⟨rfl, by simp, ?_⟩
  simp only [List.foldl_cons, List.foldl_nil, HttpParser.act, HttpParser.perform,
    HttpParser.headerDone, hxml, hjson, Bool.or_false, Bool.false_eq_true, if_false]
  rw [List.foldlM_append, hreports, hcalls]
  rfl

end

end Qslary.Http.Request

import Qslary.Http.Message

/-!
# Responses one after another

A reader takes a block of lines up to the first empty one and then as many bytes as
the `content-length` header says.  It gets back what was written exactly when no
response has a body, which `dump` follows with a line end of its own, and no header
of the map gets in the way of the framing.
-/

namespace Qslary.Http

open Qslary.Foundation

/-! ## Reading -/

/-- The lines up to the first empty one, and what follows it. -/
def readBlock : Nat → Bytes → Option (List Bytes × Bytes)
  | 0, _ => none
  | fuel + 1, bytes =>
      match cut 13 10 bytes with
      | none => none
      | some ([], rest) => some ([], rest)
      | some (line, rest) => (readBlock fuel rest).map fun block => (line :: block.1, block.2)

def readStatus (line : Bytes) : Option Nat :=
  parseDecimal (splitFirst 32 (splitFirst 32 line).2).1

def isNamed (name : String) (header : Bytes × Bytes) : Bool := lower header.1 = ascii name

def contentLength (headers : List (Bytes × Bytes)) : Option Nat :=
  match headers.find? (isNamed "content-length") with
  | none => some 0
  | some header => parseDecimal header.2

structure Received where
  status : Nat
  headers : List (Bytes × Bytes)
  body : Bytes
  deriving DecidableEq, Repr

def readResponse (bytes : Bytes) : Option (Received × Bytes) := do
  let (lines, rest) ← readBlock bytes.length bytes
  match lines with
  | [] => none
  | line :: lines =>
      let status ← readStatus line
      let headers ← lines.mapM (cut 58 32)
      let length ← contentLength headers
      if rest.length < length then none
      else some (⟨status, headers, rest.take length⟩, rest.drop length)

/-- Read until nothing is left; each response takes at least one byte. -/
def readFrom : Nat → Bytes → Option (List Received)
  | _, [] => some []
  | 0, _ => none
  | fuel + 1, bytes => do
      let (rsp, rest) ← readResponse bytes
      let rsps ← readFrom fuel rest
      some (rsp :: rsps)

def readResponses (bytes : Bytes) : Option (List Received) := readFrom bytes.length bytes

/-! ## Blocks of lines -/

theorem readBlock_writeLines {lines : List Bytes} (hlines : ∀ line ∈ lines, 13 ∉ line ∧ line ≠ [])
    (rest : Bytes) {fuel : Nat} (hfuel : lines.length < fuel) :
    readBlock fuel (writeLines lines ++ crlf ++ rest) = some (lines, rest) := by
  induction lines generalizing fuel with
  | nil =>
      obtain ⟨fuel, rfl⟩ := Nat.exists_eq_succ_of_ne_zero (Nat.ne_of_gt hfuel)
      rfl
  | cons line lines ih =>
      obtain ⟨fuel, rfl⟩ := Nat.exists_eq_succ_of_ne_zero (Nat.ne_of_gt (Nat.zero_lt_of_lt hfuel))
      obtain ⟨hcr, hne⟩ := hlines line List.mem_cons_self
      have hwithin : ¬ [13, 10] <:+: line := fun h => hcr (h.subset List.mem_cons_self)
      have hsplit : writeLines (line :: lines) ++ crlf ++ rest =
          line ++ 13 :: 10 :: (writeLines lines ++ crlf ++ rest) := by
        simp [writeLines]
      have hrest := ih (fun line hline => hlines line (List.mem_cons_of_mem _ hline))
        (Nat.lt_of_succ_lt_succ hfuel)
      cases line with
      | nil => exact absurd rfl hne
      | cons byte line =>
          simp only [hsplit, readBlock, cut_append (by decide) hwithin, hrest, Option.map_some]

theorem length_writeLines_ge (lines : List Bytes) : lines.length ≤ (writeLines lines).length := by
  induction lines with
  | nil => exact Nat.le_refl 0
  | cons line lines ih =>
      simp only [writeLines, List.flatMap_cons, List.length_append, List.length_cons] at ih ⊢
      omega

/-! ## One response -/

namespace HttpResponse

variable {rsp : HttpResponse}

/-- Names, values and reason are without line ends. -/
structure Clean (rsp : HttpResponse) : Prop where
  names : ∀ entry ∈ rsp.headers.entries, 13 ∉ entry.1 ∧ 10 ∉ entry.1
  values : ∀ entry ∈ rsp.headers.entries, 13 ∉ entry.2 ∧ 10 ∉ entry.2
  reason : 13 ∉ rsp.reason ∧ 10 ∉ rsp.reason

/-- What a reader should get. -/
def received (rsp : HttpResponse) : Received := ⟨rsp.status.toNat, rsp.fields, rsp.body⟩

/-- What `dump` writes after the empty line. -/
def tail (rsp : HttpResponse) : Bytes := if rsp.body = [] then [] else rsp.body ++ crlf

theorem not_mem_decimal {byte : UInt8} (hbyte : isDigit byte = false) (n : Nat) :
    byte ∉ decimal n := by
  intro hmem
  rw [isDigit_of_mem_decimal hmem] at hbyte
  cases hbyte

theorem not_mem_versionText {byte : UInt8} (hdigit : isDigit byte = false)
    (htext : byte ∉ ascii "HTTP/" ++ ascii ".") (version : UInt8) :
    byte ∉ versionText version := by
  have hmajor := not_mem_decimal hdigit (version.toNat / 16)
  have hminor := not_mem_decimal hdigit (version.toNat % 16)
  simp only [versionText, List.mem_append, not_or] at htext ⊢
  exact ⟨⟨⟨htext.1, hmajor⟩, htext.2⟩, hminor⟩

theorem cr_not_mem_httpStatusToString (status : UInt32) : 13 ∉ httpStatusToString status := by
  have htable : ∀ entry ∈ httpStatusMap, 13 ∉ ascii entry.2 := by decide
  unfold httpStatusToString
  split
  · rename_i entry hentry
    exact htable entry (List.mem_of_find?_eq_some hentry)
  · decide

theorem readStatus_statusLine (rsp : HttpResponse) :
    readStatus rsp.statusLine = some rsp.status.toNat := by
  have hversion : 32 ∉ versionText rsp.version :=
    not_mem_versionText (by decide) (by decide) rsp.version
  have hstatus : 32 ∉ decimal rsp.status.toNat := not_mem_decimal (by decide) _
  have hspace : ascii " " = [32] := by decide
  simp only [readStatus, statusLine, hspace, List.append_assoc, List.cons_append,
    List.nil_append, splitFirst_append hversion, splitFirst_append hstatus,
    parseDecimal_decimal]

theorem Clean.statusLine (h : rsp.Clean) : 13 ∉ rsp.statusLine ∧ rsp.statusLine ≠ [] := by
  constructor
  · have hversion : 13 ∉ versionText rsp.version :=
      not_mem_versionText (by decide) (by decide) rsp.version
    have hstatus : 13 ∉ decimal rsp.status.toNat := not_mem_decimal (by decide) _
    have hspace : 13 ∉ ascii " " := by decide
    simp only [HttpResponse.statusLine, List.mem_append, not_or]
    refine ⟨⟨⟨⟨hversion, hspace⟩, hstatus⟩, hspace⟩, ?_⟩
    split
    · exact cr_not_mem_httpStatusToString rsp.status
    · exact h.reason.1
  · intro hnil
    have := congrArg List.length hnil
    simp [HttpResponse.statusLine, ascii] at this

theorem Clean.fields (h : rsp.Clean) : ∀ header ∈ rsp.fields, 13 ∉ header.1 ∧ 13 ∉ header.2 := by
  intro header hheader
  simp only [HttpResponse.fields, List.mem_append, List.mem_singleton] at hheader
  rcases hheader with (hheader | rfl) | hheader
  · have hmem := (List.mem_filter.mp hheader).1
    exact ⟨(h.names header hmem).1, (h.values header hmem).1⟩
  · cases rsp.close <;> decide
  · unfold lengthHeader at hheader
    split at hheader
    · cases hheader
    · rw [List.mem_singleton.mp hheader]
      exact ⟨show 13 ∉ ascii "content-length" by decide, not_mem_decimal (by decide) _⟩

/-- What reading does with what was written, whatever the headers are. -/
theorem readResponse_dump (h : rsp.Clean) (after : Bytes) :
    readResponse (rsp.dump ++ after) =
      ((rsp.fields.map headerLine).mapM (cut 58 32)).bind fun headers =>
        (contentLength headers).bind fun length =>
          if (rsp.tail ++ after).length < length then none
          else some (⟨rsp.status.toNat, headers, (rsp.tail ++ after).take length⟩,
            (rsp.tail ++ after).drop length) := by
  have hlines : ∀ line ∈ rsp.statusLine :: rsp.fields.map headerLine, 13 ∉ line ∧ line ≠ [] := by
    intro line hline
    rcases List.mem_cons.mp hline with rfl | hline
    · exact h.statusLine
    · obtain ⟨header, hheader, rfl⟩ := List.mem_map.mp hline
      obtain ⟨hname, hvalue⟩ := h.fields header hheader
      have hcolon : 13 ∉ ascii ": " := by decide
      constructor
      · simp only [headerLine, List.mem_append, not_or]
        exact ⟨⟨hname, hcolon⟩, hvalue⟩
      · intro hnil
        have := congrArg List.length hnil
        simp [headerLine, ascii] at this
  have hdump : rsp.dump ++ after =
      writeLines (rsp.statusLine :: rsp.fields.map headerLine) ++ crlf ++ (rsp.tail ++ after) := by
    simp [dump, tail]
  have hfuel : (rsp.statusLine :: rsp.fields.map headerLine).length <
      (rsp.dump ++ after).length := by
    have := length_writeLines_ge (rsp.statusLine :: rsp.fields.map headerLine)
    rw [hdump]
    simp only [List.length_append, List.length_cons, List.length_nil] at this ⊢
    omega
  have hblock := readBlock_writeLines hlines (rsp.tail ++ after) hfuel
  rw [← hdump] at hblock
  simp only [readResponse, hblock, readStatus_statusLine, Option.bind_eq_bind, Option.bind_some]

/-! ## The condition -/

/-- Exactly one header named `connection`, which says what the flag says. -/
def OneConnection (rsp : HttpResponse) : Prop :=
  rsp.fields.filter (isNamed "connection") =
    [(ascii "connection", if rsp.close then ascii "close" else ascii "keep-alive")]

def OneLength (rsp : HttpResponse) : Prop :=
  rsp.fields.countP (isNamed "content-length") ≤ 1

/--
There is no body; a header of the map has no `": "` in its name, is not another spelling
of `connection`, and says zero if it is a `content-length`.
-/
structure Framed (rsp : HttpResponse) : Prop where
  body : rsp.body = []
  names : ∀ entry ∈ rsp.headers.entries, ¬ [58, 32] <:+: entry.1
  connection : ∀ entry ∈ rsp.headers.entries, isNamed "connection" entry = true →
    entry.1 = ascii "connection"
  length : ∀ entry ∈ rsp.headers.entries, isNamed "content-length" entry = true →
    parseDecimal entry.2 = some 0

theorem mem_fields_of_mem {entry : Bytes × Bytes} (h : entry ∈ rsp.headers.entries)
    (hname : entry.1 ≠ ascii "connection") : entry ∈ rsp.fields := by
  refine List.mem_append_left _ (List.mem_append_left _ (List.mem_filter.mpr ⟨h, ?_⟩))
  simpa using hname

/-- Reading the lines back gives the headers exactly if no name has `": "` in it. -/
theorem mapM_headerLine_iff (headers : List (Bytes × Bytes)) :
    (headers.map headerLine).mapM (cut 58 32) = some headers ↔
      ∀ header ∈ headers, ¬ [58, 32] <:+: header.1 := by
  induction headers with
  | nil => simp
  | cons header headers ih =>
      have hline : headerLine header = header.1 ++ 58 :: 32 :: header.2 := by
        simp [headerLine, show ascii ": " = [58, 32] by decide]
      rw [List.map_cons, List.mapM_cons, List.forall_mem_cons, ← ih,
        ← cut_append_iff (a := 58) (b := 32) (by decide) (r := header.2), ← hline]
      constructor
      · intro h
        obtain ⟨first, hfirst, h⟩ := Option.bind_eq_some_iff.mp h
        obtain ⟨rest, hrest, h⟩ := Option.bind_eq_some_iff.mp h
        cases h
        exact ⟨hfirst, hrest⟩
      · rintro ⟨hfirst, hrest⟩
        rw [hfirst, hrest]
        rfl

/-- A name equal to `name` in lower case is the same key as `name` in the map. -/
theorem caseKey_of_isNamed {name : String} {header : Bytes × Bytes}
    (hname : (ascii name).all (fun byte => byte ≠ 0 && toLower byte = byte) = true)
    (h : isNamed name header = true) : caseKey header.1 = caseKey (ascii name) := by
  have hlower : lower header.1 = ascii name := of_decide_eq_true h
  have hnul : ∀ text : Bytes, lower text = ascii name →
      (text.takeWhile (· ≠ 0)) = text := by
    intro text htext
    rw [List.takeWhile_eq_self_iff]
    intro byte hbyte
    rw [decide_eq_true_eq]
    rintro rfl
    have hmem : toLower 0 ∈ ascii name := htext ▸ List.mem_map_of_mem hbyte
    have := List.all_eq_true.mp hname _ hmem
    simp [toLower] at this
  have hself : lower (ascii name) = ascii name := by
    refine (List.map_congr_left fun byte hbyte => ?_).trans (List.map_id _)
    have := List.all_eq_true.mp hname byte hbyte
    simp only [Bool.and_eq_true, decide_eq_true_eq] at this
    exact this.2
  rw [caseKey, caseKey, hnul _ hlower, hnul _ hself, hlower, hself]

theorem Framed.oneLength (h : rsp.Framed) : rsp.OneLength := by
  have hmap : (writtenHeaders rsp.headers).countP (isNamed "content-length") ≤ 1 := by
    refine (List.Sublist.countP_le List.filter_sublist).trans ?_
    exact RankedMap.countP_rank_le_one rsp.headers.sorted
      fun entry hnamed => caseKey_of_isNamed (by decide) hnamed
  simp only [OneLength, HttpResponse.fields, lengthHeader, h.body, if_true, List.append_nil,
    List.countP_append, List.countP_singleton]
  have hother : isNamed "content-length" (ascii "connection",
      if rsp.close then ascii "close" else ascii "keep-alive") = false := by
    cases rsp.close <;> decide
  rw [hother]
  simpa using hmap

theorem Framed.oneConnection (h : rsp.Framed) : rsp.OneConnection := by
  have hmap : (writtenHeaders rsp.headers).filter (isNamed "connection") = [] := by
    rw [List.filter_eq_nil_iff]
    intro entry hentry hnamed
    obtain ⟨hmem, hne⟩ := List.mem_filter.mp hentry
    simp only [ne_eq, decide_not, Bool.not_eq_true', decide_eq_false_iff_not] at hne
    exact hne (h.connection entry hmem hnamed)
  have hself : isNamed "connection" (ascii "connection",
      if rsp.close then ascii "close" else ascii "keep-alive") = true := by
    cases rsp.close <;> decide
  simp only [OneConnection, HttpResponse.fields, lengthHeader, h.body, if_true, List.append_nil,
    List.filter_append, hmap, List.nil_append, List.filter_singleton, hself, cond_true]

theorem find?_of_mem {headers : List (Bytes × Bytes)} {p : Bytes × Bytes → Bool}
    {header : Bytes × Bytes} (hcount : headers.countP p ≤ 1) (hmem : header ∈ headers)
    (hp : p header = true) : headers.find? p = some header := by
  rw [← List.head?_filter]
  have hfilter : header ∈ headers.filter p := List.mem_filter.mpr ⟨hmem, hp⟩
  rw [List.countP_eq_length_filter] at hcount
  match hlist : headers.filter p with
  | [] =>
      rw [hlist] at hfilter
      cases hfilter
  | [only] =>
      rw [hlist, List.mem_singleton] at hfilter
      rw [hfilter]
      rfl
  | first :: second :: rest =>
      rw [hlist] at hcount
      simp at hcount

theorem Framed.readResponse (hclean : rsp.Clean) (h : rsp.Framed) (after : Bytes) :
    readResponse (rsp.dump ++ after) = some (rsp.received, after) := by
  have hnames : ∀ header ∈ rsp.fields, ¬ [58, 32] <:+: header.1 := by
    intro header hheader
    simp only [HttpResponse.fields, lengthHeader, h.body, if_true, List.append_nil,
      List.mem_append, List.mem_singleton] at hheader
    rcases hheader with hheader | rfl
    · exact h.names header (List.mem_filter.mp hheader).1
    · show ¬ [58, 32] <:+: ascii "connection"
      decide
  have hlength : contentLength rsp.fields = some 0 := by
    unfold contentLength
    split
    · rfl
    · rename_i header hfind
      have hmem := List.mem_of_find?_eq_some hfind
      have hnamed := List.find?_some hfind
      simp only [HttpResponse.fields, lengthHeader, h.body, if_true, List.append_nil,
        List.mem_append, List.mem_singleton] at hmem
      rcases hmem with hmem | rfl
      · exact h.length header (List.mem_filter.mp hmem).1 hnamed
      · revert hnamed
        cases rsp.close <;> decide
  rw [readResponse_dump hclean, (mapM_headerLine_iff rsp.fields).mpr hnames, Option.bind_some,
    hlength, Option.bind_some, if_neg (Nat.not_lt_zero _)]
  simp [received, tail, h.body]

/-- What it takes to read one response back and to be able to go on. -/
theorem Framed.of_readResponse {after rest : Bytes} (hclean : rsp.Clean)
    (hlength : rsp.OneLength) (hconnection : rsp.OneConnection)
    (hread : Http.readResponse (rsp.dump ++ after) = some (rsp.received, rest))
    (hnext : ∀ bytes, rest ≠ crlf ++ bytes) : rsp.Framed ∧ rest = after := by
  rw [readResponse_dump hclean] at hread
  obtain ⟨headers, hheaders, hread⟩ := Option.bind_eq_some_iff.mp hread
  obtain ⟨length, hcontent, hread⟩ := Option.bind_eq_some_iff.mp hread
  split at hread
  · cases hread
  · rename_i henough
    simp only [Option.some.injEq, Prod.mk.injEq, received, Received.mk.injEq, true_and] at hread
    obtain ⟨⟨rfl, hbody⟩, hrest⟩ := hread
    have hnames := (mapM_headerLine_iff rsp.fields).mp hheaders
    have hempty : rsp.body = [] := by
      by_contra hne
      have hmem : (ascii "content-length", decimal rsp.body.length) ∈ rsp.fields := by
        simp [HttpResponse.fields, lengthHeader, hne]
      have hfind := find?_of_mem hlength hmem (by rfl)
      rw [contentLength, hfind] at hcontent
      simp only [parseDecimal_decimal, Option.some.injEq] at hcontent
      apply hnext after
      rw [← hrest, ← hcontent]
      simp [tail, hne]
    have htail : rsp.tail = [] := by simp [tail, hempty]
    have hzero : length = 0 := by
      rw [htail, List.nil_append, hempty, List.take_eq_nil_iff] at hbody
      rw [htail, List.nil_append] at henough
      rcases hbody with hzero | hnil
      · exact hzero
      · rw [hnil, List.length_nil] at henough
        omega
    refine ⟨⟨hempty, fun entry hentry => ?_, fun entry hentry hnamed => ?_,
      fun entry hentry hnamed => ?_⟩, ?_⟩
    · by_cases hexact : entry.1 = ascii "connection"
      · rw [hexact]
        decide
      · exact hnames entry (mem_fields_of_mem hentry hexact)
    · by_contra hexact
      have hmem : entry ∈ rsp.fields.filter (isNamed "connection") :=
        List.mem_filter.mpr ⟨mem_fields_of_mem hentry hexact, hnamed⟩
      rw [hconnection, List.mem_singleton] at hmem
      exact hexact (congrArg Prod.fst hmem)
    · have hother : entry.1 ≠ ascii "connection" := by
        intro hexact
        rw [isNamed, hexact] at hnamed
        revert hnamed
        decide
      have hfind := find?_of_mem hlength (mem_fields_of_mem hentry hother) hnamed
      rw [contentLength, hfind, hzero] at hcontent
      exact hcontent
    · rw [← hrest, htail, hzero]
      rfl

end HttpResponse

/-! ## A connection -/

/-- The bytes read back are the responses written, with one set of framing headers each. -/
def StayFramed (rsps : List HttpResponse) : Prop :=
  readResponses (rsps.flatMap HttpResponse.dump) = some (rsps.map HttpResponse.received) ∧
    ∀ rsp ∈ rsps, rsp.OneLength ∧ rsp.OneConnection

theorem readFrom_succ {fuel : Nat} {bytes : Bytes} (hne : bytes ≠ []) :
    readFrom (fuel + 1) bytes = (readResponse bytes).bind fun read =>
      (readFrom fuel read.2).map (read.1 :: ·) := by
  cases bytes with
  | nil => exact absurd rfl hne
  | cons byte bytes =>
      rw [readFrom]
      · cases hread : readResponse (byte :: bytes) with
        | none => rfl
        | some read => cases hrest : readFrom fuel read.2 <;> simp [hrest]
      · exact hne

theorem readFrom_crlf (fuel : Nat) (bytes : Bytes) : readFrom fuel (crlf ++ bytes) = none := by
  cases fuel with
  | zero => rfl
  | succ fuel =>
      have hblock : readBlock (crlf ++ bytes).length (crlf ++ bytes) = some ([], bytes) := by
        simp [readBlock, cut]
      have hread : readResponse (crlf ++ bytes) = none := by
        simp only [readResponse, hblock, Option.bind_eq_bind, Option.bind_some]
      have hne : crlf ++ bytes ≠ [] := List.cons_ne_nil _ _
      rw [readFrom_succ hne, hread]
      rfl

theorem dump_ne_nil (rsp : HttpResponse) : rsp.dump ≠ [] := by
  intro hnil
  have := congrArg List.length hnil
  simp [HttpResponse.dump, writeLines] at this

theorem length_le_length_dumps (rsps : List HttpResponse) :
    rsps.length ≤ (rsps.flatMap HttpResponse.dump).length := by
  induction rsps with
  | nil => exact Nat.le_refl 0
  | cons rsp rsps ih =>
      have hpos := List.length_pos_iff.mpr (dump_ne_nil rsp)
      simp only [List.flatMap_cons, List.length_append, List.length_cons]
      omega

theorem readFrom_dumps_iff {rsps : List HttpResponse} (hclean : ∀ rsp ∈ rsps, rsp.Clean)
    (hone : ∀ rsp ∈ rsps, rsp.OneLength ∧ rsp.OneConnection) {fuel : Nat}
    (hfuel : rsps.length ≤ fuel) :
    readFrom fuel (rsps.flatMap HttpResponse.dump) = some (rsps.map HttpResponse.received) ↔
      ∀ rsp ∈ rsps, rsp.Framed := by
  induction rsps generalizing fuel with
  | nil => cases fuel <;> simp [readFrom]
  | cons rsp rsps ih =>
      obtain ⟨fuel, rfl⟩ := Nat.exists_eq_succ_of_ne_zero (Nat.ne_of_gt (Nat.zero_lt_of_lt hfuel))
      have ih := ih (fun rsp hrsp => hclean rsp (List.mem_cons_of_mem _ hrsp))
        (fun rsp hrsp => hone rsp (List.mem_cons_of_mem _ hrsp))
        (Nat.le_of_succ_le_succ hfuel)
      have hcleanHead := hclean rsp List.mem_cons_self
      obtain ⟨hlength, hconnection⟩ := hone rsp List.mem_cons_self
      have hne : rsp.dump ++ rsps.flatMap HttpResponse.dump ≠ [] :=
        fun hnil => dump_ne_nil rsp (List.append_eq_nil_iff.mp hnil).1
      rw [List.flatMap_cons, List.map_cons, readFrom_succ hne, List.forall_mem_cons, ← ih]
      constructor
      · intro h
        obtain ⟨⟨first, rest⟩, hread, h⟩ := Option.bind_eq_some_iff.mp h
        obtain ⟨others, hothers, heq⟩ := Option.map_eq_some_iff.mp h
        cases heq
        -- A line end left over from the body would start the next block with an empty line.
        have hnext : ∀ bytes, rest ≠ crlf ++ bytes := by
          rintro bytes rfl
          rw [readFrom_crlf] at hothers
          cases hothers
        obtain ⟨hframed, rfl⟩ :=
          HttpResponse.Framed.of_readResponse hcleanHead hlength hconnection hread hnext
        exact ⟨hframed, hothers⟩
      · rintro ⟨hframed, hothers⟩
        rw [hframed.readResponse hcleanHead, Option.bind_some, hothers]
        rfl

theorem responses_framed_iff (rsps : List HttpResponse) (hclean : ∀ rsp ∈ rsps, rsp.Clean) :
    StayFramed rsps ↔ ∀ rsp ∈ rsps, rsp.Framed := by
  constructor
  · rintro ⟨hread, hone⟩
    exact (readFrom_dumps_iff hclean hone (length_le_length_dumps rsps)).mp hread
  · intro h
    have hone : ∀ rsp ∈ rsps, rsp.OneLength ∧ rsp.OneConnection :=
      fun rsp hrsp => ⟨(h rsp hrsp).oneLength, (h rsp hrsp).oneConnection⟩
    exact ⟨(readFrom_dumps_iff hclean hone (length_le_length_dumps rsps)).mpr h, hone⟩

/-- A response without headers of its own. -/
def bare (body : Bytes) : HttpResponse := ⟨200, 0x11, true, [], body, .empty⟩

theorem bare_clean (body : Bytes) : (bare body).Clean := by
  refine ⟨?_, ?_, ?_⟩
  · intro entry hentry
    cases hentry
  · intro entry hentry
    cases hentry
  · exact ⟨List.not_mem_nil, List.not_mem_nil⟩

theorem responses_framed_sample : StayFramed [bare [], bare []] := by
  have hframed : (bare []).Framed := by
    refine ⟨rfl, ?_, ?_, ?_⟩ <;> intro entry hentry <;> cases hentry
  refine (responses_framed_iff _ ?_).mpr ?_
  · simp [bare_clean]
  · simp [hframed]

/-- The line end after the body is read as the header block of the second response. -/
theorem body_breaks_framing :
    (∀ rsp ∈ [bare (ascii "hi"), bare []], rsp.Clean) ∧
      ¬ StayFramed [bare (ascii "hi"), bare []] := by
  refine ⟨by simp [bare_clean], ?_⟩
  rintro ⟨hread, -⟩
  revert hread
  decide

end Qslary.Http

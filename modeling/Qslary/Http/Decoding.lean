import Qslary.Http.Overruns
import Qslary.Http.SizeLines

/-!
# Decoding chunks

A response in chunks against what `recvResponse` makes of it.  The size lines say where the
chunks end, so that where a read cuts one of them, the data of a chunk is taken for what
comes behind it.
-/

namespace Qslary.Http

open Qslary.Foundation Response

/-! ## Responses in chunks -/

/--
A header of which the parser reports every field by its name, and that announces chunks; `last` is
the state of the parser behind it.
-/
structure ChunkedHeader where
  version : Bytes
  behind : Bytes
  last : Nat
  version_mem : version ∈ HttpResponseParser.versions
  completes : Watch.start.Completes 1 (version ++ 32 :: behind) last

/-- A size as it is written: leading zeros and letters of either case are allowed. -/
structure ChunkSize where
  digits : Bytes
  hex : digits.all (isDigitOf 16) = true
  pos : 0 < valueOf 16 digits
  lt : valueOf 16 digits < 2 ^ 31 - 2

def ChunkSize.value (size : ChunkSize) : Nat := valueOf 16 size.digits

structure Chunk where
  size : ChunkSize
  data : Bytes
  length_eq : data.length = size.value

def ChunkedHeader.text (header : ChunkedHeader) : Bytes := header.version ++ 32 :: header.behind

/-- The parser takes the header for finished. -/
def ChunkedHeader.Finishes (header : ChunkedHeader) : Prop := header.last = 120

instance (header : ChunkedHeader) : Decidable header.Finishes :=
  inferInstanceAs (Decidable (_ = _))

def Chunk.encode (chunk : Chunk) : Bytes := chunk.size.digits ++ crlf ++ chunk.data ++ crlf

def encode : List Chunk → Bytes
  | [] => ascii "0" ++ crlf ++ crlf
  | chunk :: chunks => chunk.encode ++ encode chunks

def decoded (chunks : List Chunk) : Bytes := chunks.flatMap Chunk.data

/-- What is sent, and how it arrives. -/
def ChunkedHeader.sent (header : ChunkedHeader) (chunks : List Chunk) (ends : Nat → Bool) :
    Pieces where
  input := header.text ++ encode chunks
  ends := ends
  connected := true

/-- `recvResponse` returns a response whose body is that of the chunks. -/
def Decodes (header : ChunkedHeader) (chunks : List Chunk) (ends : Nat → Bool) : Prop :=
  ∃ response s, HttpConnection.recvResponse (header.sent chunks ends) = .ok (some response, s) ∧
    response.body = decoded chunks

/-! ## What has to arrive together -/

def lengthEncoded : List ChunkSize → Nat
  | [] => 5
  | size :: sizes => size.digits.length + size.value + 4 + lengthEncoded sizes

/-- The size in the digits that are among the last `seen` bytes of the line. -/
def ChunkSize.found (size : ChunkSize) (seen : Nat) : Nat :=
  valueOf 16 (size.digits.drop (size.digits.length + 2 - seen))

/-- The call that ends a size line finds the whole of the size. -/
def SizesArrive : List ChunkSize → Nat → Arrivals → Prop
  | [], held, a => (Arrivals.line 3 0 held a).seen = 3
  | size :: sizes, held, a =>
      let l := Arrivals.line (size.digits.length + 2) 0 held a
      size.found l.seen = size.value ∧
        SizesArrive sizes (l.held - (size.value + 2)) (l.arrivals.after (size.value + 2 - l.held))

/--
The call that gets the space behind the version begins with the header or with that space,
and the sizes arrive.
-/
def Arrives (header : ChunkedHeader) (sizes : List ChunkSize) (ends : Nat → Bool) : Prop :=
  let a : Arrivals := ⟨ends, header.text.length + lengthEncoded sizes⟩
  let l := Arrivals.line header.text.length 0 0 a
  (Arrivals.line 9 0 0 a).seen ∈ [1, 9] ∧ SizesArrive sizes l.held l.arrivals

def decidableSizesArrive :
    (sizes : List ChunkSize) → (held : Nat) → (a : Arrivals) → Decidable (SizesArrive sizes held a)
  | [], _, _ => inferInstanceAs (Decidable (_ = _))
  | _ :: sizes, _, _ =>
      have := decidableSizesArrive sizes
      inferInstanceAs (Decidable (_ ∧ _))

instance (sizes : List ChunkSize) (held : Nat) (a : Arrivals) :
    Decidable (SizesArrive sizes held a) := decidableSizesArrive sizes held a

instance (header : ChunkedHeader) (sizes : List ChunkSize) (ends : Nat → Bool) :
    Decidable (Arrives header sizes ends) := inferInstanceAs (Decidable (_ ∧ _))

theorem encode_cons (chunk : Chunk) (chunks : List Chunk) :
    encode (chunk :: chunks) =
      chunk.size.digits ++ 13 :: 10 :: (chunk.data ++ 13 :: 10 :: encode chunks) := by
  simp [encode, Chunk.encode, crlf]

theorem encode_nil : encode [] = [48] ++ 13 :: 10 :: [13, 10] := rfl

/-- No byte of the data begins a size line. -/
def Chunk.Plain (chunk : Chunk) : Prop := ∀ x ∈ chunk.data, next 1 x = none

theorem Chunk.le_length_rest (chunk : Chunk) {n : Nat} (h : n ≤ chunk.size.value) (rest : Bytes) :
    n + 2 ≤ (chunk.data ++ 13 :: 10 :: rest).length := by
  have hlength := chunk.length_eq
  simp only [List.length_append, List.length_cons]
  omega

/-- Inside the data something of it is left. -/
theorem Chunk.exists_of_drop (chunk : Chunk) {n : Nat} (h : n < chunk.size.value) (rest : Bytes) :
    ∃ x tail, x ∈ chunk.data ∧ (chunk.data ++ rest).drop n = x :: tail := by
  have hlength := chunk.length_eq
  have hlt : n < chunk.data.length := by omega
  refine ⟨chunk.data[n], chunk.data.drop (n + 1) ++ rest, List.getElem_mem hlt, ?_⟩
  rw [List.drop_append_of_le_length hlt.le, List.drop_eq_getElem_cons hlt]
  rfl

theorem Chunk.take_rest (chunk : Chunk) (rest : Bytes) :
    (chunk.data ++ rest).take chunk.size.value = chunk.data := by
  rw [← chunk.length_eq, List.take_left]

theorem Chunk.drop_rest (chunk : Chunk) (rest : Bytes) :
    (chunk.data ++ 13 :: 10 :: rest).drop (chunk.size.value + 2) = rest := by
  have hlength := chunk.length_eq
  rw [← hlength, List.drop_append, List.drop_of_length_le (by omega), Nat.add_sub_cancel_left]
  rfl

namespace ChunkSize

theorem digits_ne_nil (size : ChunkSize) : size.digits ≠ [] := by
  intro hnil
  have hpos := size.pos
  rw [hnil] at hpos
  cases hpos

/-- Of a size that lacks digits other than leading zeros much is missing. -/
theorem found_add_le (size : ChunkSize) {seen : Nat} (hsome : size.found seen ≠ 0)
    (hne : size.found seen ≠ size.value) : size.found seen + 16 ≤ size.value := by
  unfold found at *
  generalize size.digits.length + 2 - seen = n at *
  have hvalue : size.value = valueOf 16 (size.digits.take n) * 16 ^ (size.digits.drop n).length +
      valueOf 16 (size.digits.drop n) := by
    rw [← valueOf_append, List.take_append_drop]
    rfl
  have hdrop : 1 ≤ (size.digits.drop n).length := by
    rw [Nat.one_le_iff_ne_zero, ne_eq, List.length_eq_zero_iff]
    intro hnil
    rw [hnil] at hsome
    exact hsome rfl
  have hfront : 1 ≤ valueOf 16 (size.digits.take n) := by
    rw [Nat.one_le_iff_ne_zero]
    intro hzero
    rw [hzero, Nat.zero_mul, Nat.zero_add] at hvalue
    exact hne hvalue.symm
  have hpower : 16 ^ 1 ≤ 16 ^ (size.digits.drop n).length :=
    Nat.pow_le_pow_right (by decide) hdrop
  have hproduct := Nat.mul_le_mul hfront hpower
  omega

end ChunkSize

namespace HttpConnection

variable {parser : HttpResponseParser} {digits text rest body data : Bytes} {held n fuel : Nat}
  {a : Arrivals} {s : Pieces}

/-! ## The data of a chunk -/

/-- The body with the next `n` bytes, and the stream two bytes further on. -/
theorem recvChunk_eq (body : Bytes) (hn : n < 2 ^ 31 - 2)
    (hstands : Pieces.Stands text held a data s) (hlength : n + 2 ≤ text.length) :
    ∃ data' s', recvChunk n body data s = .ok (some (body ++ text.take n, data'), s') ∧
      Pieces.Stands (text.drop (n + 2)) (held - (n + 2)) (a.after (n + 2 - held)) data' s' := by
  obtain ⟨hbytes, hheld, harrivals, hconnected, hfits⟩ := hstands
  have hover : ¬ (2 : Int) ^ 31 ≤ n + 2 := by omega
  have hsum := congrArg List.length hbytes
  rw [List.length_append] at hsum
  unfold recvChunk
  rw [if_neg hover]
  by_cases hle : (n : Int) + 2 ≤ data.length
  · have hsign : ¬ (n : Int) < 0 := by omega
    have htake : data.take n = text.take n := by
      rw [← hbytes, List.take_append_of_le_length (by omega)]
    have hnone : n + 2 - held = 0 := by omega
    rw [if_pos hle, if_neg hsign, Int.toNat_natCast, htake, hnone, Arrivals.after_zero]
    refine ⟨_, _, rfl, ?_, ?_, harrivals, hconnected, ?_⟩
    · rw [← hbytes, List.drop_append_of_le_length (by omega)]
    · rw [List.length_drop, hheld]
    · rw [List.length_drop]
      omega
  · have hleft : ((n : Int) - data.length + 2).toNat = n + 2 - data.length := by omega
    have hread := Pieces.readAll_of_le (by decide : 0 < buffSize) hconnected
      (Nat.le_refl (n + 2 - data.length)) (by omega)
    have hwhole : data ++ s.input.take (n + 2 - data.length) = text.take (n + 2) := by
      have hall : data.take (n + 2) = data := List.take_of_length_le (by omega)
      rw [← hbytes, List.take_append, hall]
    have hlong : (body ++ text.take (n + 2)).length = body.length + (n + 2) := by
      rw [List.length_append, List.length_take_of_le hlength]
    have hcut : (body ++ text.take (n + 2)).take (body.length + (n + 2) - 2) =
        body ++ text.take n := by
      rw [List.take_append, List.take_of_length_le (by omega), List.take_take]
      congr 2
      omega
    have hgone : held - (n + 2) = 0 := by omega
    have hroom : ¬ body.length + (n + 2) < 2 := by omega
    rw [if_neg hle, hleft]
    simp only [hread, List.append_assoc, hwhole, hlong, if_neg hroom]
    rw [hcut, hgone, ← hheld, ← harrivals]
    refine ⟨_, _, rfl, ?_, rfl, Pieces.arrivals_after s _, hconnected, Nat.zero_le _⟩
    rw [← hbytes, List.drop_append, List.drop_of_length_le (by omega)]
    rfl

/-! ## Chunk after chunk -/

theorem recvChunks_none {s' : Pieces}
    (h : recvSize (data.length + s.input.length + 1) true parser data s = .ok (none, s')) :
    recvChunks (fuel + 1) parser body data s = .ok (none, s') := by
  rw [recvChunks, h]
  rfl

theorem recvChunks_refused (fuel : Nat) (parser : HttpResponseParser) (body : Bytes) {x : UInt8}
    (hx : next 1 x = none)
    (hstands : Pieces.Stands (x :: rest) held a data s) :
    ∃ s', recvChunks fuel parser body data s = .ok (none, s') := by
  cases fuel with
  | zero => exact ⟨s, rfl⟩
  | succ fuel =>
      obtain ⟨s', hsize⟩ := recvSize_refused (data.length + s.input.length) parser hx hstands
        (Or.inl rfl)
      exact ⟨s', recvChunks_none hsize⟩

/-- The loop over a size line at the beginning of a pass. -/
theorem recvSize_first (hne : digits ≠ []) (hdigits : digits.all (isDigitOf 16) = true)
    (hsmall : valueOf 16 digits < 2 ^ 31 - 2) (herror : parser.error = 0)
    (hstands : Pieces.Stands (digits ++ 13 :: 10 :: rest) held a data s) :
    if (Arrivals.line (digits.length + 2) 0 held a).seen ≤ 2 then
      ∃ s', recvSize (data.length + s.input.length + 1) true parser data s = .ok (none, s')
    else SizeDone digits rest (Arrivals.line (digits.length + 2) 0 held a)
      (recvSize (data.length + s.input.length + 1) true parser data s) := by
  have hsum := congrArg List.length hstands.bytes
  simp only [List.length_append, List.length_cons] at hsum
  exact recvSize_line hne hdigits (by omega) herror hstands (Or.inl rfl) (by omega)

/-- A pass whose size line is cut behind its digits. -/
theorem recvChunks_cut (fuel : Nat) (body : Bytes) (hne : digits ≠ [])
    (hdigits : digits.all (isDigitOf 16) = true)
    (hsmall : valueOf 16 digits < 2 ^ 31 - 2) (herror : parser.error = 0)
    (hstands : Pieces.Stands (digits ++ 13 :: 10 :: rest) held a data s)
    (hfew : (Arrivals.line (digits.length + 2) 0 held a).seen ≤ 2) :
    ∃ s', recvChunks fuel parser body data s = .ok (none, s') := by
  cases fuel with
  | zero => exact ⟨s, rfl⟩
  | succ fuel =>
      have hsize := recvSize_first hne hdigits hsmall herror hstands
      rw [if_pos hfew] at hsize
      obtain ⟨s', hnone⟩ := hsize
      exact ⟨s', recvChunks_none hnone⟩

/-- A pass that finds the size `n`. -/
theorem recvChunks_pass (fuel : Nat) (body : Bytes) {l : Line} (hne : digits ≠ [])
    (hdigits : digits.all (isDigitOf 16) = true)
    (hsmall : valueOf 16 digits < 2 ^ 31 - 2) (herror : parser.error = 0)
    (hstands : Pieces.Stands (digits ++ 13 :: 10 :: rest) held a data s)
    (hl : l = Arrivals.line (digits.length + 2) 0 held a) (hseen : 2 < l.seen)
    (hn : n = valueOf 16 (digits.drop (digits.length + 2 - l.seen)))
    (hlength : n + 2 ≤ rest.length) :
    ∃ parser' data' s', parser'.error = 0 ∧
      Pieces.Stands (rest.drop (n + 2)) (l.held - (n + 2)) (l.arrivals.after (n + 2 - l.held))
        data' s' ∧
      recvChunks (fuel + 1) parser body data s =
        if n = 0 then .ok (some (parser', body ++ rest.take n), s')
        else recvChunks fuel parser' (body ++ rest.take n) data' s' := by
  have hsize := recvSize_first hne hdigits hsmall herror hstands
  rw [← hl, if_neg (Nat.not_le_of_lt hseen)] at hsize
  obtain ⟨after, data₁, s₁, hrecv, herror', hlen, hdone, hstands'⟩ := hsize
  rw [← hn] at hlen hdone
  have hbound : n < 2 ^ 31 - 2 := by
    have hle := valueOf_drop_le digits (digits.length + 2 - l.seen)
    omega
  obtain ⟨data', s', hchunk, hbehind⟩ := recvChunk_eq body hbound hstands' hlength
  refine ⟨after, data', s', herror', hbehind, ?_⟩
  rw [recvChunks, hrecv]
  simp only [bind, Except.bind, hlen, hchunk, hdone, decide_eq_true_eq]

/-- A chunk whose size arrives is taken whole. -/
theorem recvChunks_chunk (fuel : Nat) (body : Bytes) {chunk : Chunk} {chunks : List Chunk}
    {l : Line} (herror : parser.error = 0)
    (hstands : Pieces.Stands (encode (chunk :: chunks)) held a data s)
    (hl : l = Arrivals.line (chunk.size.digits.length + 2) 0 held a)
    (hvalue : chunk.size.found l.seen = chunk.size.value) :
    ∃ parser' data' s', parser'.error = 0 ∧
      Pieces.Stands (encode chunks) (l.held - (chunk.size.value + 2))
        (l.arrivals.after (chunk.size.value + 2 - l.held)) data' s' ∧
      recvChunks (fuel + 1) parser body data s =
        recvChunks fuel parser' (body ++ chunk.data) data' s' := by
  have hpos : 0 < chunk.size.value := chunk.size.pos
  have hmore : 2 < l.seen := by
    by_contra hfew
    rw [ChunkSize.found, List.drop_of_length_le (by omega)] at hvalue
    exact hpos.ne hvalue
  rw [encode_cons] at hstands
  obtain ⟨parser', data', s', herror', hstands', hpass⟩ := recvChunks_pass fuel body
    chunk.size.digits_ne_nil chunk.size.hex chunk.size.lt herror hstands hl hmore hvalue.symm
    (chunk.le_length_rest (Nat.le_refl _) _)
  rw [chunk.drop_rest] at hstands'
  rw [chunk.take_rest, if_neg hpos.ne'] at hpass
  exact ⟨parser', data', s', herror', hstands', hpass⟩

/-- The sizes arrive, and with them the data. -/
theorem recvChunks_of_arrive {chunks : List Chunk} (body : Bytes) (herror : parser.error = 0)
    (hstands : Pieces.Stands (encode chunks) held a data s)
    (harrive : SizesArrive (chunks.map Chunk.size) held a) (hfuel : chunks.length < fuel) :
    ∃ parser' s', recvChunks fuel parser body data s =
      .ok (some (parser', body ++ decoded chunks), s') := by
  induction chunks generalizing fuel parser body data s held a with
  | nil =>
      obtain ⟨fuel, rfl⟩ : ∃ k, fuel = k + 1 := ⟨fuel - 1, by omega⟩
      obtain ⟨l, hl⟩ : ∃ l, l = Arrivals.line 3 0 held a := ⟨_, rfl⟩
      have hseen : l.seen = 3 := hl ▸ harrive
      have hzero : 0 = valueOf 16 (([48] : Bytes).drop (([48] : Bytes).length + 2 - l.seen)) := by
        rw [hseen]
        rfl
      rw [encode_nil] at hstands
      obtain ⟨parser', data', s', -, -, hpass⟩ := recvChunks_pass fuel body
        (List.cons_ne_nil _ _) rfl (by decide) herror hstands hl (by omega) hzero (Nat.le_refl _)
      exact ⟨parser', s', hpass⟩
  | cons chunk chunks ih =>
      obtain ⟨fuel, rfl⟩ : ∃ k, fuel = k + 1 := ⟨fuel - 1, by omega⟩
      obtain ⟨hvalue, hrest⟩ := harrive
      obtain ⟨parser', data', s', herror', hstands', hpass⟩ :=
        recvChunks_chunk fuel body herror hstands rfl hvalue
      obtain ⟨last, s₁, hlast⟩ := ih (body ++ chunk.data) herror' hstands' hrest
        (Nat.lt_of_succ_lt_succ hfuel)
      refine ⟨last, s₁, ?_⟩
      rw [hpass, hlast, List.append_assoc]
      rfl

/-- The loop fails, or it ends with the body as it is. -/
def Ended (body : Bytes) (result : Except Crash (Option (HttpResponseParser × Bytes) × Pieces)) :
    Prop :=
  (∃ s, result = .ok (none, s)) ∨ ∃ parser s, result = .ok (some (parser, body), s)

/--
Where the size of a chunk is taken for a smaller one, the loop ends with that, or with what
it takes for the next size line.
-/
theorem recvChunks_lost (fuel : Nat) (body : Bytes) {chunk : Chunk} {chunks : List Chunk}
    {l : Line} (herror : parser.error = 0) (hplain : chunk.Plain)
    (hstands : Pieces.Stands (encode (chunk :: chunks)) held a data s)
    (hl : l = Arrivals.line (chunk.size.digits.length + 2) 0 held a)
    (hvalue : chunk.size.found l.seen ≠ chunk.size.value) :
    Ended body (recvChunks fuel parser body data s) := by
  rw [encode_cons] at hstands
  rcases Nat.lt_or_ge 2 l.seen with hmore | hfew
  · cases fuel with
    | zero => exact Or.inl ⟨s, rfl⟩
    | succ fuel =>
        obtain ⟨n, hn⟩ : ∃ n, n = chunk.size.found l.seen := ⟨_, rfl⟩
        have hle : n ≤ chunk.size.value := hn ▸ valueOf_drop_le _ _
        obtain ⟨parser', data', s', -, hstands', hpass⟩ := recvChunks_pass fuel body
          chunk.size.digits_ne_nil chunk.size.hex chunk.size.lt herror hstands hl hmore hn
          (chunk.le_length_rest hle _)
        by_cases hzero : n = 0
        · rw [if_pos hzero, hzero, List.take_zero, List.append_nil] at hpass
          exact Or.inr ⟨parser', s', hpass⟩
        · have hless : n + 16 ≤ chunk.size.value := by
            rw [hn] at hzero ⊢
            exact chunk.size.found_add_le hzero hvalue
          obtain ⟨x, tail, hx, htail⟩ :=
            chunk.exists_of_drop (by omega : n + 2 < chunk.size.value) (13 :: 10 :: encode chunks)
          rw [htail] at hstands'
          obtain ⟨s₁, hnone⟩ := recvChunks_refused fuel parser'
            (body ++ (chunk.data ++ 13 :: 10 :: encode chunks).take n) (hplain x hx) hstands'
          rw [hpass, if_neg hzero]
          exact Or.inl ⟨s₁, hnone⟩
  · obtain ⟨s', hnone⟩ := recvChunks_cut fuel body chunk.size.digits_ne_nil chunk.size.hex
      chunk.size.lt herror hstands (hl ▸ hfew)
    exact Or.inl ⟨s', hnone⟩

/-- The body is not longer than that of the chunks, and shorter if not all sizes arrive. -/
theorem recvChunks_length (fuel : Nat) (body : Bytes) {chunks : List Chunk}
    (herror : parser.error = 0) (hplain : ∀ chunk ∈ chunks, chunk.Plain)
    (hstands : Pieces.Stands (encode chunks) held a data s) {parser' : HttpResponseParser}
    {body' : Bytes} {s' : Pieces}
    (h : recvChunks fuel parser body data s = .ok (some (parser', body'), s')) :
    body'.length ≤ (body ++ decoded chunks).length ∧
      (¬ SizesArrive (chunks.map Chunk.size) held a →
        body'.length < (body ++ decoded chunks).length) := by
  induction chunks generalizing fuel parser body data s held a with
  | nil =>
      rcases Nat.lt_or_ge 2 (Arrivals.line 3 0 held a).seen with hmore | hfew
      · have hle := Arrivals.seen_le 3 0 held a
        have hseen : (Arrivals.line 3 0 held a).seen = 3 := Nat.le_antisymm (by omega) hmore
        cases fuel with
        | zero => cases h
        | succ fuel =>
            rw [encode_nil] at hstands
            have hzero : 0 = valueOf 16 (([48] : Bytes).drop (([48] : Bytes).length + 2 -
                (Arrivals.line 3 0 held a).seen)) := by
              rw [hseen]
              rfl
            obtain ⟨last, data₁, s₁, -, -, hpass⟩ := recvChunks_pass fuel body
              (List.cons_ne_nil _ _) rfl (by decide) herror hstands rfl hmore hzero (Nat.le_refl _)
            rw [hpass, if_pos rfl] at h
            cases h
            exact ⟨Nat.le_refl _, fun harrive => absurd hseen harrive⟩
      · rw [encode_nil] at hstands
        obtain ⟨s₁, hnone⟩ := recvChunks_cut fuel body (List.cons_ne_nil _ _) rfl (by decide) herror
          hstands hfew
        rw [hnone] at h
        cases h
  | cons chunk chunks ih =>
      have hwhole : body ++ decoded (chunk :: chunks) = (body ++ chunk.data) ++ decoded chunks := by
        rw [List.append_assoc]
        rfl
      by_cases hvalue : chunk.size.found
          (Arrivals.line (chunk.size.digits.length + 2) 0 held a).seen = chunk.size.value
      · cases fuel with
        | zero => cases h
        | succ fuel =>
            obtain ⟨parser₁, data₁, s₁, herror₁, hstands₁, hpass⟩ :=
              recvChunks_chunk fuel body herror hstands rfl hvalue
            rw [hpass] at h
            obtain ⟨hle, hlt⟩ := ih fuel (body ++ chunk.data) herror₁
              (fun other hmem => hplain other (List.mem_cons_of_mem chunk hmem)) hstands₁ h
            rw [hwhole]
            exact ⟨hle, fun harrive => hlt fun hrest => harrive ⟨hvalue, hrest⟩⟩
      · have hended := recvChunks_lost fuel body herror (hplain chunk List.mem_cons_self) hstands
          rfl hvalue
        rw [h] at hended
        rcases hended with ⟨s₁, hnone⟩ | ⟨parser₁, s₁, hbody⟩
        · cases hnone
        · have hpos : 0 < chunk.size.value := chunk.size.pos
          have hlength := chunk.length_eq
          cases hbody
          rw [hwhole]
          simp only [List.length_append]
          omega

/-- With nothing left to read there is no size line. -/
theorem recvChunks_empty (fuel : Nat) (parser : HttpResponseParser) (body : Bytes)
    (hstands : Pieces.Stands [] held a data s) :
    ∃ s', recvChunks fuel parser body data s = .ok (none, s') := by
  cases fuel with
  | zero => exact ⟨s, rfl⟩
  | succ fuel =>
      obtain ⟨rfl, hinput⟩ := List.append_eq_nil_iff.mp hstands.bytes
      have hread : (s.read (buffSize - ([] : Bytes).length)).1 = [] := by
        rw [Pieces.read_eq hstands.connected, hinput]
        exact List.take_nil
      have hfill : ∃ s', fill true [] s = (none, s') := by
        cases hs : s.read (buffSize - ([] : Bytes).length) with
        | mk bytes s₁ =>
            rw [hs] at hread
            cases hread
            refine ⟨s₁.close, ?_⟩
            simp only [fill, hs]
            rfl
      obtain ⟨s', hnone⟩ := hfill
      refine ⟨s', recvChunks_none ?_⟩
      rw [recvSize, hnone]

end HttpConnection

/-! ## The whole response -/

theorem length_encode (chunks : List Chunk) :
    (encode chunks).length = lengthEncoded (chunks.map Chunk.size) := by
  induction chunks with
  | nil => rfl
  | cons chunk chunks ih =>
      have hlength := chunk.length_eq
      rw [encode_cons, List.map_cons, lengthEncoded, ← ih]
      simp only [List.length_append, List.length_cons]
      omega

theorem length_le_encode (chunks : List Chunk) : chunks.length ≤ (encode chunks).length := by
  induction chunks with
  | nil => exact Nat.zero_le _
  | cons chunk chunks ih =>
      rw [encode_cons]
      simp only [List.length_append, List.length_cons]
      omega

namespace HttpConnection

theorem recvResponse_of_header {start s : Pieces} {parser : HttpResponseParser} {data : Bytes}
    (hheader : recvHeader (start.input.length + 1) .new [] start = .ok (some (parser, data), s))
    (hchunked : parser.parser.chunked = true) :
    recvResponse start =
      (recvChunks (data.length + s.input.length + 1) parser [] data s).map fun
        | (none, s) => (none, s)
        | (some (parser, body), s) => (some { parser.data with body := body }, s) := by
  simp only [recvResponse, hheader, hchunked, bind, Except.bind, if_true]
  cases recvChunks (data.length + s.input.length + 1) parser [] data s with
  | error crash => rfl
  | ok result =>
      obtain ⟨found, s'⟩ := result
      cases found with
      | none => rfl
      | some found => rfl

end HttpConnection

open HttpConnection

variable {header : ChunkedHeader} {chunks : List Chunk} {ends : Nat → Bool}

/-- What the header loop comes to on a response in chunks. -/
theorem recvHeader_sent (header : ChunkedHeader) (chunks : List Chunk) (ends : Nat → Bool) :
    let a : Arrivals := ⟨ends, header.text.length + lengthEncoded (chunks.map Chunk.size)⟩
    let s := header.sent chunks ends
    if (Arrivals.line 9 0 0 a).seen ∈ [1, 9] then
      HeaderDone header.last (encode chunks) (Arrivals.line header.text.length 0 0 a)
        (recvHeader (s.input.length + 1) .new [] s)
    else ∃ s', recvHeader (s.input.length + 1) .new [] s = .ok (none, s') := by
  have hlength : (header.sent chunks ends).input.length =
      header.text.length + lengthEncoded (chunks.map Chunk.size) := by
    rw [← length_encode]
    exact List.length_append
  have harrivals : (header.sent chunks ends).arrivals =
      ⟨ends, header.text.length + lengthEncoded (chunks.map Chunk.size)⟩ :=
    congrArg (Arrivals.mk ends) hlength
  refine recvHeader_version header.version_mem (Nat.zero_le 8) rfl rfl rfl rfl header.completes
    ⟨rfl, rfl, harrivals, rfl, Nat.zero_le _⟩ ?_
  have htext : (header.version.drop 0 ++ 32 :: header.behind).length = header.text.length := rfl
  omega

theorem decodes_of_arrives (hfinishes : header.Finishes)
    (h : Arrives header (chunks.map Chunk.size) ends) : Decodes header chunks ends := by
  obtain ⟨hversion, hsizes⟩ := h
  have hheader := recvHeader_sent header chunks ends
  dsimp only at hheader
  rw [if_pos hversion] at hheader
  obtain ⟨fuel, parser, data, s, hrecv, hcs, hchunked, herror, hstands⟩ := hheader
  rw [settled_done herror (hcs.trans hfinishes)] at hrecv
  have hsum := congrArg List.length hstands.bytes
  have hfew := length_le_encode chunks
  rw [List.length_append] at hsum
  obtain ⟨last, s', hchunks⟩ := recvChunks_of_arrive [] herror hstands hsizes
    (by omega : chunks.length < data.length + s.input.length + 1)
  refine ⟨{ last.data with body := decoded chunks }, s', ?_, rfl⟩
  rw [recvResponse_of_header hrecv hchunked, hchunks]
  rfl

/-- A response in chunks is returned from what is left behind a header. -/
theorem recvResponse_cases {start s' : Pieces} {response : HttpResponse}
    (hchunked : ∀ parser data s, recvHeader (start.input.length + 1) .new [] start =
      .ok (some (parser, data), s) → parser.parser.chunked = true)
    (h : recvResponse start = .ok (some response, s')) :
    ∃ parser data s fuel last, recvHeader (start.input.length + 1) .new [] start =
        .ok (some (parser, data), s) ∧
      recvChunks fuel parser [] data s = .ok (some (last, response.body), s') := by
  cases hheader : recvHeader (start.input.length + 1) .new [] start with
  | error crash =>
      simp only [recvResponse, hheader, bind, Except.bind] at h
      cases h
  | ok result =>
      obtain ⟨_ | ⟨parser, data⟩, s⟩ := result
      · simp only [recvResponse, hheader, bind, Except.bind] at h
        cases h
      · rw [recvResponse_of_header hheader (hchunked parser data s hheader)] at h
        refine ⟨parser, data, s, data.length + s.input.length + 1, ?_⟩
        cases hchunks : recvChunks (data.length + s.input.length + 1) parser [] data s with
        | error crash =>
            rw [hchunks] at h
            cases h
        | ok result =>
            obtain ⟨_ | ⟨last, body⟩, s₁⟩ := result
            · rw [hchunks] at h
              cases h
            · rw [hchunks] at h
              cases h
              exact ⟨last, rfl, rfl⟩

/-! ## Behind the ends of lines -/

theorem lineEnd_cons {x : UInt8} {ys front rest : Bytes} (h : x :: ys = front ++ 10 :: rest) :
    (x = 10 ∧ rest = ys) ∨ ∃ front', ys = front' ++ 10 :: rest := by
  cases front with
  | nil =>
      obtain ⟨rfl, rfl⟩ := List.cons.inj h
      exact Or.inl ⟨rfl, rfl⟩
  | cons y front => exact Or.inr ⟨front, (List.cons.inj h).2⟩

theorem lineEnd_append {xs ys front rest : Bytes} (h : xs ++ ys = front ++ 10 :: rest) :
    (∃ r, xs = front ++ 10 :: r ∧ rest = r ++ ys) ∨ ∃ front', ys = front' ++ 10 :: rest := by
  induction xs generalizing front with
  | nil => exact Or.inr ⟨front, h⟩
  | cons x xs ih =>
      cases front with
      | nil =>
          obtain ⟨rfl, rfl⟩ := List.cons.inj h
          exact Or.inl ⟨xs, rfl, rfl⟩
      | cons y front =>
          obtain ⟨rfl, htail⟩ := List.cons.inj h
          exact (ih htail).imp_left fun ⟨r, hxs, hrest⟩ => ⟨r, congrArg (x :: ·) hxs, hrest⟩

/-- Behind the end of a line no size line begins but those of the chunks. -/
theorem behind_lineEnd {front rest : Bytes} (hplain : ∀ chunk ∈ chunks, chunk.Plain)
    (h : encode chunks = front ++ 10 :: rest) :
    rest = [] ∨ (∃ x tail, rest = x :: tail ∧ next 1 x = none) ∨
      ∃ earlier later, earlier ≠ [] ∧ chunks = earlier ++ later ∧ rest = encode later := by
  induction chunks generalizing front with
  | nil =>
      rw [encode_nil] at h
      rcases lineEnd_cons h with ⟨hfalse, -⟩ | ⟨front, h⟩
      · cases hfalse
      rcases lineEnd_cons h with ⟨hfalse, -⟩ | ⟨front, h⟩
      · cases hfalse
      rcases lineEnd_cons h with ⟨-, rfl⟩ | ⟨front, h⟩
      · exact Or.inr (Or.inl ⟨13, [10], rfl, refuses_lineEnd.1⟩)
      rcases lineEnd_cons h with ⟨hfalse, -⟩ | ⟨front, h⟩
      · cases hfalse
      rcases lineEnd_cons h with ⟨-, rfl⟩ | ⟨front, h⟩
      · exact Or.inl rfl
      · simp at h
  | cons chunk chunks ih =>
      have hdata := hplain chunk List.mem_cons_self
      have hpos : 0 < chunk.size.value := chunk.size.pos
      have hlength := chunk.length_eq
      rw [encode_cons] at h
      rcases lineEnd_append h with ⟨r, hdigits, -⟩ | ⟨front, h⟩
      · have hmem : (10 : UInt8) ∈ chunk.size.digits := by
          rw [hdigits]
          exact List.mem_append_right front List.mem_cons_self
        exact absurd (List.all_eq_true.mp chunk.size.hex 10 hmem) (by decide)
      rcases lineEnd_cons h with ⟨hfalse, -⟩ | ⟨front, h⟩
      · cases hfalse
      rcases lineEnd_cons h with ⟨-, rfl⟩ | ⟨front, h⟩
      · cases hchunk : chunk.data with
        | nil => rw [hchunk] at hlength; exact absurd hlength hpos.ne
        | cons x tail =>
            exact Or.inr (Or.inl ⟨x, _, rfl, hdata x (hchunk ▸ List.mem_cons_self)⟩)
      rcases lineEnd_append h with ⟨r, hr, rfl⟩ | ⟨front, h⟩
      · cases r with
        | nil => exact Or.inr (Or.inl ⟨13, _, rfl, refuses_lineEnd.1⟩)
        | cons x tail =>
            refine Or.inr (Or.inl ⟨x, _, rfl, hdata x ?_⟩)
            rw [hr]
            simp
      rcases lineEnd_cons h with ⟨hfalse, -⟩ | ⟨front, h⟩
      · cases hfalse
      rcases lineEnd_cons h with ⟨-, rfl⟩ | ⟨front, h⟩
      · exact Or.inr (Or.inr ⟨[chunk], chunks, List.cons_ne_nil _ _, rfl, rfl⟩)
      · refine (ih (fun other hmem => hplain other (List.mem_cons_of_mem chunk hmem)) h).imp_right
          (Or.imp_right ?_)
        rintro ⟨earlier, later, hearlier, hchunks, hrest⟩
        exact ⟨chunk :: earlier, later, List.cons_ne_nil _ _, congrArg (chunk :: ·) hchunks, hrest⟩

theorem decoded_length_lt {earlier later : List Chunk} (h : earlier ≠ []) :
    (decoded later).length < (decoded (earlier ++ later)).length := by
  obtain ⟨chunk, rest, rfl⟩ := List.exists_cons_of_ne_nil h
  have hpos : 0 < chunk.size.value := chunk.size.pos
  have hlength := chunk.length_eq
  simp only [decoded, List.cons_append, List.flatMap_cons, List.flatMap_append, List.length_append]
  omega

/-! ## What is not decoded -/

/-- Chunks in whose data no size line begins are not decoded behind a header that is not final. -/
theorem not_decodes_of_overrun {start : Pieces} {fuel : Nat} {parser : HttpResponseParser}
    {data : Bytes} {s : Pieces} {held : Nat} {a : Arrivals}
    (hplain : ∀ chunk ∈ chunks, chunk.Plain)
    (hstands : Pieces.Stands (encode chunks) held a data s)
    (hchunked : parser.parser.chunked = true)
    (hrecv : recvHeader (start.input.length + 1) .new [] start = recvHeader fuel parser data s)
    {response : HttpResponse} {s' : Pieces}
    (hresponse : recvResponse start = .ok (some response, s')) :
    response.body ≠ decoded chunks := by
  have hkept : ∀ parser' data' s', recvHeader (start.input.length + 1) .new [] start =
      .ok (some (parser', data'), s') → parser'.parser.chunked = true := by
    intro parser' data' s' h
    rw [hrecv] at h
    exact (recvHeader_overrun hstands hchunked h).1
  obtain ⟨parser', data', s₁, fuel', last, hheader, hchunks⟩ := recvResponse_cases hkept hresponse
  rw [hrecv] at hheader
  obtain ⟨-, herror, front, rest, hsplit, hbehind⟩ := recvHeader_overrun hstands hchunked hheader
  rcases behind_lineEnd hplain hsplit with rfl | ⟨x, tail, rfl, hx⟩ |
    ⟨earlier, later, hearlier, rfl, rfl⟩
  · obtain ⟨s₂, hnone⟩ := recvChunks_empty fuel' parser' [] hbehind
    rw [hnone] at hchunks
    cases hchunks
  · obtain ⟨s₂, hnone⟩ := recvChunks_refused fuel' parser' [] hx hbehind
    rw [hnone] at hchunks
    cases hchunks
  · have hlength := (recvChunks_length fuel' [] herror
      (fun chunk hmem => hplain chunk (List.mem_append_right earlier hmem)) hbehind hchunks).1
    have hshort : (decoded later).length < (decoded (earlier ++ later)).length :=
      decoded_length_lt hearlier
    intro hbody
    rw [hbody, List.nil_append] at hlength
    omega

/--
Where something does not arrive, or the header is not final, data in which no size line begins is
not decoded.
-/
theorem not_decodes (hplain : ∀ chunk ∈ chunks, chunk.Plain)
    (h : ¬ (header.Finishes ∧ Arrives header (chunks.map Chunk.size) ends)) :
    ¬ Decodes header chunks ends := by
  rintro ⟨response, s', hresponse, hbody⟩
  have hheader := recvHeader_sent header chunks ends
  dsimp only at hheader
  split at hheader
  · rename_i hversion
    obtain ⟨fuel, parser, data, s, hrecv, hcs, hchunked, herror, hstands⟩ := hheader
    by_cases hfinal : header.Finishes
    · rw [settled_done herror (hcs.trans hfinal)] at hrecv
      have hkept : ∀ parser' data' s', recvHeader ((header.sent chunks ends).input.length + 1) .new
          [] (header.sent chunks ends) = .ok (some (parser', data'), s') →
            parser'.parser.chunked = true := by
        intro parser' data' s' hsame
        rw [hrecv] at hsame
        cases hsame
        exact hchunked
      obtain ⟨parser', data', s₁, fuel', last, hsame, hchunks⟩ :=
        recvResponse_cases hkept hresponse
      rw [hrecv] at hsame
      cases hsame
      have hlt := (recvChunks_length fuel' [] herror hplain hstands hchunks).2
        fun hsizes => h ⟨hfinal, hversion, hsizes⟩
      rw [hbody] at hlt
      exact Nat.lt_irrefl _ hlt
    · by_cases hzero : parser.parser.cs = 0
      · rw [settled_error (Or.inr hzero)] at hrecv
        simp only [recvResponse, hrecv, bind, Except.bind] at hresponse
        cases hresponse
      · rw [settled_open herror ⟨hzero, fun hlast => hfinal (hcs.symm.trans hlast)⟩] at hrecv
        exact not_decodes_of_overrun hplain hstands hchunked hrecv hresponse hbody
  · obtain ⟨s₁, hnone⟩ := hheader
    simp only [recvResponse, hnone, bind, Except.bind] at hresponse
    cases hresponse

/-- A chunk of zeros. -/
def ChunkSize.zeros (size : ChunkSize) : Chunk where
  size := size
  data := List.replicate size.value 0
  length_eq := List.length_replicate

theorem ChunkSize.plain_zeros (size : ChunkSize) : size.zeros.Plain := by
  have hzero : next 1 0 = none := by
    unfold next
    rfl
  intro x hx
  rw [List.eq_of_mem_replicate hx]
  exact hzero

/--
Chunks of given sizes are decoded whatever they hold if and only if the header is final to the
parser and the last calls on the version and on the size lines get what they need; and of chunks
that hold nothing that could be taken for a size line the same is true one by one.
-/
theorem chunks_decode_iff (header : ChunkedHeader) (sizes : List ChunkSize) (ends : Nat → Bool) :
    ((∀ chunks : List Chunk, chunks.map Chunk.size = sizes → Decodes header chunks ends) ↔
      header.Finishes ∧ Arrives header sizes ends) ∧
    ∀ chunks : List Chunk, chunks.map Chunk.size = sizes → (∀ chunk ∈ chunks, chunk.Plain) →
      (Decodes header chunks ends ↔ header.Finishes ∧ Arrives header sizes ends) := by
  have hplain : ∀ chunks : List Chunk, chunks.map Chunk.size = sizes →
      (∀ chunk ∈ chunks, chunk.Plain) →
      (Decodes header chunks ends ↔ header.Finishes ∧ Arrives header sizes ends) := by
    rintro chunks rfl hplain
    exact ⟨fun hdecodes => by_contra fun h => not_decodes hplain h hdecodes,
      fun h => decodes_of_arrives h.1 h.2⟩
  refine ⟨⟨fun hdecodes => ?_, ?_⟩, hplain⟩
  · have hsizes : (sizes.map ChunkSize.zeros).map Chunk.size = sizes := by
      rw [List.map_map]
      exact List.map_id sizes
    refine (hplain _ hsizes fun chunk hchunk => ?_).mp (hdecodes _ hsizes)
    obtain ⟨size, -, rfl⟩ := List.mem_map.mp hchunk
    exact size.plain_zeros
  · rintro ⟨hfinishes, harrives⟩ chunks rfl
    exact decodes_of_arrives hfinishes harrives

def chunkedHello : ChunkedHeader where
  version := ascii "HTTP/1.1"
  behind := ascii "200 OK\r\nTransfer-Encoding: chunked\r\n\r\n"
  last := 120
  version_mem := by decide +kernel
  completes := ⟨by decide +kernel, by decide +kernel, by decide +kernel, by decide +kernel⟩

def hello : Chunk where
  size := ⟨ascii "5", by decide, by decide, by decide⟩
  data := ascii "hello"
  length_eq := by decide

/-- A piece ends behind the digit of a size. -/
theorem size_line_cut : ¬ Decodes chunkedHello [hello] (fun i => i = 47) := by
  have hnull : ((recvResponse (chunkedHello.sent [hello] (fun i => i = 47))).toOption.map
      fun result => result.1.isNone) = some true := by
    decide +kernel
  rintro ⟨response, s, hresponse, -⟩
  rw [hresponse] at hnull
  cases hnull

/-- Of a header with an empty `Connection` at its end the parser never says that it is finished. -/
example : Watch.start.Completes 1
    (ascii "HTTP/1.1 200 OK\r\nTransfer-Encoding: chunked\r\nConnection:\r\n\r\n") 122 :=
  ⟨by decide +kernel, by decide +kernel, by decide +kernel, by decide +kernel⟩

example : Arrives chunkedHello [hello.size] (fun i => i = 46 || i = 49) := by decide +kernel

end Qslary.Http

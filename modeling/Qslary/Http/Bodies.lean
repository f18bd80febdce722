import Qslary.Foundation.Block
import Qslary.Http.Receiving

/-!
# Bodies of a declared length

The body is made as long as the header says, what is left in the buffer is copied to its
front, and `readFixSize` writes the rest behind it.  Here the body and the buffer are
blocks of cells, and a copy is checked against both.  A stream that fails is one that ends
there.
-/

namespace Qslary.Http

open Qslary.Foundation

/-! ## Sockets -/

/-- What a socket can be read from; no bytes stand for a result that is not positive. -/
class Source (σ : Type) where
  read : σ → Nat → Bytes × σ
  close : σ → σ
  isConnected : σ → Bool
  /-- What arrives before the stream ends or fails. -/
  remaining : σ → Bytes
  read_ne_nil : ∀ {s : σ} {length : Nat}, 0 < length → remaining s ≠ [] → (read s length).1 ≠ []
  length_read_le : ∀ (s : σ) (length : Nat), (read s length).1.length ≤ length
  read_append : ∀ (s : σ) (length : Nat),
    (read s length).1 ++ remaining (read s length).2 = remaining s
  isConnected_read : ∀ (s : σ) (length : Nat), isConnected (read s length).2 = isConnected s
  isConnected_close : ∀ s : σ, isConnected (close s) = false

instance : Source Stream where
  read := Stream.read
  close := Stream.close
  isConnected := Stream.connected
  remaining s := if s.connected then s.input else []
  read_ne_nil := by
    intro s length hpos hremaining
    cases hconnected : s.connected with
    | false => simp [hconnected] at hremaining
    | true =>
        rw [hconnected, if_pos rfl] at hremaining
        have hcount := Stream.count_pos hpos hremaining
        rw [Stream.read_connected hconnected hremaining]
        simp only [ne_eq, List.take_eq_nil_iff, not_or]
        exact ⟨by omega, hremaining⟩
  length_read_le := by
    intro s length
    have hcount := Stream.count_le s length
    unfold Stream.read
    split
    · rw [List.length_take]
      omega
    · exact Nat.zero_le _
  read_append := by
    intro s length
    unfold Stream.read
    split
    · rename_i hready
      have hconnected : s.connected = true := (Bool.and_eq_true_iff.mp hready).1
      simp only [hconnected, if_true]
      exact List.take_append_drop _ _
    · rfl
  isConnected_read := by
    intro s length
    unfold Stream.read
    split
    · rfl
    · rfl
  isConnected_close _ := rfl

theorem arrived_prefix (ends : Nat → Bool) (length : Nat) (input : Bytes) :
    Pieces.arrived ends length input ++ input.drop (Pieces.arrived ends length input).length =
      input := by
  induction length generalizing ends input with
  | zero => rfl
  | succ length ih =>
      cases input with
      | nil => rfl
      | cons x rest =>
          unfold Pieces.arrived
          split
          · rfl
          · exact congrArg (x :: ·) (ih _ rest)

theorem length_arrived_le (ends : Nat → Bool) (length : Nat) (input : Bytes) :
    (Pieces.arrived ends length input).length ≤ length := by
  induction length generalizing ends input with
  | zero => exact Nat.le_refl 0
  | succ length ih =>
      cases input with
      | nil => exact Nat.zero_le _
      | cons x rest =>
          unfold Pieces.arrived
          split
          · exact Nat.succ_le_succ (Nat.zero_le _)
          · exact Nat.succ_le_succ (ih _ rest)

theorem arrived_ne_nil {ends : Nat → Bool} {length : Nat} {input : Bytes} (hpos : 0 < length)
    (hinput : input ≠ []) : Pieces.arrived ends length input ≠ [] := by
  cases length with
  | zero => cases hpos
  | succ length =>
      cases input with
      | nil => exact absurd rfl hinput
      | cons x rest =>
          unfold Pieces.arrived
          split
          · exact List.cons_ne_nil _ _
          · exact List.cons_ne_nil _ _

instance : Source Pieces where
  read := Pieces.read
  close := Pieces.close
  isConnected := Pieces.connected
  remaining s := if s.connected then s.input else []
  read_ne_nil := by
    intro s length hpos hremaining
    cases hconnected : s.connected with
    | false => simp [hconnected] at hremaining
    | true =>
        rw [hconnected, if_pos rfl] at hremaining
        rw [Pieces.read, if_pos hconnected]
        exact arrived_ne_nil hpos hremaining
  length_read_le := by
    intro s length
    unfold Pieces.read
    split
    · exact length_arrived_le _ _ _
    · exact Nat.zero_le _
  read_append := by
    intro s length
    unfold Pieces.read
    split
    · rename_i hconnected
      simp only [Pieces.after, hconnected, if_true]
      exact arrived_prefix _ _ _
    · rfl
  isConnected_read := by
    intro s length
    unfold Pieces.read
    split
    · rfl
    · rfl
  isConnected_close _ := rfl

/-! ## The copies -/

inductive Overrun where
  | body
  | buffer
  deriving DecidableEq, Repr

namespace Source

variable {σ : Type} [Source σ]

/-- The loop of `readFixSize`: nothing if a read fails. -/
def gather : Nat → σ → Nat → Option Bytes × σ
  | _, s, 0 => (some [], s)
  | 0, s, _ + 1 => (none, s)
  | fuel + 1, s, left + 1 =>
      match read s (left + 1) with
      | ([], s) => (none, s)
      | (bytes, s) =>
          match gather fuel s (left + 1 - bytes.length) with
          | (some rest, s) => (some (bytes ++ rest), s)
          | (none, s) => (none, s)

/-- `&body[0] <- data`, as `memcpy`. -/
def memcpy (body data : Bytes) (n : Nat) : Except Overrun Bytes :=
  if data.length < n then .error .buffer
  else
    match Block.blit body 0 (data.take n) with
    | some body => .ok body
    | none => .error .body

/-- The same loop over the cells of the body from `position` on. -/
def readInto : Nat → σ → Bytes → Nat → Nat → Except Overrun (Bool × Bytes × σ)
  | _, s, body, _, 0 => .ok (true, body, s)
  | 0, s, body, _, _ + 1 => .ok (false, body, s)
  | fuel + 1, s, body, position, left + 1 =>
      -- A read may fill all of what it is given.
      if body.length < position + (left + 1) then .error .body
      else
        match read s (left + 1) with
        | ([], s) => .ok (false, body, s)
        | (bytes, s) =>
            match Block.blit body position bytes with
            | some body => readInto fuel s body (position + bytes.length) (left + 1 - bytes.length)
            | none => .error .body

/-- `readFixSize(&body[position], length)` -/
def readFixSize (s : σ) (body : Bytes) (position length : Nat) :
    Except Overrun (Int × Bytes × σ) := do
  let (done, body, s) ← readInto length s body position length
  .ok (if done then Stream.toInt length else 0, body, s)

/-- The fixed-length path, for a length that is positive. -/
def assemble (length : Int) (data : Bytes) (offset : Nat) (s : σ) :
    Except Overrun (Option Bytes × σ) := do
  let body := List.replicate length.toNat 0
  let len := if offset ≤ length then offset else length.toNat
  let body ← memcpy body data len
  let length := length - offset
  if 0 < length then
    let (result, body, s) ← readFixSize s body len length.toNat
    if result ≤ 0 then .ok (none, close s) else .ok (some body, s)
  else .ok (some body, s)

/-! ## What the copies come to -/

theorem gather_succ (fuel : Nat) (s : σ) (left : Nat) :
    gather (fuel + 1) s (left + 1) =
      if (read s (left + 1)).1 = [] then (none, (read s (left + 1)).2)
      else
        let rest := gather fuel (read s (left + 1)).2 (left + 1 - (read s (left + 1)).1.length)
        (rest.1.map ((read s (left + 1)).1 ++ ·), rest.2) := by
  rw [gather]
  cases read s (left + 1) with
  | mk bytes s' =>
      cases bytes with
      | nil => rfl
      | cons byte bytes =>
          rw [if_neg (List.cons_ne_nil _ _)]
          dsimp only
          split
          · rename_i heq
            rw [heq]
            rfl
          · rename_i heq
            rw [heq]
            rfl

theorem isConnected_gather (fuel : Nat) (s : σ) (left : Nat) :
    isConnected (gather fuel s left).2 = isConnected s := by
  induction fuel generalizing s left with
  | zero =>
      cases left with
      | zero => rfl
      | succ left => rfl
  | succ fuel ih =>
      cases left with
      | zero => rfl
      | succ left =>
          rw [gather_succ]
          split
          · exact isConnected_read s (left + 1)
          · exact (ih _ _).trans (isConnected_read s (left + 1))

theorem read_eq_nil_iff {s : σ} {length : Nat} (hpos : 0 < length) :
    (read s length).1 = [] ↔ remaining s = [] := by
  constructor
  · intro hnil
    by_contra hne
    exact read_ne_nil hpos hne hnil
  · intro hnil
    have happend := read_append s length
    rw [hnil, List.append_eq_nil_iff] at happend
    exact happend.1

/-- However the reads go, the loop gets the bytes that are next. -/
theorem gather_of_le {fuel left : Nat} {s : σ} (hfuel : left ≤ fuel)
    (hle : left ≤ (remaining s).length) :
    (gather fuel s left).1 = some ((remaining s).take left) ∧
      remaining (gather fuel s left).2 = (remaining s).drop left := by
  induction fuel generalizing s left with
  | zero =>
      obtain rfl : left = 0 := Nat.le_zero.mp hfuel
      exact ⟨rfl, rfl⟩
  | succ fuel ih =>
      cases left with
      | zero => exact ⟨rfl, rfl⟩
      | succ left =>
          have happend := read_append s (left + 1)
          have hread := length_read_le s (left + 1)
          have hne : (read s (left + 1)).1 ≠ [] := by
            rw [ne_eq, read_eq_nil_iff (Nat.succ_pos left)]
            intro hnil
            rw [hnil] at hle
            cases hle
          have hpos := List.length_pos_iff.mpr hne
          have hlength := congrArg List.length happend
          rw [List.length_append] at hlength
          obtain ⟨hrest, hstream⟩ := @ih (left + 1 - (read s (left + 1)).1.length)
            (read s (left + 1)).2 (by omega) (by omega)
          rw [gather_succ, if_neg hne]
          dsimp only
          rw [hrest, hstream, ← happend, Option.map_some, List.take_append, List.drop_append,
            List.take_of_length_le hread, List.drop_of_length_le hread]
          exact ⟨rfl, rfl⟩

theorem gather_of_lt {fuel left : Nat} {s : σ} (hlt : (remaining s).length < left) :
    (gather fuel s left).1 = none := by
  induction fuel generalizing s left with
  | zero =>
      cases left with
      | zero => cases hlt
      | succ left => rfl
  | succ fuel ih =>
      cases left with
      | zero => cases hlt
      | succ left =>
          have hlength := congrArg List.length (read_append s (left + 1))
          have hread := length_read_le s (left + 1)
          rw [List.length_append] at hlength
          rw [gather_succ]
          split
          · rfl
          · rename_i hne
            have hpos := List.length_pos_iff.mpr hne
            dsimp only
            rw [ih (by omega)]
            rfl

/-- Written into a body that is long enough, the bytes are where the loop is told to put them. -/
theorem readInto_eq {fuel position left : Nat} {s : σ} {body : Bytes} (hfuel : left ≤ fuel)
    (hfits : position + left ≤ body.length) :
    ∃ written, readInto fuel s body position left =
        .ok ((gather fuel s left).1.isSome, written, (gather fuel s left).2) ∧
      ∀ bytes, (gather fuel s left).1 = some bytes →
        written = body.take position ++ bytes ++ body.drop (position + left) := by
  induction fuel generalizing s position left body with
  | zero =>
      obtain rfl : left = 0 := Nat.le_zero.mp hfuel
      refine ⟨body, rfl, fun bytes hbytes => ?_⟩
      cases hbytes
      simp
  | succ fuel ih =>
      cases left with
      | zero =>
          refine ⟨body, rfl, fun bytes hbytes => ?_⟩
          cases hbytes
          simp
      | succ left =>
          have hread := length_read_le s (left + 1)
          rw [readInto, if_neg (by omega), gather_succ]
          cases heq : read s (left + 1) with
          | mk bytes s' =>
              rw [heq] at hread
              dsimp only at hread
              cases bytes with
              | nil => exact ⟨body, rfl, nofun⟩
              | cons byte bytes =>
                  obtain ⟨next, hnext⟩ : ∃ next, Block.blit body position (byte :: bytes) = some next :=
                    ⟨_, Block.blit_eq (by omega)⟩
                  have hlength := Block.length_blit hnext
                  have hpos : 0 < (byte :: bytes).length := Nat.succ_pos _
                  obtain ⟨written, hrest, hwritten⟩ := @ih
                    (position + (byte :: bytes).length) (left + 1 - (byte :: bytes).length) s' next
                    (by omega) (by omega)
                  rw [if_neg (List.cons_ne_nil _ _)]
                  refine ⟨written, ?_, fun all hall => ?_⟩
                  · simp only [hnext, hrest, Option.isSome_map]
                  · obtain ⟨rest, hgather, rfl⟩ := Option.map_eq_some_iff.mp hall
                    rw [hwritten rest hgather, Block.take_blit hnext,
                      Block.drop_blit hnext (by omega), List.append_assoc, List.append_assoc,
                      List.append_assoc, List.append_assoc]
                    congr 4
                    omega

/-! ## The whole path -/

theorem memcpy_eq {body data : Bytes} {n : Nat} (hdata : n ≤ data.length)
    (hbody : n ≤ body.length) : memcpy body data n = .ok (data.take n ++ body.drop n) := by
  have hlen : (data.take n).length = n := List.length_take_of_le hdata
  unfold memcpy
  rw [if_neg (by omega), Block.blit_eq (by omega), hlen]
  simp

/-- The first bytes of what is there, with the stream left behind them, or a closed socket. -/
def Assembled (length : Nat) (buffered : Bytes) (s : σ) (result : Option Bytes × σ) : Prop :=
  if length ≤ buffered.length + (remaining s).length then
    result.1 = some ((buffered ++ remaining s).take length) ∧
      remaining result.2 = (remaining s).drop (length - buffered.length) ∧
      isConnected result.2 = isConnected s
  else result.1 = none ∧ isConnected result.2 = false

theorem toInt_pos {length : Nat} (hpos : 0 < length) (hlt : length < 2 ^ 31) :
    0 < Stream.toInt length := by
  unfold Stream.toInt
  rw [Nat.mod_eq_of_lt (by omega), if_pos hlt]
  omega

/-- `gather`, with the bytes behind those from the buffer. -/
def gatherBody (length : Nat) (buffered : Bytes) (s : σ) : Option Bytes × σ :=
  if length ≤ buffered.length then (some (buffered.take length), s)
  else
    match gather (length - buffered.length) s (length - buffered.length) with
    | (some bytes, s) => (some (buffered ++ bytes), s)
    | (none, s) => (none, close s)

theorem gatherBody_assembled (length : Nat) (buffered : Bytes) (s : σ) :
    Assembled length buffered s (gatherBody length buffered s) := by
  unfold Assembled gatherBody
  by_cases hbuffered : length ≤ buffered.length
  · rw [if_pos hbuffered, if_pos (by omega), List.take_append_of_le_length hbuffered,
      Nat.sub_eq_zero_of_le hbuffered]
    exact ⟨rfl, rfl, rfl⟩
  · rw [if_neg hbuffered]
    have hconnected := isConnected_gather (length - buffered.length) s (length - buffered.length)
    by_cases henough : length ≤ buffered.length + (remaining s).length
    · obtain ⟨hbytes, hstream⟩ := gather_of_le (s := s) (Nat.le_refl (length - buffered.length))
        (by omega)
      rw [if_pos henough, List.take_append, List.take_of_length_le (by omega)]
      cases hgather : gather (length - buffered.length) s (length - buffered.length) with
      | mk got s' =>
          rw [hgather] at hbytes hstream hconnected
          dsimp only at hbytes hstream hconnected
          rw [hbytes]
          exact ⟨rfl, hstream, hconnected⟩
    · have hnone : (gather (length - buffered.length) s (length - buffered.length)).1 = none :=
        gather_of_lt (by omega)
      rw [if_neg henough]
      cases hgather : gather (length - buffered.length) s (length - buffered.length) with
      | mk got s' =>
          rw [hgather] at hnone
          dsimp only at hnone
          rw [hnone]
          exact ⟨rfl, isConnected_close s'⟩

/-- With a buffer that holds what it should, no copy goes outside. -/
theorem assemble_eq {length offset : Nat} {data : Bytes} (s : σ) (hpos : 0 < length)
    (hlt : length < 2 ^ 31) (hoffset : offset ≤ data.length) :
    assemble length data offset s = .ok (gatherBody length (data.take offset) s) := by
  have htake : (data.take offset).length = offset := List.length_take_of_le hoffset
  have hbody : (List.replicate length (0 : UInt8)).length = length := List.length_replicate
  unfold assemble gatherBody
  rw [Int.toNat_natCast, htake]
  by_cases hle : length ≤ offset
  · have hlen : (if (offset : Int) ≤ length then offset else length) = length := by
      split
      · omega
      · rfl
    have hrest : ¬ (0 : Int) < (length : Int) - offset := by omega
    have hcopy : memcpy (List.replicate length 0) data length = .ok (data.take length) := by
      rw [memcpy_eq (by omega) hbody.ge, List.drop_of_length_le hbody.le, List.append_nil]
    rw [hlen, if_pos hle, List.take_take, Nat.min_eq_left hle]
    simp only [hcopy, bind, Except.bind, if_neg hrest]
  · have hoff : (offset : Int) ≤ length := by omega
    have hrest : (0 : Int) < (length : Int) - offset := by omega
    have hleft : ((length : Int) - offset).toNat = length - offset := by omega
    have hdone : 0 < Stream.toInt (length - offset) := toInt_pos (by omega) (by omega)
    generalize hcopied : data.take offset ++ (List.replicate length 0).drop offset = copied
    have hlength : copied.length = length := by
      rw [← hcopied, List.length_append, htake, List.length_drop, hbody]
      omega
    have hcopy : memcpy (List.replicate length 0) data offset = .ok copied := by
      rw [memcpy_eq hoffset (by omega), hcopied]
    have hfits : offset + (length - offset) ≤ copied.length := by omega
    obtain ⟨written, hread, hwritten⟩ := readInto_eq (s := s) (Nat.le_refl _) hfits
    rw [if_pos hoff, if_neg hle]
    simp only [hcopy, bind, Except.bind, if_pos hrest, hleft, readFixSize, hread]
    cases hgather : gather (length - offset) s (length - offset) with
    | mk got s' =>
        cases got with
        | none => rfl
        | some bytes =>
            have hbytes := hwritten bytes (by rw [hgather])
            rw [← hcopied, List.take_append_of_le_length htake.ge, List.take_of_length_le htake.le,
              hcopied, List.drop_of_length_le (by omega), List.append_nil] at hbytes
            simp only [Option.isSome_some, if_true, if_neg (Int.not_le.mpr hdone), hbytes]

/-- What a `readFixSize` returns of its loop. -/
def returned (length : Nat) : Option Bytes × σ → Int × Bytes × σ
  | (some bytes, s) => (Stream.toInt length, bytes, s)
  | (none, s) => (0, [], s)

/-- The same path without the cells, as both sides have it over a `readFixSize` of their own. -/
theorem fixedBody_eq {length : Nat} {s : σ} {readFixSize : Nat → Int × Bytes × σ}
    (hlt : length < 2 ^ 31) (data : Bytes)
    (hread : ∀ left, readFixSize left = returned left (gather left s left)) :
    (let copied := if (data.length : Int) ≤ length then data else data.take (length : Int).toNat
      let rest := (length : Int) - data.length
      if 0 < rest then
        match readFixSize rest.toNat with
        | (result, bytes, s) =>
            if result ≤ 0 then (none, close s) else (some (copied ++ bytes), s)
      else (some copied, s)) = gatherBody length data s := by
  unfold gatherBody
  by_cases hle : length ≤ data.length
  · have hrest : ¬ (0 : Int) < (length : Int) - data.length := by omega
    rw [if_pos hle]
    simp only [if_neg hrest, Int.toNat_natCast]
    split
    · rw [List.take_of_length_le (by omega)]
    · rfl
  · have hrest : (0 : Int) < (length : Int) - data.length := by omega
    have hleft : ((length : Int) - data.length).toNat = length - data.length := by omega
    have hdone : 0 < Stream.toInt (length - data.length) := toInt_pos (by omega) (by omega)
    have hcopied : (data.length : Int) ≤ length := by omega
    simp only [if_neg hle, if_pos hrest, hleft, if_pos hcopied, hread, returned]
    cases hgather : gather (length - data.length) s (length - data.length) with
    | mk got s' =>
        cases got with
        | none => rfl
        | some bytes => simp only [if_neg (Int.not_le.mpr hdone)]

end Source

/-! ## Requests and responses -/

theorem Stream.readLoop_eq_gather (fuel : Nat) (s : Stream) (left : Nat) :
    readLoop fuel s left = Source.gather fuel s left := by
  induction fuel generalizing s left with
  | zero =>
      cases left with
      | zero => rfl
      | succ left => rfl
  | succ fuel ih =>
      cases left with
      | zero => rfl
      | succ left =>
          have hread : Source.read s (left + 1) = s.read (left + 1) := rfl
          rw [Source.gather_succ, readLoop, hread]
          cases s.read (left + 1) with
          | mk bytes s' =>
              cases bytes with
              | nil => rfl
              | cons byte bytes =>
                  simp only [ih, if_neg (List.cons_ne_nil byte bytes)]
                  split
                  · rename_i heq
                    rw [heq]
                    rfl
                  · rename_i heq
                    rw [heq]
                    rfl

theorem Stream.readFixSize_eq_gather (s : Stream) (length : Nat) :
    s.readFixSize length = Source.returned length (Source.gather length s length) := by
  rw [readFixSize, readLoop_eq_gather]
  cases Source.gather length s length with
  | mk got s' =>
      cases got with
      | none => rfl
      | some bytes => rfl

/-- A bound that is not reached makes no difference. -/
theorem Pieces.readAll_eq_gather {bound : Nat} (fuel : Nat) (s : Pieces) {left : Nat}
    (hbound : left ≤ bound) : s.readAll bound fuel left = Source.gather fuel s left := by
  induction fuel generalizing s left with
  | zero =>
      cases left with
      | zero => rfl
      | succ left => rfl
  | succ fuel ih =>
      cases left with
      | zero => rfl
      | succ left =>
          have hrest : ∀ (s' : Pieces) (n : Nat), s'.readAll bound fuel (left + 1 - n) =
              Source.gather fuel s' (left + 1 - n) := fun s' n => ih s' (by omega)
          have hread : Source.read s (left + 1) = s.read (left + 1) := rfl
          rw [Source.gather_succ, readAll, Nat.min_eq_left hbound, hread]
          cases s.read (left + 1) with
          | mk bytes s' =>
              cases bytes with
              | nil => rfl
              | cons byte bytes =>
                  simp only [hrest, if_neg (List.cons_ne_nil byte bytes)]
                  split
                  · rename_i heq
                    rw [heq]
                    rfl
                  · rename_i heq
                    rw [heq]
                    rfl

theorem Pieces.readFixSize_eq_gather (s : Pieces) (length : Nat) :
    s.readFixSize length = Source.returned length (Source.gather length s length) := by
  rw [readFixSize, readAll_eq_gather _ _ (Nat.le_refl length)]
  cases Source.gather length s length with
  | mk got s' =>
      cases got with
      | none => rfl
      | some bytes => rfl

namespace HttpSession

/-- The fixed-length path of `recvRequest`; its buffer has `buff_size` cells. -/
def assembleBody (length : Int) (data : Bytes) (offset : Nat) (stream : Stream) :
    Except Overrun (Option Bytes × Stream) :=
  Source.assemble length data offset stream

theorem recvBody_eq {length : Nat} (hlt : length < 2 ^ 31) (data : Bytes) (stream : Stream) :
    recvBody length data stream = Source.gatherBody length data stream :=
  Source.fixedBody_eq hlt data stream.readFixSize_eq_gather

end HttpSession

namespace HttpConnection

/-- The fixed-length path of `recvResponse`; its buffer has one cell more. -/
def assembleBody (length : Int) (data : Bytes) (offset : Nat) (s : Pieces) :
    Except Overrun (Option Bytes × Pieces) :=
  if 0 < length then Source.assemble length data offset s else .ok (some [], s)

theorem recvFixed_eq {length : Nat} (hpos : 0 < length) (hlt : length < 2 ^ 31) (data : Bytes)
    (s : Pieces) : recvFixed length data s = Source.gatherBody length data s := by
  have hlength : ¬ (length : Int) ≤ 0 := by omega
  rw [recvFixed, if_neg hlength]
  exact Source.fixedBody_eq hlt data s.readFixSize_eq_gather

end HttpConnection

open Source

theorem HttpSession.recvRequest_eq {memory : HttpParser} {first stream : Stream} {length : Nat}
    {parser : HttpRequestParser} {buffered : Bytes} (hpos : 0 < length) (hlt : length < 2 ^ 31)
    (hheader : recvHeader (first.input.length + 1) (.new memory) [] first =
      .ok (some (parser, buffered), stream))
    (hlength : toInt64 parser.data.getContentLength = length) :
    recvRequest memory first =
      .ok ((gatherBody length buffered stream).1.map fun body =>
        HttpRequest.init { parser.data with body := body },
        (gatherBody length buffered stream).2) := by
  have hpath : (0 : Int) < length := by omega
  unfold recvRequest
  simp only [hheader, bind, Except.bind, hlength, if_pos hpath, recvBody_eq hlt]
  cases gatherBody length buffered stream with
  | mk body s =>
      cases body with
      | none => rfl
      | some body => rfl

theorem HttpConnection.recvResponse_eq {first s : Pieces} {length : Nat}
    {parser : HttpResponseParser} {buffered : Bytes} (hpos : 0 < length) (hlt : length < 2 ^ 31)
    (hheader : recvHeader (first.input.length + 1) .new [] first =
      .ok (some (parser, buffered), s))
    (hchunked : parser.parser.chunked = false)
    (hlength : toInt64 parser.getContentLength = length) :
    recvResponse first =
      .ok ((gatherBody length buffered s).1.map fun body => { parser.data with body := body },
        (gatherBody length buffered s).2) := by
  unfold recvResponse
  simp only [hheader, bind, Except.bind, hchunked, hlength, recvFixed_eq hpos hlt]
  cases gatherBody length buffered s with
  | mk body s' =>
      cases body with
      | none => rfl
      | some body => rfl

/--
Whatever is left in the buffer and however the reads go, the copies stay inside and the
body is the first bytes of both, or the socket is closed.
-/
theorem declared_body_exact {length offset : Nat} (hpos : 1 ≤ length) (hlt : length < 2 ^ 31)
    (hoffset : offset ≤ 65532) :
    (∀ (data : Bytes) (stream : Stream), data.length = HttpSession.buffSize →
      ∃ result, HttpSession.assembleBody length data offset stream = .ok result ∧
        Assembled length (data.take offset) stream result ∧
        ∀ memory first parser, HttpSession.recvHeader (first.input.length + 1) (.new memory) []
            first = .ok (some (parser, data.take offset), stream) →
          toInt64 parser.data.getContentLength = length →
          HttpSession.recvRequest memory first = .ok (result.1.map fun body =>
            HttpRequest.init { parser.data with body := body }, result.2)) ∧
    ∀ (data : Bytes) (s : Pieces), data.length = HttpConnection.buffSize + 1 →
      ∃ result, HttpConnection.assembleBody length data offset s = .ok result ∧
        Assembled length (data.take offset) s result ∧
        ∀ first parser, HttpConnection.recvHeader (first.input.length + 1) .new [] first =
            .ok (some (parser, data.take offset), s) →
          parser.parser.chunked = false → toInt64 parser.getContentLength = length →
          HttpConnection.recvResponse first = .ok (result.1.map fun body =>
            { parser.data with body := body }, result.2) := by
  constructor
  · intro data stream hdata
    have hcells : offset ≤ data.length := hdata ▸ hoffset
    refine ⟨_, assemble_eq stream hpos hlt hcells, gatherBody_assembled _ _ _, ?_⟩
    intro memory first parser hheader hlength
    exact HttpSession.recvRequest_eq hpos hlt hheader hlength
  · intro data s hdata
    have hcells : offset ≤ data.length := by
      rw [hdata]
      exact Nat.le_succ_of_le hoffset
    have hpath : (0 : Int) < length := by omega
    refine ⟨_, (if_pos hpath).trans (assemble_eq s hpos hlt hcells), gatherBody_assembled _ _ _, ?_⟩
    intro first parser hheader hchunked hlength
    exact HttpConnection.recvResponse_eq hpos hlt hheader hchunked hlength

theorem declared_body_exact_five :
    ∃ result, HttpSession.assembleBody 5 (List.replicate HttpSession.buffSize 7) 2
        ⟨[1, 2, 3, 4], fun _ => 1, true⟩ = .ok result ∧
      Assembled 5 ((List.replicate HttpSession.buffSize 7).take 2)
        (⟨[1, 2, 3, 4], fun _ => 1, true⟩ : Stream) result := by
  obtain ⟨result, hassemble, hassembled, -⟩ :=
    (declared_body_exact (by decide : 1 ≤ 5) (by decide) (by decide : 2 ≤ 65532)).1
      (List.replicate HttpSession.buffSize 7) ⟨[1, 2, 3, 4], fun _ => 1, true⟩
      List.length_replicate
  exact ⟨result, hassemble, hassembled⟩

end Qslary.Http

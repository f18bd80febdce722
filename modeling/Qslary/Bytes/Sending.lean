import Qslary.Bytes.Fifo
import Qslary.Streams.FixedSize

/-!
# Sending from a byte array

`writeFixSize(bytearray, length)` sends what is left of the length in one `iovec` at a time.
`GetReadBuffer` moves the read index over all of it before the socket has taken any, so that
bytes that the socket leaves are skipped.
-/

namespace Qslary.Bytes

open Qslary.Foundation
open Qslary.Http.Stream (toInt)
open Qslary.Streams (toLeft toLeft_eq toInt_eq)

/-- An array and a socket; `answers` is what the socket would return if it were given enough. -/
structure Sending where
  array : ByteArray
  answers : Nat → Int
  connected : Bool
  sent : Bytes

namespace Sending

/-- `send(iovec *, 1)` -/
def send (s : Sending) (iov : Bytes) : Int × Sending :=
  let ret := min (s.answers 0) iov.length
  (ret, { s with answers := fun i => s.answers (i + 1), sent := s.sent ++ iov.take ret.toNat })

/-- `SockStream::write(bytearray, length)` -/
def write (s : Sending) (length : Nat) : Except Fault (Int × Sending) :=
  if s.connected == false then .ok (-1, s)
  else do
    let (array, iov) ← s.array.GetReadBuffer length
    return { s with array := array }.send iov

/-- `writeFixSize(bytearray, length)`, whose loop has no use for an offset. -/
def writeFixSize (s : Sending) (length : Nat) : Except Fault (Int × Sending) := do
  let (early, s) ← transfer (fun s _ left => s.write left) s 0 (toLeft length)
  return (early.getD (toInt length), s)

/-- The bytes that were sent are those that are no longer readable. -/
structure SentOnce (s : Sending) (n : Nat) (ret : Int) (s' : Sending) : Prop where
  sent_all : ret = n → s'.sent = s.array.content.take n ∧
    s'.array.content = s.array.content.drop n
  sent_some : ret ≠ n → ∃ k ≤ s.array.content.length, s'.sent = s.array.content.take k ∧
    s'.array.content = s.array.content.drop k

/-! ## One call -/

variable {s s' : Sending} {n : Nat}

theorem write_disconnected (h : s.connected = false) (length : Nat) :
    s.write length = .ok (-1, s) := by
  rw [write, h]
  rfl

/-- The state after a call that the socket answers. -/
def after (s : Sending) (length : Nat) (ret : Int) : Sending where
  array := s.array.advance (min length s.array.content.length)
  answers i := s.answers (i + 1)
  connected := s.connected
  sent := s.sent ++ (s.array.content.take length).take ret.toNat

theorem write_connected (hb : s.array.WF) (h : s.connected = true) (length : Nat) :
    s.write length =
      .ok (min (s.answers 0) (s.array.content.take length).length,
        s.after length (min (s.answers 0) (s.array.content.take length).length)) := by
  have hopen : ¬ ((s.connected == false) = true) := by simp [h]
  rw [write, if_neg hopen, ByteArray.getReadBuffer_spec hb]
  rfl

/-- More bytes are gone from `total` than have been sent. -/
structure Drifted (total : Nat) (s : Sending) : Prop where
  wf : s.array.WF
  drifted : s.array.content.length + s.sent.length < total

theorem length_after (hb : s.array.WF) (length : Nat) (ret : Int)
    (hret : ret ≤ (s.array.content.take length).length) :
    (s.after length ret).array.WF ∧
      (s.after length ret).array.content = s.array.content.drop length ∧
      (s.after length ret).sent.length = s.sent.length + ret.toNat := by
  refine ⟨hb.advance length, ByteArray.content_advance s.array length, ?_⟩
  rw [after, List.length_append, List.length_take_of_le (by omega)]

theorem Drifted.write {total length : Nat} {ret : Int} (hs : Drifted total s)
    (h : s.write length = .ok (ret, s')) : Drifted total s' := by
  cases hconnected : s.connected with
  | false =>
      rw [write_disconnected hconnected] at h
      cases h
      exact hs
  | true =>
      rw [write_connected hs.wf hconnected] at h
      cases h
      have hdrifted := hs.drifted
      obtain ⟨hwf, hcontent, hsent⟩ := length_after hs.wf length _ (min_le_right (s.answers 0) _)
      refine ⟨hwf, ?_⟩
      rw [hcontent, hsent, List.length_drop, List.length_take]
      omega

/-- Bytes that were skipped are neither sent nor readable. -/
theorem Drifted.not_sentOnce {ret : Int} (hs : Drifted s.array.content.length s')
    (hn : n ≤ s.array.content.length) : ¬ SentOnce s n ret s' := by
  intro h
  have hlost := hs.drifted
  obtain ⟨k, hk, hsent, hcontent⟩ : ∃ k ≤ s.array.content.length,
      s'.sent = s.array.content.take k ∧ s'.array.content = s.array.content.drop k := by
    by_cases hret : ret = n
    · exact ⟨n, hn, h.sent_all hret⟩
    · exact h.sent_some hret
  rw [hsent, hcontent, List.length_drop, List.length_take] at hlost
  omega

/-! ## The loop -/

theorem writeFixSize_ok {ret : Int} (hn : n < 2 ^ 31)
    (h : s.writeFixSize n = .ok (ret, s')) :
    ∃ early, transfer (fun s _ left => s.write left) s 0 n = .ok (early, s') := by
  obtain ⟨⟨early, made⟩, hloop, h⟩ := bind_eq_ok.mp h
  rw [toLeft_eq hn] at hloop
  cases h
  exact ⟨early, hloop⟩

/-- Once the socket has taken less than it was given, bytes are lost. -/
theorem drifts (hb : s.array.WF) (hnothing : s.sent = []) (hcontent : n ≤ s.array.content.length)
    (hpos : 0 < n) (hconnected : s.connected = true) (hless : s.answers 0 < n)
    {early : Option Int} (h : transfer (fun s _ left => s.write left) s 0 n = .ok (early, s')) :
    Drifted s.array.content.length s' := by
  have hlength : (s.array.content.take n).length = n := List.length_take_of_le hcontent
  have hret : min (s.answers 0) (n : Int) = s.answers 0 := min_eq_left hless.le
  have hwrite := write_connected hb hconnected n
  rw [hlength, hret] at hwrite
  have hfirst : Drifted s.array.content.length (s.after n (s.answers 0)) := by
    obtain ⟨hwf, hdrop, hsent⟩ := length_after hb n (s.answers 0) (by omega)
    refine ⟨hwf, ?_⟩
    rw [hdrop, hsent, hnothing, List.length_drop, List.length_nil]
    omega
  rw [transfer_of_pos hpos hwrite] at h
  split at h
  · exact transfer_invariant (fun hs hcall => hs.write hcall) hfirst h
  · cases h
    exact hfirst

/-- With one call that takes everything, no more and no less than `n` bytes are gone. -/
theorem writeFixSize_whole (hb : s.array.WF) (hn : n < 2 ^ 31)
    (hcontent : n ≤ s.array.content.length) (hpos : 0 < n) (hconnected : s.connected = true)
    (hall : n ≤ s.answers 0) : s.writeFixSize n = .ok (n, s.after n n) := by
  have hlength : (s.array.content.take n).length = n := List.length_take_of_le hcontent
  have hret : min (s.answers 0) (n : Int) = n := min_eq_right hall
  have hwrite := write_connected hb hconnected n
  rw [hlength, hret] at hwrite
  have hlen : 0 < (n : Int) := Int.natCast_pos.mpr hpos
  have hloop : transfer (fun s _ left => write s left) s 0 n = _ := transfer_of_pos hpos hwrite
  rw [if_pos hlen, Int.toNat_natCast, Nat.sub_self, transfer_zero] at hloop
  rw [writeFixSize, toLeft_eq hn, hloop, toInt_eq hn]
  rfl

theorem writeFixSize_disconnected (hn : n < 2 ^ 31) (hpos : 0 < n)
    (hconnected : s.connected = false) : s.writeFixSize n = .ok (-1, s) := by
  have hloop : transfer (fun s _ left => write s left) s 0 n = _ :=
    transfer_of_pos hpos (write_disconnected hconnected n)
  rw [if_neg (by decide)] at hloop
  rw [writeFixSize, toLeft_eq hn, hloop]
  rfl

/--
Each byte is sent once exactly when the first call takes all of them, or there is nothing to
send or no socket to send it to.
-/
theorem sent_once_iff {array : ByteArray} {answers : Nat → Int} {connected : Bool}
    (hb : array.WF) (hn : n < 2 ^ 31) (hcontent : n ≤ array.content.length) :
    (∃ ret s', (⟨array, answers, connected, []⟩ : Sending).writeFixSize n = .ok (ret, s') ∧
      SentOnce ⟨array, answers, connected, []⟩ n ret s') ↔
      n = 0 ∨ connected = false ∨ n ≤ answers 0 := by
  constructor
  · rintro ⟨ret, s', hwrite, hsent⟩
    obtain ⟨early, hloop⟩ := writeFixSize_ok hn hwrite
    by_contra hnone
    simp only [not_or, Bool.not_eq_false, Int.not_le] at hnone
    obtain ⟨hzero, hconnected, hless⟩ := hnone
    have hdrifted := drifts hb rfl hcontent (Nat.pos_of_ne_zero hzero) hconnected hless hloop
    exact hdrifted.not_sentOnce hcontent hsent
  · intro h
    rcases Nat.eq_zero_or_pos n with rfl | hpos
    · refine ⟨0, ⟨array, answers, connected, []⟩, ?_, fun _ => ⟨rfl, rfl⟩, fun h => absurd rfl h⟩
      rw [writeFixSize, toLeft_eq hn, transfer_zero]
      rfl
    · cases hconnected : connected with
      | false =>
          refine ⟨-1, _, writeFixSize_disconnected hn hpos rfl, fun h => ?_,
            fun _ => ⟨0, Nat.zero_le _, rfl, rfl⟩⟩
          omega
      | true =>
          have hall : n ≤ answers 0 := by
            rcases h with h | h | h
            · omega
            · rw [hconnected] at h
              cases h
            · exact h
          refine ⟨n, _, writeFixSize_whole hb hn hcontent hpos rfl hall, fun _ => ⟨?_, ?_⟩,
            fun h => absurd rfl h⟩
          · simp [after]
          · exact ByteArray.content_advance array n

/-- Four unread bytes and a socket that takes `taken` of them at a time. -/
def four (taken : Int) : Sending := ⟨⟨[0, 1, 2, 3, 4, 0], 1, 5⟩, fun _ => taken, true, []⟩

theorem sent_once_whole :
    ∃ ret s', (four 8).writeFixSize 3 = .ok (ret, s') ∧ SentOnce (four 8) 3 ret s' :=
  (sent_once_iff ⟨by decide, by decide, by decide⟩ (by decide) (by decide)).mpr
    (Or.inr (Or.inr (by decide)))

/-- The two bytes that the first call leaves are lost. -/
theorem sent_once_fails :
    ∃ s', (four 2).writeFixSize 4 = .ok (0, s') ∧ s'.sent = [1, 2] ∧ s'.array.content = [] ∧
      ¬ SentOnce (four 2) 4 0 s' := by
  have hfirst : (four 2).write 4 = .ok (2, (four 2).after 4 2) := rfl
  have hsecond : ((four 2).after 4 2).write 2 = .ok (0, ((four 2).after 4 2).after 2 0) := rfl
  have hrest : transfer (fun s _ left => write s left) ((four 2).after 4 2) 2 2 = _ :=
    transfer_of_pos (by decide) hsecond
  have hloop : transfer (fun s _ left => write s left) (four 2) 0 4 = _ :=
    transfer_of_pos (by decide) hfirst
  rw [if_pos (by decide)] at hloop
  replace hloop := hloop.trans hrest
  refine ⟨((four 2).after 4 2).after 2 0, ?_, rfl, rfl, fun h => ?_⟩
  · rw [writeFixSize, toLeft_eq (by decide), hloop]
    rfl
  · obtain ⟨k, -, hsent, hcontent⟩ := h.sent_some (by decide)
    have hboth : [1, 2] ++ [] = (four 2).array.content := by
      rw [← List.take_append_drop k (four 2).array.content, ← hsent, ← hcontent]
      rfl
    cases hboth

end Sending

end Qslary.Bytes

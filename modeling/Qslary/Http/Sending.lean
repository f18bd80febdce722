import Qslary.Http.Requests
import Qslary.Streams.FixedSize

/-!
# Sending messages

`sendRequest` and `sendResponse` write a message with `writeFixSize` and return its size,
whatever `writeFixSize` has returned.  Their callers take that for the result of the send:
zero for a peer that has closed, and a negative number for an error.
-/

namespace Qslary.Http.Sending

open Qslary.Foundation
open Qslary.Http.Stream (toInt)
open Qslary.Streams

/-- What both functions do with the text of a message. -/
def sendMessage (s : Writing) (data : Bytes) : Except Streams.Fault (Int × Writing) := do
  let (_, s) ← { s with buffer := data }.writeFixSize data.length
  return (toInt data.length, s)

/-- `HttpConnection::sendRequest` -/
def sendRequest (s : Writing) (request : HttpRequest) : Except Streams.Fault (Int × Writing) :=
  sendMessage s request.dump

/-- `HttpSession::sendResponse` -/
def sendResponse (s : Writing) (response : HttpResponse) : Except Streams.Fault (Int × Writing) :=
  sendMessage s response.dump

/-! ## The callers of `sendRequest` -/

inductive Error where
  | OK
  | INVALID_URL
  | INVALID_HOST
  | CONNECTION_FALID
  | SEND_CLOSE_BY_PEER
  | SEND_SOCKET_ERROR
  | TIMEOUT
  | POLL_GET_CONNECTION
  deriving DecidableEq, Repr

def Error.toInt : Error → Int
  | OK => 0
  | INVALID_URL => 1
  | INVALID_HOST => 2
  | CONNECTION_FALID => 3
  | SEND_CLOSE_BY_PEER => 4
  | SEND_SOCKET_ERROR => 5
  | TIMEOUT => 6
  | POLL_GET_CONNECTION => 7

structure HttpResult where
  result : Int
  response : Option HttpResponse
  error : Bytes

/-- What `recvResponse` returns, and `errno` with its text after the send. -/
structure Outside where
  response : Option HttpResponse
  errno : Nat
  strerror : Bytes

/-- What is made of the return value `rt` of `sendRequest`. -/
def resultOf (rt : Int) (peer : Bytes) (timeout : UInt64) (outside : Outside) (ok : Bytes) :
    HttpResult :=
  if rt = 0 then
    ⟨Error.SEND_CLOSE_BY_PEER.toInt, none, ascii "send request closed by peer: " ++ peer⟩
  else if rt < 0 then
    ⟨Error.SEND_SOCKET_ERROR.toInt, none,
      ascii "send request socket error errno=" ++ decimal outside.errno ++ ascii " errstr=" ++
        outside.strerror⟩
  else
    match outside.response with
    | none =>
        ⟨Error.TIMEOUT.toInt, none,
          ascii "recv response timeout: " ++ peer ++ ascii " timeout_ms:" ++
            decimal timeout.toNat⟩
    | some rsp => ⟨Error.OK.toInt, some rsp, ok⟩

/-- From `sendRequest` on, `DoRequest` and `doRequest` differ in the last text. -/
def exchange (s : Writing) (req : HttpRequest) (peer : Bytes) (timeout : UInt64)
    (outside : Outside) (ok : Bytes) : Except Streams.Fault (HttpResult × Writing) := do
  let (rt, s) ← sendRequest s req
  return (resultOf rt peer timeout outside ok, s)

/-- `HttpConnection::DoRequest`; `addr` is the text of what `createAddress` returns. -/
def DoRequest (s : Writing) (req : HttpRequest) (uri : Uri) (timeout : UInt64)
    (addr : Option Bytes) (connects : Bool) (outside : Outside) :
    Except Streams.Fault (HttpResult × Writing) :=
  match addr with
  | none => .ok (⟨Error.INVALID_HOST.toInt, none, ascii "Invalid host " ++ uri.host⟩, s)
  | some addr =>
      if !connects then
        .ok (⟨Error.CONNECTION_FALID.toInt, none, ascii "Connection falid " ++ addr⟩, s)
      else exchange s req addr timeout outside (ascii "OK")

/--
`HttpConnectionPool::doRequest` with what `getConnection` and `getSock` return, the socket
as the text of its remote address; `none` for a failed assertion.
-/
def doRequest (s : Writing) (req : HttpRequest) (timeout : UInt64)
    (conn : Option (Option Bytes)) (outside : Outside) :
    Except Streams.Fault (Option (HttpResult × Writing)) :=
  match conn with
  | none => .ok none
  | some none => .ok none
  | some (some peer) => do
      let (result, s) ← exchange s req peer timeout outside (ascii "ok")
      return some (result, s)

/-! ## What they should report -/

/-- A stream of which nothing has been asked. -/
def fresh (results : Nat → Int) : Writing := ⟨[], results, [], []⟩

/-- One of the calls that were made has returned such a result. -/
def Returned (results : Nat → Int) (P : Int → Prop) (s : Writing) : Prop :=
  ∃ i < s.asked.length, P (results i)

structure Reported (results : Nat → Int) (data : Bytes) (ret : Int) (s : Writing) : Prop where
  pos_iff : 0 < ret ↔ s.accepted.flatten = data
  zero_iff : ret = 0 ↔ Returned results (· = 0) s
  neg_iff : ret < 0 ↔ Returned results (· < 0) s

structure PassedOn (results : Nat → Int) (result : HttpResult) (s : Writing) : Prop where
  closed_iff : result.result = Error.SEND_CLOSE_BY_PEER.toInt ↔ Returned results (· = 0) s
  error_iff : result.result = Error.SEND_SOCKET_ERROR.toInt ↔ Returned results (· < 0) s

/-- The three ways in which the calls for a message of `n` bytes can end. -/
def Stops (results : Nat → Int) (n : Nat) (P : Int → Prop) : Prop :=
  ∃ k, Ends results n k ∧ moved results k < n ∧ P (results k)

/-- The outcome of the calls is that which the size of the message stands for. -/
def Told (results : Nat → Int) (n : Nat) : Prop :=
  n < 2 ^ 63 ∧
    (Delivers results n ∧ 0 < n % 2 ^ 32 ∧ n % 2 ^ 32 < 2 ^ 31 ∨
      Stops results n (· = 0) ∧ n % 2 ^ 32 = 0 ∨
      Stops results n (· < 0) ∧ 2 ^ 31 ≤ n % 2 ^ 32)

/-! ## The calls that are made -/

variable {results : Nat → Int} {n k : Nat} {data : Bytes} {s : Writing}

/-- What a message of an ordinary size leaves behind. -/
structure Sent (results : Nat → Int) (data : Bytes) (s : Writing) (k : Nat) : Prop where
  ends : Ends results data.length k
  flatten : s.accepted.flatten = data.take (moved results k)
  asked : s.asked.length = if moved results k = data.length then k else k + 1

theorem sendMessage_spec (hbounded : Bounded results data.length) (hlong : data.length < 2 ^ 63) :
    ∃ s k, sendMessage (fresh results) data = .ok (toInt data.length, s) ∧
      Sent results data s k := by
  obtain ⟨k, early, s, hends, hloop, hcase⟩ := Writing.transfer_write (Nat.le_refl _) hbounded
  have hleft : toLeft data.length = data.length := if_pos hlong
  refine ⟨s, k, ?_, hends, ?_, ?_⟩
  · rw [sendMessage, Writing.writeFixSize, hleft, fresh, hloop]
    rfl
  · rcases hcase with ⟨-, -, rfl⟩ | ⟨-, -, rfl⟩
    · exact flatten_chunks results data k
    · exact flatten_chunks results data k
  · rcases hcase with ⟨hall, -, rfl⟩ | ⟨hlt, -, rfl⟩
    · rw [if_pos hall]
      exact length_requests results _ k
    · rw [if_neg hlt.ne]
      exact length_requests results _ (k + 1)

/-- The loop does not run for a size that is negative as an `int64_t`. -/
theorem sendMessage_long (results : Nat → Int) (hlong : 2 ^ 63 ≤ data.length) :
    sendMessage (fresh results) data = .ok (toInt data.length, ⟨data, results, [], []⟩) := by
  have hleft : toLeft data.length = 0 := if_neg (by omega)
  rw [sendMessage, Writing.writeFixSize, hleft, transfer_zero]
  rfl

/-! ## The three outcomes -/

theorem Sent.flatten_iff (h : Sent results data s k) :
    s.accepted.flatten = data ↔ moved results k = data.length := by
  rw [h.flatten, List.take_eq_self_iff]
  have hle : moved results k ≤ data.length := by
    rcases h.ends.ended with hall | ⟨hlt, -⟩ <;> omega
  omega

theorem Sent.returned_iff (h : Sent results data s k) {P : Int → Prop} (hP : ∀ r, P r → r ≤ 0) :
    Returned results P s ↔ moved results k < data.length ∧ P (results k) := by
  constructor
  · rintro ⟨i, hi, hresult⟩
    have hnot : ¬ i < k := by
      intro hlt
      have hpos := h.ends.going i hlt
      have hle := hP _ hresult
      omega
    rw [h.asked] at hi
    split at hi
    · exact absurd hi hnot
    · obtain rfl : i = k := by omega
      rcases h.ends.ended with hall | ⟨hlt, -⟩
      · contradiction
      · exact ⟨hlt, hresult⟩
  · rintro ⟨hlt, hresult⟩
    refine ⟨k, ?_, hresult⟩
    rw [h.asked, if_neg hlt.ne]
    exact Nat.lt_succ_self k

theorem stops_iff (h : Ends results n k) (P : Int → Prop) :
    Stops results n P ↔ moved results k < n ∧ P (results k) := by
  constructor
  · rintro ⟨j, hends, hstop⟩
    obtain rfl := h.unique hends
    exact hstop
  · intro hstop
    exact ⟨k, h, hstop⟩

theorem toInt_cases (n : Nat) :
    (0 < toInt n ↔ 0 < n % 2 ^ 32 ∧ n % 2 ^ 32 < 2 ^ 31) ∧ (toInt n = 0 ↔ n % 2 ^ 32 = 0) ∧
      (toInt n < 0 ↔ 2 ^ 31 ≤ n % 2 ^ 32) := by
  unfold toInt
  split <;> omega

theorem reported_iff_of_sent (h : Sent results data s k) (hlong : data.length < 2 ^ 63) :
    Reported results data (toInt data.length) s ↔ Told results data.length := by
  obtain ⟨hpos, hzero, hneg⟩ := toInt_cases data.length
  have hclosed := h.returned_iff (P := (· = 0)) (fun _ h => h.le)
  have hfailed := h.returned_iff (P := (· < 0)) (fun _ h => h.le)
  have hended := h.ends.ended
  rw [Told, delivers_iff h.ends, stops_iff h.ends, stops_iff h.ends]
  constructor
  · intro hreported
    have h₁ := hreported.pos_iff.trans h.flatten_iff
    have h₂ := hreported.zero_iff.trans hclosed
    have h₃ := hreported.neg_iff.trans hfailed
    omega
  · rintro ⟨-, htold⟩
    constructor
    · rw [hpos, h.flatten_iff]
      omega
    · rw [hzero, hclosed]
      omega
    · rw [hneg, hfailed]
      omega

theorem reported_iff (hbounded : Bounded results data.length) :
    (∃ ret s, sendMessage (fresh results) data = .ok (ret, s) ∧ Reported results data ret s) ↔
      Told results data.length := by
  by_cases hlong : data.length < 2 ^ 63
  · obtain ⟨s, k, hsend, hsent⟩ := sendMessage_spec hbounded hlong
    rw [← reported_iff_of_sent hsent hlong, hsend]
    constructor
    · rintro ⟨ret, s', heq, hreported⟩
      cases heq
      exact hreported
    · intro hreported
      exact ⟨_, s, rfl, hreported⟩
  · rw [sendMessage_long results (by omega)]
    refine iff_of_false ?_ (fun htold => hlong htold.1)
    rintro ⟨ret, s', heq, hreported⟩
    cases heq
    have hnone : ∀ P, ¬ Returned results P ⟨data, results, [], []⟩ := by
      rintro P ⟨i, hi, -⟩
      cases hi
    have hempty : data ≠ [] := by
      rintro rfl
      simp at hlong
    have hzero := mt hreported.zero_iff.mp (hnone _)
    have hneg := mt hreported.neg_iff.mp (hnone _)
    have hpos := mt hreported.pos_iff.mp (fun h => hempty h.symm)
    omega

/-! ## The callers -/

theorem resultOf_iff (rt : Int) (peer : Bytes) (timeout : UInt64) (outside : Outside)
    (ok : Bytes) :
    ((resultOf rt peer timeout outside ok).result = Error.SEND_CLOSE_BY_PEER.toInt ↔ rt = 0) ∧
      ((resultOf rt peer timeout outside ok).result = Error.SEND_SOCKET_ERROR.toInt ↔
        rt < 0) := by
  unfold resultOf
  rcases lt_trichotomy rt 0 with hneg | rfl | hpos
  · simp [hneg, hneg.ne, Error.toInt]
  · simp [Error.toInt]
  · simp only [hpos.ne', hpos.not_gt, if_false]
    split <;> simp [Error.toInt]

/-- The return value and, from it, both callers tell how the send ended. -/
structure RequestReported (results : Nat → Int) (request : HttpRequest) : Prop where
  returned : ∃ ret s, sendRequest (fresh results) request = .ok (ret, s) ∧
    Reported results request.dump ret s
  requested : ∀ uri timeout addr connects outside, ∃ result s,
    DoRequest (fresh results) request uri timeout addr connects outside = .ok (result, s) ∧
      PassedOn results result s
  pooled : ∀ peer timeout outside, ∃ result s,
    doRequest (fresh results) request timeout (some (some peer)) outside =
      .ok (some (result, s)) ∧ PassedOn results result s

def ResponseReported (results : Nat → Int) (response : HttpResponse) : Prop :=
  ∃ ret s, sendResponse (fresh results) response = .ok (ret, s) ∧
    Reported results response.dump ret s

/-- A call that never came to the send has nothing to report. -/
theorem passedOn_fresh {result : HttpResult}
    (hclosed : result.result ≠ Error.SEND_CLOSE_BY_PEER.toInt)
    (herror : result.result ≠ Error.SEND_SOCKET_ERROR.toInt) :
    PassedOn results result (fresh results) := by
  have hnone : ∀ P, ¬ Returned results P (fresh results) := by
    rintro P ⟨i, hi, -⟩
    cases hi
  exact ⟨iff_of_false hclosed (hnone _), iff_of_false herror (hnone _)⟩

theorem exchange_passedOn {request : HttpRequest} {ret : Int}
    (hsend : sendRequest (fresh results) request = .ok (ret, s))
    (hreported : Reported results request.dump ret s) (peer : Bytes) (timeout : UInt64)
    (outside : Outside) (ok : Bytes) :
    ∃ result, exchange (fresh results) request peer timeout outside ok = .ok (result, s) ∧
      PassedOn results result s := by
  obtain ⟨hclosed, herror⟩ := resultOf_iff ret peer timeout outside ok
  refine ⟨resultOf ret peer timeout outside ok, ?_, ?_⟩
  · rw [exchange, hsend]
    rfl
  · exact ⟨hclosed.trans hreported.zero_iff, herror.trans hreported.neg_iff⟩

theorem requestReported_of_returned {request : HttpRequest}
    (h : ∃ ret s, sendRequest (fresh results) request = .ok (ret, s) ∧
      Reported results request.dump ret s) : RequestReported results request := by
  obtain ⟨ret, s, hsend, hreported⟩ := h
  refine ⟨⟨ret, s, hsend, hreported⟩, ?_, ?_⟩
  · intro uri timeout addr connects outside
    cases addr with
    | none => exact ⟨_, _, rfl, passedOn_fresh (by simp [Error.toInt]) (by simp [Error.toInt])⟩
    | some addr =>
        cases connects with
        | false => exact ⟨_, _, rfl, passedOn_fresh (by simp [Error.toInt]) (by simp [Error.toInt])⟩
        | true =>
            obtain ⟨result, hexchange, hpassed⟩ :=
              exchange_passedOn hsend hreported addr timeout outside (ascii "OK")
            exact ⟨result, s, hexchange, hpassed⟩
  · intro peer timeout outside
    obtain ⟨result, hexchange, hpassed⟩ :=
      exchange_passedOn hsend hreported peer timeout outside (ascii "ok")
    refine ⟨result, s, ?_, hpassed⟩
    rw [doRequest, hexchange]
    rfl

theorem requestReported_iff {request : HttpRequest}
    (hbounded : Bounded results request.dump.length) :
    RequestReported results request ↔ Told results request.dump.length := by
  rw [← reported_iff hbounded]
  exact ⟨fun h => h.returned, requestReported_of_returned⟩

theorem told_of_short (hshort : n < 2 ^ 31) (hpos : 0 < n) :
    Told results n ↔ Delivers results n := by
  have hmod : n % 2 ^ 32 = n := Nat.mod_eq_of_lt (by omega)
  rw [Told, hmod]
  constructor
  · rintro ⟨-, h⟩
    rcases h with ⟨hdelivers, -⟩ | ⟨-, hzero⟩ | ⟨-, hlong⟩
    · exact hdelivers
    · omega
    · omega
  · intro hdelivers
    exact ⟨by omega, Or.inl ⟨hdelivers, hpos, hshort⟩⟩

/--
A request or a response is reported as it was sent exactly if the socket accepts every
byte, for messages of less than `2 ^ 31` bytes; for longer ones the size modulo `2 ^ 32`
decides which outcome is told.
-/
theorem send_reported_iff {sends answers : Nat → Int} {request : HttpRequest}
    {response : HttpResponse} (hsends : Bounded sends request.dump.length)
    (hanswers : Bounded answers response.dump.length) :
    (RequestReported sends request ↔ Told sends request.dump.length) ∧
      (ResponseReported answers response ↔ Told answers response.dump.length) :=
  ⟨requestReported_iff hsends, reported_iff hanswers⟩

/-- A socket that takes one byte at a time. -/
theorem send_reported_bytewise :
    (RequestReported (lens oneByOne) .new ↔ Told (lens oneByOne) HttpRequest.new.dump.length) ∧
      (ResponseReported (lens oneByOne) .new ↔
        Told (lens oneByOne) HttpResponse.new.dump.length) :=
  send_reported_iff (bounded_oneByOne _) (bounded_oneByOne _)

theorem bounded_closed (n : Nat) : Bounded (fun _ => 0) n := by
  intro k _ _
  dsimp only
  omega

/-- The peer has closed the connection, and `sendRequest` returns the size of `GET`. -/
theorem closed_peer_unreported :
    (∃ s, sendRequest (fresh fun _ => 0) .new = .ok (17, s) ∧ s.accepted.flatten = [] ∧
      Returned (fun _ => 0) (· = 0) s) ∧
      ¬ RequestReported (fun _ => 0) .new := by
  have hlength : HttpRequest.new.dump.length = 17 := by decide
  have hbounded := bounded_closed HttpRequest.new.dump.length
  have hends : Ends (fun _ => 0) HttpRequest.new.dump.length 0 := by
    rw [hlength]
    exact ⟨nofun, Or.inr ⟨by decide, le_refl 0⟩⟩
  constructor
  · obtain ⟨s, k, hsend, hsent⟩ := sendMessage_spec hbounded (by omega)
    obtain rfl := hends.unique hsent.ends
    rw [hlength] at hsend
    refine ⟨s, hsend, hsent.flatten, ?_⟩
    rw [hsent.returned_iff fun r hr => hr.le, hlength]
    exact ⟨by decide, rfl⟩
  · rw [requestReported_iff hbounded, told_of_short (by omega) (by omega), delivers_iff hends,
      hlength]
    decide

end Qslary.Http.Sending

import Qslary.Http.ResponseRoundTrip
import Qslary.Http.Sending
import Qslary.Http.Server

/-!
# Requests that are answered

The two ends of a connection together: what the client's socket accepts is what the server
reads, and the other way round.  A request that gets through is answered with the response
that a servlet makes for it.
-/

namespace Qslary.Http

open Qslary.Foundation Sending
open Qslary.Streams (Delivers)

/-- What neither end can go on after. -/
inductive Broken where
  | sending (fault : Streams.Fault)
  | parsing (fault : Fault)
  | receiving (crash : HttpConnection.Crash)
  | aborted

/-- The results of the sends of both ends, the reads of the server into a parser over
`memory`, and where the pieces end that come back. -/
structure Connection where
  sends : Nat → Int
  memory : HttpParser
  reads : Nat → Nat
  answers : Nat → Int
  ends : Nat → Bool

structure Server where
  keepAlive : Bool
  dispatch : ServletDispatch (Option Servlet)

def ServerEvent.response : ServerEvent → Option HttpResponse
  | .sent response => some response
  | _ => none

namespace Server

/-- What `handleClient` makes of a request. -/
def answer (server : Server) (request : Option HttpRequest) : Option HttpResponse :=
  (HttpServer.handleClient server.keepAlive [⟨request, server.dispatch⟩]).findSome?
    ServerEvent.response

/-- A turn of `handleClient` on the bytes that have arrived, and what the socket accepts. -/
def turn (server : Server) (c : Connection) (arrived : Bytes) : Except Broken Bytes := do
  let (request, _) ← (HttpSession.recvRequest c.memory ⟨arrived, c.reads, true⟩).mapError .parsing
  match server.answer request with
  | none => .error .aborted
  | some response =>
      let (_, s) ← (sendResponse (fresh c.answers) response).mapError .sending
      return s.accepted.flatten

end Server

/-- `DoRequest` of a client that is connected to the server. -/
def Connection.DoRequest (c : Connection) (server : Server) (req : HttpRequest) (uri : Uri)
    (timeout : UInt64) (addr : Bytes) (errno : Nat) (strerror : Bytes) :
    Except Broken HttpResult := do
  let (_, s) ← (sendRequest (fresh c.sends) req).mapError .sending
  let answer ← server.turn c s.accepted.flatten
  let (response, _) ← (HttpConnection.recvResponse ⟨answer, c.ends, true⟩).mapError .receiving
  let (result, _) ← (Sending.DoRequest (fresh c.sends) req uri timeout (some addr) true
    ⟨response, errno, strerror⟩).mapError .sending
  return result

/-! ## Getting through -/

structure Connection.Forth (c : Connection) (req : HttpRequest) : Prop where
  bounded : Bounded c.sends req.dump.length
  delivers : Delivers c.sends req.dump.length
  short : req.dump.length < 2 ^ 31
  completes : req.header.length ≤ c.reads 0 ∧ req.header.length ≤ HttpSession.buffSize

structure Connection.Back (c : Connection) (rsp : HttpResponse) : Prop where
  bounded : Bounded c.answers rsp.dump.length
  delivers : Delivers c.answers rsp.dump.length
  short : rsp.dump.length < 2 ^ 63
  together : ∀ i, i + 1 < rsp.header.length → c.ends i = false
  fits : rsp.header.length ≤ HttpConnection.buffSize

variable {c : Connection} {server : Server} {req : HttpRequest} {rsp : HttpResponse}

/-- What is delivered is what was to be sent. -/
theorem sendMessage_delivers {results : Nat → Int} {data : Bytes}
    (hbounded : Bounded results data.length) (hdelivers : Delivers results data.length)
    (hlong : data.length < 2 ^ 63) :
    ∃ s, sendMessage (fresh results) data = .ok (Stream.toInt data.length, s) ∧
      s.accepted.flatten = data := by
  obtain ⟨s, k, hsend, hsent⟩ := sendMessage_spec hbounded hlong
  have hall := (Streams.delivers_iff hsent.ends).mp hdelivers
  exact ⟨s, hsend, hsent.flatten_iff.mpr hall⟩

theorem recvRequest_dump (hsend : req.Sendable) (hmeasured : req.Measured) (hforth : c.Forth req) :
    ∃ stream, HttpSession.recvRequest c.memory ⟨req.dump, c.reads, true⟩ =
      .ok (some req.received, stream) := by
  have hlength : req.dump.length = req.header.length + req.body.length := by
    simp [HttpRequest.dump, HttpRequest.header]
    omega
  have hshort := hforth.short
  let sending : Sending := ⟨req, hsend, hmeasured, c.memory, c.reads, hforth.completes⟩
  have hbytes : sending.call.bytes = req.dump := sending.call_bytes
  have hfirst := (Stream.count_le (sending.call.stream []) HttpSession.buffSize).2
  have hinput : (sending.call.stream []).input = req.dump := by
    rw [← hbytes]
    exact List.append_nil _
  rw [hinput] at hfirst
  have hexact : sending.call.Exact [] := by
    refine ⟨by rw [hbytes]; exact hfirst, ?_, show req.body.length < 2 ^ 63 by omega⟩
    rw [hbytes]
    rcases Nat.lt_or_ge (sending.call.firstRead []) req.dump.length with hlt | hge
    · right
      have htoInt := Sending.toInt_cases (req.dump.length - sending.call.firstRead [])
      omega
    · exact .inl (Nat.le_antisymm hfirst hge)
  obtain ⟨sizes, hrecv⟩ := hexact.recvRequest sending.completes
  have hstream : sending.call.stream [] = ⟨req.dump, c.reads, true⟩ := by
    rw [← hinput]
    rfl
  rw [hstream] at hrecv
  exact ⟨_, hrecv⟩

theorem Server.answer_some (request : HttpRequest) :
    server.answer (some request) = server.dispatch.handle request
      (HttpServer.responseTo server.keepAlive request) := by
  unfold Server.answer HttpServer.handleClient
  cases hhandle : server.dispatch.handle request
      (HttpServer.responseTo server.keepAlive request) with
  | none => simp [hhandle, ServerEvent.response]
  | some response =>
      simp only [hhandle]
      rfl

theorem turn_delivers (hsend : req.Sendable) (hmeasured : req.Measured) (hforth : c.Forth req)
    (hhandle : server.dispatch.handle req.received
      (HttpServer.responseTo server.keepAlive req.received) = some rsp) (hback : c.Back rsp) :
    server.turn c req.dump = .ok rsp.dump := by
  obtain ⟨stream, hrecv⟩ := recvRequest_dump hsend hmeasured hforth
  obtain ⟨s, hsent, haccepted⟩ := sendMessage_delivers hback.bounded hback.delivers hback.short
  simp only [Server.turn, hrecv, Except.mapError, bind, Except.bind, Server.answer_some, hhandle,
    pure, Except.pure, sendResponse, hsent, haccepted]

/-- The default servlet finds nothing, and says so to any client. -/
theorem notFound_sendable {version : UInt8} (hversion : version = 0x10 ∨ version = 0x11)
    (close : Bool) (request : HttpRequest) :
    (notFoundServlet (ascii "NotFound") request (.ofStatus 200 version close)).Sendable where
  version := hversion
  status := show (404 : UInt32).toNat < 2 ^ 31 by decide
  reason := .inl rfl
  fields := by
    have hwritten : writtenHeaders (((.empty : Headers).insert (ascii "Server")
        (ascii "sylar/1.0.0")).insert (ascii "Content-Type") (ascii "text/html")) =
          [(ascii "Content-Type", ascii "text/html"), (ascii "Server", ascii "sylar/1.0.0")] := by
      decide +kernel
    intro header hheader
    rcases List.mem_cons.mp (hwritten ▸ hheader) with rfl | hheader
    · exact ⟨⟨by decide, List.all_eq_true.mp rfl, by decide⟩,
        .inr ⟨116, ascii "ext/html", by decide, by decide, List.all_eq_true.mp rfl⟩⟩
    · rw [List.mem_singleton.mp hheader]
      exact ⟨⟨by decide, List.all_eq_true.mp rfl, by decide⟩,
        .inr ⟨115, ascii "ylar/1.0.0", by decide, by decide, List.all_eq_true.mp rfl⟩⟩
  body := by
    simp only [notFoundServlet, List.length_append]
    decide +kernel

theorem delivers_at_once {n : Nat} (hpos : 0 < n) :
    Bounded (fun _ => n) n ∧ Delivers (fun _ => n) n := by
  refine ⟨fun k hgoing hlt => ?_, 1, fun _ _ => ?_, ?_⟩
  · cases k with
    | zero => simp [moved]
    | succ k =>
        rw [moved] at hlt
        omega
  · simpa using hpos
  · simp [moved]

/-- A server that no servlet has been added to. -/
def emptyServer : Server := ⟨true, .new⟩

/-- What it answers. -/
def notFound : HttpResponse :=
  notFoundServlet (ascii "NotFound") postedForm.received (.ofStatus 200 0x11 true)

/-- Both messages go through as a whole. -/
def atOnce : Connection where
  sends := fun _ => postedForm.dump.length
  memory := ⟨0, 0, 0, 0, 0, 0, 0, 0, false, false, false⟩
  reads := fun _ => 52
  answers := fun _ => notFound.dump.length
  ends := fun _ => false

end Qslary.Http

import Qslary.Addresses.Model
import Qslary.Foundation.Transition

/-!
# Binding the sockets of a server

`TcpServer::bind` of `net/TcpServer.cc` makes a socket for each address, binds it and lets
it listen.  An address whose bind fails is reported, and its socket goes on to `listen` all
the same: it is kept without an address when the kernel lets an unbound socket listen, and
the address is reported once more when it does not.
-/

namespace Qslary.Sockets

open Qslary.Addresses (Address)
open Qslary.Foundation

inductive Fault where
  | assertion
  deriving DecidableEq, Repr

def AF_UNIX : UInt16 := 1

/-- `GetAddr()->sa_family` -/
def GetFamily : Address → UInt16
  | .ipv4 address => address.addr.sinFamily
  | .ipv6 address => address.addr.sin6Family
  | .unix address => (address.memory 0).toUInt16 ||| ((address.memory 1).toUInt16 <<< 8)

inductive SocketType where
  | SOCK_STREAM
  | SOCK_DGRAM
  deriving DecidableEq, Repr

/-- What the kernel answers to the calls that are made for one address. -/
structure Answers where
  socket : Option Nat
  reuseaddr : Bool
  nodelay : Bool
  bind : Bool
  getsockname : Option Address
  listen : Bool
  listenUnbound : Bool

/-- `bound` is what the kernel has bound the descriptor to. -/
structure Socket where
  socketfd : Option Nat
  family : UInt16
  type : SocketType
  localAddress : Option Address
  bound : Option Address

namespace Socket

def CreateTCPSocket (addr : Address) : Socket := ⟨none, GetFamily addr, .SOCK_STREAM, none, none⟩

def isVaild (s : Socket) : Bool := s.socketfd.isSome

def setOption (rt : Bool) : Except Fault Unit := if rt then .ok () else .error .assertion

def initSock (s : Socket) (k : Answers) : Except Fault Unit := do
  setOption k.reuseaddr
  if s.type = .SOCK_STREAM then setOption k.nodelay

def newSock (s : Socket) (k : Answers) : Except Fault Socket := do
  let s := { s with socketfd := k.socket }
  if s.isVaild then s.initSock k
  return s

def getLocalAddress (s : Socket) (k : Answers) : Except Fault Socket :=
  if s.localAddress.isSome then .ok s
  else if s.family ≠ Addresses.AF_INET ∧ s.family ≠ Addresses.AF_INET6 ∧ s.family ≠ AF_UNIX then
    .error .assertion
  else .ok { s with localAddress := k.getsockname }

def bind (s : Socket) (k : Answers) (addr : Address) : Except Fault (Bool × Socket) := do
  let s ← if s.isVaild then pure s else s.newSock k
  if GetFamily addr ≠ s.family then return (false, s)
  else if !(s.isVaild && k.bind) then return (false, s)
  else
    let s ← { s with bound := some addr }.getLocalAddress k
    return (true, s)

def listen (s : Socket) (k : Answers) : Bool :=
  if !s.isVaild then false
  else if s.bound.isSome then k.listen
  else k.listenUnbound

end Socket

structure TcpServer where
  sockets : List Socket

namespace TcpServer

/-- The body of the loop in `bind`. -/
def bindAddress (server : TcpServer) (fails : List Address) (i : Address) (k : Answers) :
    Except Fault (TcpServer × List Address) := do
  let (bound, sock) ← (Socket.CreateTCPSocket i).bind k i
  let fails := if !bound then fails ++ [i] else fails
  if !sock.listen k then return (server, fails ++ [i])
  else return ({ server with sockets := server.sockets ++ [sock] }, fails)

def bindLoop : TcpServer → List Address → List (Address × Answers) →
    Except Fault (TcpServer × List Address)
  | server, fails, [] => .ok (server, fails)
  | server, fails, (i, k) :: addrs => do
      let (server, fails) ← server.bindAddress fails i k
      bindLoop server fails addrs

def bind (server : TcpServer) (addrs : List (Address × Answers)) (fails : List Address) :
    Except Fault (Bool × TcpServer × List Address) := do
  let (server, fails) ← bindLoop server fails addrs
  return (fails.isEmpty, server, fails)

end TcpServer

/-! ## What is to be reported -/

/-- Both calls succeed for the address. -/
def Succeeds (call : Address × Answers) : Bool :=
  call.2.socket.isSome && call.2.bind && call.2.listen

/-- The address gets a socket with its options set, and the socket gets the address. -/
structure Binds (call : Address × Answers) : Prop where
  socket : call.2.socket.isSome = true
  reuseaddr : call.2.reuseaddr = true
  nodelay : call.2.nodelay = true
  bind : call.2.bind = true
  family : GetFamily call.1 = Addresses.AF_INET ∨ GetFamily call.1 = Addresses.AF_INET6 ∨
    GetFamily call.1 = AF_UNIX

/-- The sockets of the addresses that do not fail, each with its own address. -/
structure Reported (server : TcpServer) (addrs : List (Address × Answers)) (result : Bool)
    (server' : TcpServer) (fails : List Address) : Prop where
  result_iff : result = true ↔ ∀ call ∈ addrs, Succeeds call = true
  fails_eq : fails = (addrs.filter fun call => !Succeeds call).map Prod.fst
  sockets_eq : ∃ added, server'.sockets = server.sockets ++ added ∧
    added.map (fun sock => (sock.socketfd, sock.bound)) =
      (addrs.filter Succeeds).map fun call => (call.2.socket, some call.1)

/-! ## One address -/

variable {i : Address} {k : Answers} {server server' : TcpServer} {fails fails' : List Address}

namespace Socket

theorem initSock_eq {s : Socket} (htype : s.type = .SOCK_STREAM) :
    s.initSock k = if k.reuseaddr = true ∧ k.nodelay = true then .ok () else .error .assertion := by
  cases hreuse : k.reuseaddr <;> cases hdelay : k.nodelay <;>
    simp [initSock, setOption, htype, hreuse, hdelay, Bind.bind, Except.bind]

theorem newSock_eq {s : Socket} (htype : s.type = .SOCK_STREAM) :
    s.newSock k =
      if k.socket.isSome = true → k.reuseaddr = true ∧ k.nodelay = true then
        .ok { s with socketfd := k.socket }
      else .error .assertion := by
  cases hsocket : k.socket with
  | none => simp [newSock, isVaild, hsocket, Pure.pure, Except.pure]
  | some fd =>
      have hinit := initSock_eq (s := { s with socketfd := some fd }) (k := k) htype
      by_cases hset : k.reuseaddr = true ∧ k.nodelay = true <;>
        simp [newSock, isVaild, hsocket, hinit, hset, Bind.bind, Except.bind, Pure.pure, Except.pure]

theorem getLocalAddress_eq {s : Socket} (hlocal : s.localAddress = none) :
    s.getLocalAddress k =
      if s.family = Addresses.AF_INET ∨ s.family = Addresses.AF_INET6 ∨ s.family = AF_UNIX then
        .ok { s with localAddress := k.getsockname }
      else .error .assertion := by
  by_cases hinet : s.family = Addresses.AF_INET <;> by_cases hinet6 : s.family = Addresses.AF_INET6 <;>
    by_cases hunix : s.family = AF_UNIX <;> simp [getLocalAddress, hlocal, hinet, hinet6, hunix]

theorem bind_eq (i : Address) (k : Answers) :
    (CreateTCPSocket i).bind k i =
      if k.socket.isSome = true → k.reuseaddr = true ∧ k.nodelay = true then
        if k.socket.isSome = true ∧ k.bind = true then
          if GetFamily i = Addresses.AF_INET ∨ GetFamily i = Addresses.AF_INET6 ∨
              GetFamily i = AF_UNIX then
            .ok (true, ⟨k.socket, GetFamily i, .SOCK_STREAM, k.getsockname, some i⟩)
          else .error .assertion
        else .ok (false, ⟨k.socket, GetFamily i, .SOCK_STREAM, none, none⟩)
      else .error .assertion := by
  have hnew := newSock_eq (s := CreateTCPSocket i) (k := k) rfl
  have hlocal := getLocalAddress_eq (k := k)
    (s := ⟨k.socket, GetFamily i, .SOCK_STREAM, none, some i⟩) rfl
  have hbind : (CreateTCPSocket i).bind k i =
      ((CreateTCPSocket i).newSock k).bind fun s =>
        if GetFamily i ≠ s.family then .ok (false, s)
        else if !(s.isVaild && k.bind) then .ok (false, s)
        else ({ s with bound := some i }.getLocalAddress k).bind fun s => .ok (true, s) := rfl
  rw [hbind, hnew]
  by_cases hset : k.socket.isSome = true → k.reuseaddr = true ∧ k.nodelay = true
  · rw [if_pos hset, if_pos hset]
    by_cases hbound : k.socket.isSome = true ∧ k.bind = true
    · rw [if_pos hbound]
      by_cases hfamily : GetFamily i = Addresses.AF_INET ∨ GetFamily i = Addresses.AF_INET6 ∨
          GetFamily i = AF_UNIX
      · rw [if_pos hfamily] at hlocal
        simp [Except.bind, CreateTCPSocket, isVaild, hlocal, hbound, hfamily]
      · rw [if_neg hfamily] at hlocal
        simp [Except.bind, CreateTCPSocket, isVaild, hlocal, hbound, hfamily]
    · rw [if_neg hbound]
      rw [Classical.not_and_iff_not_or_not, Bool.not_eq_true, Bool.not_eq_true] at hbound
      rcases hbound with hfails | hfails <;> simp [Except.bind, CreateTCPSocket, isVaild, hfails]
  · rw [if_neg hset, if_neg hset]
    rfl

theorem bind_cases (i : Address) (k : Answers) :
    (∃ sock, (CreateTCPSocket i).bind k i = .ok (true, sock) ∧ Binds (i, k) ∧
      sock.socketfd = k.socket ∧ sock.bound = some i) ∨
    (∃ sock, (CreateTCPSocket i).bind k i = .ok (false, sock) ∧ ¬ Binds (i, k)) ∨
    (∃ fault, (CreateTCPSocket i).bind k i = .error fault ∧ ¬ Binds (i, k)) := by
  rw [bind_eq]
  by_cases hset : k.socket.isSome = true → k.reuseaddr = true ∧ k.nodelay = true
  · rw [if_pos hset]
    by_cases hbound : k.socket.isSome = true ∧ k.bind = true
    · rw [if_pos hbound]
      split
      · rename_i hfamily
        exact Or.inl ⟨_, rfl, ⟨hbound.1, (hset hbound.1).1, (hset hbound.1).2, hbound.2, hfamily⟩,
          rfl, rfl⟩
      · rename_i hfamily
        exact Or.inr (Or.inr ⟨_, rfl, fun h => hfamily h.family⟩)
    · rw [if_neg hbound]
      exact Or.inr (Or.inl ⟨_, rfl, fun h => hbound ⟨h.socket, h.bind⟩⟩)
  · rw [if_neg hset]
    exact Or.inr (Or.inr ⟨_, rfl, fun h => hset fun _ => ⟨h.reuseaddr, h.nodelay⟩⟩)

theorem listen_eq {s : Socket} {k : Answers} {addr : Address} (hvaild : s.isVaild = true)
    (hbound : s.bound = some addr) : s.listen k = k.listen := by
  simp [listen, hvaild, hbound]

end Socket

namespace TcpServer

open Socket (CreateTCPSocket bind_cases listen_eq)

theorem bindAddress_of_binds (h : Binds (i, k)) (server : TcpServer) (fails : List Address) :
    ∃ sock : Socket, sock.socketfd = k.socket ∧ sock.bound = some i ∧
      server.bindAddress fails i k =
        .ok (if Succeeds (i, k) then (⟨server.sockets ++ [sock]⟩, fails)
          else (server, fails ++ [i])) := by
  rcases bind_cases i k with ⟨sock, hbind, -, hfd, hbound⟩ | ⟨_, -, hnot⟩ | ⟨_, -, hnot⟩
  · refine ⟨sock, hfd, hbound, ?_⟩
    have hvaild : sock.isVaild = true := (congrArg Option.isSome hfd).trans h.socket
    have hlisten := listen_eq (k := k) hvaild hbound
    have hboth : k.bind = true := h.bind
    have hsucceeds : Succeeds (i, k) = k.listen := by simp [Succeeds, h.socket, hboth]
    rw [bindAddress, hbind, hsucceeds]
    cases hk : k.listen <;> simp [Bind.bind, Except.bind, Pure.pure, Except.pure, hlisten, hk]
  · exact absurd h hnot
  · exact absurd h hnot

/-- Any other is counted twice, if the server gets over it. -/
theorem bindAddress_of_not_binds (h : ¬ Binds (i, k))
    (hstep : server.bindAddress fails i k = .ok (server', fails')) :
    fails'.length + server'.sockets.length = fails.length + server.sockets.length + 2 := by
  rcases bind_cases i k with ⟨_, -, hbinds, -, -⟩ | ⟨sock, hbind, -⟩ | ⟨fault, hbind, -⟩
  · exact absurd hbinds h
  · rw [bindAddress, hbind] at hstep
    cases hlisten : sock.listen k
    · simp [Bind.bind, Except.bind, Pure.pure, Except.pure, hlisten] at hstep
      obtain ⟨rfl, rfl⟩ := hstep
      simp
      omega
    · simp [Bind.bind, Except.bind, Pure.pure, Except.pure, hlisten] at hstep
      obtain ⟨rfl, rfl⟩ := hstep
      simp
      omega
  · rw [bindAddress, hbind] at hstep
    cases hstep

/-! ## The loop -/

variable {addrs : List (Address × Answers)}

theorem bindLoop_of_binds (h : ∀ call ∈ addrs, Binds call) (server : TcpServer)
    (fails : List Address) :
    ∃ added, bindLoop server fails addrs =
        .ok (⟨server.sockets ++ added⟩,
          fails ++ (addrs.filter fun call => !Succeeds call).map Prod.fst) ∧
      added.map (fun sock => (sock.socketfd, sock.bound)) =
        (addrs.filter Succeeds).map fun call => (call.2.socket, some call.1) := by
  induction addrs generalizing server fails with
  | nil => exact ⟨[], by simp [bindLoop], rfl⟩
  | cons call addrs ih =>
      obtain ⟨i, k⟩ := call
      obtain ⟨hfirst, hrest⟩ := List.forall_mem_cons.mp h
      obtain ⟨sock, hfd, hbound, hstep⟩ := bindAddress_of_binds hfirst server fails
      cases hsucceeds : Succeeds (i, k) with
      | true =>
          rw [hsucceeds] at hstep
          obtain ⟨added, hloop, hadded⟩ := ih hrest ⟨server.sockets ++ [sock]⟩ fails
          refine ⟨sock :: added, ?_, ?_⟩
          · simp [bindLoop, hstep, Bind.bind, Except.bind, hloop, hsucceeds]
          · simp [hsucceeds, hfd, hbound, hadded]
      | false =>
          rw [hsucceeds] at hstep
          obtain ⟨added, hloop, hadded⟩ := ih hrest server (fails ++ [i])
          refine ⟨added, ?_, ?_⟩
          · simp [bindLoop, hstep, Bind.bind, Except.bind, hloop, hsucceeds]
          · simp [hsucceeds, hadded]

theorem bindLoop_counts (h : bindLoop server fails addrs = .ok (server', fails')) :
    fails.length + server.sockets.length + addrs.length ≤
        fails'.length + server'.sockets.length ∧
      (fails'.length + server'.sockets.length =
        fails.length + server.sockets.length + addrs.length → ∀ call ∈ addrs, Binds call) := by
  induction addrs generalizing server fails with
  | nil =>
      cases h
      simp
  | cons call addrs ih =>
      obtain ⟨i, k⟩ := call
      obtain ⟨⟨mid, fmid⟩, hstep, hrest⟩ := bind_eq_ok.mp h
      obtain ⟨hle, heq⟩ := ih hrest
      by_cases hbinds : Binds (i, k)
      · obtain ⟨sock, -, -, hok⟩ := bindAddress_of_binds hbinds server fails
        have hone : fmid.length + mid.sockets.length =
            fails.length + server.sockets.length + 1 := by
          rw [hok] at hstep
          cases hsucceeds : Succeeds (i, k) <;> rw [hsucceeds] at hstep <;> cases hstep <;>
            simp <;> omega
        simp only [List.length_cons, List.forall_mem_cons]
        exact ⟨by omega, fun hlength => ⟨hbinds, heq (by omega)⟩⟩
      · have htwo := bindAddress_of_not_binds hbinds hstep
        simp only [List.length_cons]
        exact ⟨by omega, fun hlength => by omega⟩

/-- The outputs are right exactly when every address of the list gets a socket bound to it. -/
theorem bind_reported_iff (server : TcpServer) (addrs : List (Address × Answers)) :
    (∃ result server' fails, server.bind addrs [] = .ok (result, server', fails) ∧
      Reported server addrs result server' fails) ↔ ∀ call ∈ addrs, Binds call := by
  constructor
  · rintro ⟨result, server', fails, hbind, hreported⟩
    obtain ⟨⟨server₁, fails₁⟩, hloop, hbind⟩ := bind_eq_ok.mp hbind
    cases hbind
    apply (bindLoop_counts hloop).2
    obtain ⟨added, hsockets, hadded⟩ := hreported.sockets_eq
    have hkept : added.length = (addrs.filter Succeeds).length := by
      simpa using congrArg List.length hadded
    have hsplit := List.length_eq_length_filter_add (l := addrs) Succeeds
    rw [hreported.fails_eq, hsockets, List.length_map, List.length_append]
    simp only [List.length_nil]
    omega
  · intro h
    obtain ⟨added, hloop, hadded⟩ := bindLoop_of_binds h server []
    have hbind := congrArg (Except.bind · fun out => .ok (out.2.isEmpty, out.1, out.2)) hloop
    refine ⟨_, _, _, hbind, ?_, rfl, added, rfl, hadded⟩
    simp

/-- A server on any address, whose port is in use. -/
def inUse : Address × Answers :=
  (.ipv4 (.new 0 80), ⟨some 3, true, true, false, none, true, true⟩)

/-- A socket that could not be bound is kept as one that could. -/
theorem bind_keeps_unbound :
    ∃ server' fails, (⟨[]⟩ : TcpServer).bind [inUse] [] = .ok (false, server', fails) ∧
      server'.sockets.map (·.bound) = [none] ∧
      ¬ Reported ⟨[]⟩ [inUse] false server' fails := by
  refine ⟨_, _, rfl, rfl, fun h => ?_⟩
  obtain ⟨added, hsockets, hadded⟩ := h.sockets_eq
  cases hsockets
  cases hadded

end TcpServer

end Qslary.Sockets

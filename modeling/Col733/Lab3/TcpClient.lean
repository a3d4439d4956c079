import Col733.Lab3.SocketHelpers
import Col733.Misc.Frame
import Col733.Misc.Json
import Col733.Misc.System

/-!
# `TcpClient` and `Server.handle_client`

A blocking `TcpClient` with its pool of sockets, any number of calls of `send` in threads of
their own, and at the other end of each socket a thread of `handle_client`. A step is one of
a call (`get_sock`, which looks at the pool before it pops, `sendall`, a `recv` of the reply,
`release_sock`) or one of a handler. What `_process_req` returns is not determined, as it
depends on the server and on everything else that the server is doing. Every socket operation
may raise; the connection of the client's socket is dead from then on. A peer that has raised
closes the connection.
-/

namespace Col733.Lab3.TcpClient

/-- `json.dumps(d).encode()` and `json.loads(b.decode())`, `none` when they raise. -/
structure Codec where
  dumps : Json → Option (List UInt8)
  loads : List UInt8 → Option Json

/-- `JsonMessage.serialize`. -/
def Codec.serialize (codec : Codec) (message : Json) : Option (List UInt8) :=
  (codec.dumps message).bind frame

/-- What `recv_message` returns or raises: an error code without a message, or a message with
`MESSAGE_VALID`. -/
inductive Received where
  | invalid (errCode : Nat)
  | valid (message : Json)
  | raised

/-- The end of `recv_message` when `recvall` has returned `None`. After the header the missing
body is logged first, by a call that raises when the logger formats the message, `None`, with
its argument. -/
def endOfStream (logged : Bool) (got : List UInt8) : Received :=
  if got.length < 8 then .invalid messageHeaderInvalid
  else if logged then .invalid messageBodyInvalid
  else .raised

/-- The end of `recv_message` when all bytes are there. An empty body is taken for none. -/
def Codec.received (codec : Codec) (logged : Bool) (got : List UInt8) : Received :=
  if bodyOf got = [] then
    if logged then .invalid messageBodyInvalid else .raised
  else
    match codec.loads (bodyOf got) with
    | some message => .valid message
    | none => .raised

/-! ## The peer -/

/-- Where a thread of `handle_client` stands. -/
inductive Handler where
  /-- In `recv_message`, with what it has got of the request. -/
  | reading (got : List UInt8)
  /-- In `_process_req`, with the body of the request. -/
  | processing (body : List UInt8)
  /-- Before `sendall`. -/
  | replying (reply : Json)
  /-- An exception has been caught, and the socket is closed. -/
  | closed

def Handler.isClosed : Handler → Bool
  | .closed => true
  | .reading _ | .processing _ | .replying _ => false

/-- The connection of a socket of the pool. `requests` are the calls that have sent their
request on it and `handled` the requests that the peer has dealt with, each with the reply
that was produced; they are history variables, which no guard reads. -/
structure Connection where
  up : List UInt8 := []
  down : List UInt8 := []
  dead : Bool := false
  handler : Handler := .reading []
  requests : List Nat := []
  handled : List (List UInt8 × Option Json) := []

/-- The reply of `handle_client` when there is no request. -/
def errorReply (errCode : Nat) : Json :=
  .obj [("error_msg", .str (statusText errCode)), ("error_code", .int errCode)]

inductive PeerAction where
  /-- A `recv` returns `k` bytes. -/
  | recv (k : Nat)
  /-- A `recv` finds the end of the stream. -/
  | eof (logged : Bool)
  /-- The whole request is there. -/
  | request (logged : Bool)
  /-- `_process_req` returns. -/
  | process (outcome : Option Json)
  /-- The reply is serialized and sent. -/
  | reply
  /-- A socket operation or `_process_req` raises; `k` bytes of a reply have been sent. -/
  | fails (k : Nat)

namespace Connection

variable (codec : Codec) (conn : Connection)

/-- The bytes that `sendall` is about to send. -/
def unsent : List UInt8 :=
  match conn.handler with
  | .replying reply => (codec.serialize reply).getD []
  | _ => []

/-- The loop of `handle_client` after `recv_message`. -/
def dispatch (body : List UInt8) : Received → Connection
  | .invalid errCode =>
    { conn with
      handler := .replying (errorReply errCode)
      handled := conn.handled ++ [(body, some (errorReply errCode))] }
  | .valid _ => { conn with handler := .processing body }
  | .raised => { conn with handler := .closed }

def peerStep : PeerAction → Option Connection
  | .recv k =>
    match conn.handler with
    | .reading got =>
      if 0 < k ∧ k ≤ missing got ∧ k ≤ conn.up.length then
        some { conn with up := conn.up.drop k, handler := .reading (got ++ conn.up.take k) }
      else none
    | _ => none
  | .eof logged =>
    match conn.handler with
    | .reading got =>
      -- the client closes no socket of its pool, so that only a dead connection ends
      if conn.dead = true ∧ conn.up = [] ∧ 0 < missing got then
        some (conn.dispatch [] (endOfStream logged got))
      else none
    | _ => none
  | .request logged =>
    match conn.handler with
    | .reading got =>
      if missing got = 0 then some (conn.dispatch (bodyOf got) (codec.received logged got))
      else none
    | _ => none
  | .process outcome =>
    match conn.handler with
    | .processing body =>
      some { conn with
        handler := outcome.elim (.reading []) .replying
        handled := conn.handled ++ [(body, outcome)] }
    | _ => none
  | .reply =>
    match conn.handler with
    | .replying reply =>
      match codec.serialize reply with
      | some whole => some { conn with down := conn.down ++ whole, handler := .reading [] }
      | none => some { conn with handler := .closed }
    | _ => none
  | .fails k =>
    if conn.handler.isClosed then none
    else some { conn with down := conn.down ++ (conn.unsent codec).take k, handler := .closed }

/-- A `recv` of the client finds the end of the stream. -/
def ended : Bool := conn.dead || (conn.handler.isClosed && conn.down.isEmpty)

end Connection

/-! ## The client -/

/-- What `send` returns, or that it raises. -/
inductive Result where
  /-- The message that was read and decoded. -/
  | decoded (reply : Json)
  /-- The message that the client makes up, `{"status": text}`. -/
  | status (text : String)
  /-- `None`, after an exception. -/
  | nothing
  /-- `get_sock` has raised. -/
  | raised

/-- What `send` makes of the end of `recv_message`. -/
def Received.result : Received → Result
  | .invalid errCode => .status (statusText errCode)
  | .valid message => .decoded message
  | .raised => .nothing

/-- Where a call of `send` stands. -/
inductive Phase where
  /-- Before the assertion of `get_sock`. -/
  | started
  /-- Before `pop`. -/
  | asserted
  /-- With a socket, before `sendall`. -/
  | holding (x : Nat)
  /-- In `recv_message`, with what it has got of the reply. -/
  | reading (x : Nat) (got : List UInt8)
  /-- In the `finally` block. -/
  | releasing (x : Nat) (result : Result)
  | returned (result : Result)

/-- The socket that the call holds. -/
def Phase.socket : Phase → Option Nat
  | .holding x | .reading x _ | .releasing x _ => some x
  | .started | .asserted | .returned _ => none

/-- What the call is to return. -/
def Phase.result : Phase → Option Result
  | .releasing _ result | .returned result => some result
  | _ => none

/-- The message that the call has returned, if it has returned a decoded one. -/
def Phase.decoded : Phase → Option Json
  | .returned (.decoded m) => some m
  | _ => none

theorem Phase.decoded_eq_some {phase : Phase} {m : Json} (decoded : phase.decoded = some m) :
    phase = .returned (.decoded m) := by
  unfold Phase.decoded at decoded
  split at decoded
  · cases decoded
    rfl
  · cases decoded

structure Call where
  message : Json
  phase : Phase

/-- `idle` is `client_sockets`, the end of the list first: `pop` and `append` work on that
end. -/
structure State where
  idle : List Nat
  calls : Nat → Option Call
  conns : Nat → Connection

inductive Action where
  | call (c : Nat) (message : Json)
  | check (c : Nat)
  | pop (c : Nat)
  | sendAll (c : Nat)
  | sendFails (c k : Nat)
  | recv (c k : Nat)
  | recvEnds (c : Nat) (logged : Bool)
  | recvFails (c : Nat)
  | received (c : Nat) (logged : Bool)
  | release (c : Nat)
  | peer (x : Nat) (a : PeerAction)

namespace State

def setCall (s : State) (c : Nat) (message : Json) (phase : Phase) : State :=
  { s with calls := Function.update s.calls c (some { message, phase }) }

def setConn (s : State) (x : Nat) (conn : Connection) : State :=
  { s with conns := Function.update s.conns x conn }

/-- The socket that a call holds. -/
def held (s : State) (c : Nat) : Option Nat := (s.calls c).bind fun call => call.phase.socket

/-- The pool with all its sockets connected. -/
def initial (sockPoolSz : Nat) : State where
  idle := (List.range sockPoolSz).reverse
  calls := fun _ => none
  conns := fun _ => {}

end State

def step (codec : Codec) (s : State) : Action → Option State
  | .call c message =>
    match s.calls c with
    | none => some (s.setCall c message .started)
    | some _ => none
  | .check c =>
    match s.calls c with
    | some ⟨message, .started⟩ =>
      some (s.setCall c message (if s.idle = [] then .returned .raised else .asserted))
    | _ => none
  | .pop c =>
    match s.calls c with
    | some ⟨message, .asserted⟩ =>
      match s.idle with
      | [] => some (s.setCall c message (.returned .raised))
      | x :: rest => some ({ s with idle := rest }.setCall c message (.holding x))
    | _ => none
  | .sendAll c =>
    match s.calls c with
    | some ⟨message, .holding x⟩ =>
      match codec.serialize message with
      | some whole =>
        let conn := s.conns x
        some ((s.setConn x
          { conn with up := conn.up ++ whole, requests := conn.requests ++ [c] }).setCall c message
            (.reading x []))
      | none => some (s.setCall c message (.releasing x .nothing))
    | _ => none
  | .sendFails c k =>
    match s.calls c with
    | some ⟨message, .holding x⟩ =>
      let conn := s.conns x
      (codec.serialize message).map fun whole =>
        (s.setConn x { conn with up := conn.up ++ whole.take k, dead := true }).setCall c message
          (.releasing x .nothing)
    | _ => none
  | .recv c k =>
    match s.calls c with
    | some ⟨message, .reading x got⟩ =>
      let conn := s.conns x
      if conn.dead = false ∧ 0 < k ∧ k ≤ missing got ∧ k ≤ conn.down.length then
        some ((s.setConn x { conn with down := conn.down.drop k }).setCall c message
          (.reading x (got ++ conn.down.take k)))
      else none
    | _ => none
  | .recvEnds c logged =>
    match s.calls c with
    | some ⟨message, .reading x got⟩ =>
      if 0 < missing got ∧ (s.conns x).ended = true then
        some (s.setCall c message (.releasing x (endOfStream logged got).result))
      else none
    | _ => none
  | .recvFails c =>
    match s.calls c with
    | some ⟨message, .reading x got⟩ =>
      let conn := s.conns x
      if 0 < missing got then
        some ((s.setConn x { conn with dead := true }).setCall c message (.releasing x .nothing))
      else none
    | _ => none
  | .received c logged =>
    match s.calls c with
    | some ⟨message, .reading x got⟩ =>
      if missing got = 0 then
        some (s.setCall c message (.releasing x (codec.received logged got).result))
      else none
    | _ => none
  | .release c =>
    match s.calls c with
    | some ⟨message, .releasing x result⟩ =>
      some ({ s with idle := x :: s.idle }.setCall c message (.returned result))
    | _ => none
  | .peer x a => ((s.conns x).peerStep codec a).map (s.setConn x)

def system (codec : Codec) (sockPoolSz : Nat) : System State Action where
  init := State.initial sockPoolSz
  step := step codec

end Col733.Lab3.TcpClient

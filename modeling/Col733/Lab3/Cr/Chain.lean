import Col733.Lab3.SocketHelpers
import Col733.Misc.System
import Mathlib.Logic.Function.Basic

/-!
# The chain of `CRServer`s

`cr/cr_server.py`, `cr/cr_cluster.py` and the parts of `core/network.py` and
`core/server.py` that a request passes through. The servers are numbered from
the head, 0, to the tail. Every request has its own handler thread at each server
it reaches: a SET assigns `self.d[key]`, takes a socket of the pool towards the
next server, sends the request on it and blocks until the reply is there, so a
SET in flight is a stack of blocked handlers and its state is the place where it
stands (`Phase`) with the sockets its handlers hold. A step is one atomic action
of one handler, in any order; sockets of one hop are independent of each other,
so that requests may overtake one another between two servers.

A chain that has more requests in flight than sockets in a pool is part of the
model: `get_sock` finds the pool empty, the assertion ends the handler, and the
socket on which the request came is closed.

Connections do not fail by themselves. A socket whose peer has raised is put back into
its pool, and what the next handler finds on it (`forwardDead`, `unanswered`) is part of
the step; but from the initial state no run gets there, since a handler that raises was
called by a client and never by another server (`HopInv`). Every request of a client
comes on an open connection; what a client finds that calls again on a closed one is
modelled with the client.
-/

namespace Col733.Lab3.Cr

/-- A chain of at least one server, with `sock_pool_size` sockets between two
neighbours. -/
structure Chain where
  len : Nat
  lenPos : 0 < len
  poolSz : Nat

namespace Chain

/-- `self.next`: the number of the next server, `none` at the tail. -/
def next (c : Chain) (i : Nat) : Option Nat :=
  if i + 1 < c.len then some (i + 1) else none

def tail (c : Chain) : Nat := c.len - 1

end Chain

/-- `CrCluster`: a, b, c and d, with pools of `POOL_SZ` sockets. -/
def crCluster : Chain := { len := 4, lenPos := by decide, poolSz := 32 }

/-- The requests a `CrClient` sends, `type` being the constructor. -/
inductive Request where
  | set (key val : String)
  | get (key : String)
  deriving DecidableEq, Repr

/-- A reply message: its `status` and, for a GET that is served, its `val`. -/
structure Reply where
  status : String
  val : Option String := none
  deriving DecidableEq, Repr

/-- What `TcpClient.send` returns when the peer has closed the connection. -/
def eofReply : Reply := { status := statusText messageHeaderInvalid }

/-- Where a request stands. The number is that of the server concerned. -/
inductive Phase where
  /-- The request is on its way to the server. -/
  | sent (i : Nat)
  /-- The handler has executed `self.d[req.key] = req.val`. -/
  | assigned (i : Nat)
  /-- The handler has returned the reply, which is on its way back. -/
  | replied (i : Nat) (reply : Reply)
  /-- The handler has raised and closed the connection. -/
  | closed (i : Nat)
  /-- The handler has returned `None`: nothing is sent back, ever. -/
  | unanswered (i : Nat)
  /-- The client's call has returned. -/
  | answered (reply : Reply)
  deriving DecidableEq, Repr

/-- The server at which the request stands. -/
def Phase.server : Phase → Option Nat
  | .sent i | .assigned i | .replied i _ | .closed i | .unanswered i => some i
  | .answered _ => none

/-- A request of a client that has been made. `socks` are the sockets held by its
blocked handlers, the one taken last first. -/
structure Call where
  client : Nat
  req : Request
  phase : Phase
  socks : List Nat
  deriving DecidableEq, Repr

/-- The state of the chain. `pool i` are the idle sockets of server `i` towards
server `i + 1`, `dead i` those whose connection the peer has closed. `applied i`
lists the SETs in the order in which server `i` assigned them; it is a history
variable, which no guard reads. -/
structure State where
  d : Nat → Dict String String
  pool : Nat → List Nat
  dead : Nat → List Nat
  calls : Nat → Option Call
  applied : Nat → List Nat

inductive Action where
  /-- A client sends a new request: a SET to the head, a GET to the tail. -/
  | invoke (id client : Nat) (req : Request)
  /-- The handler of a SET assigns the dictionary. -/
  | assign (id : Nat)
  /-- It takes an idle socket and sends the request to the next server. -/
  | forward (id sock : Nat)
  /-- It takes a socket whose peer has closed it; reading the reply finds the end
  of the stream, or raises. -/
  | forwardDead (id sock : Nat) (raises : Bool)
  /-- It finds no idle socket. -/
  | exhausted (id : Nat)
  /-- At the tail it answers. -/
  | finish (id : Nat)
  /-- The handler of a GET looks the key up. -/
  | lookup (id : Nat)
  /-- The previous handler reads the reply and releases the socket. -/
  | receive (id : Nat)
  /-- The client reads the reply. -/
  | respond (id : Nat)
  deriving DecidableEq, Repr

namespace State

/-- The call is replaced. -/
def setCall (s : State) (id : Nat) (call : Call) : State :=
  { s with calls := Function.update s.calls id (some call) }

/-- `self.d[key] = val` at server `i`, by the SET `id`. -/
def assign (s : State) (i id : Nat) (key val : String) : State :=
  { s with
    d := Function.update s.d i ((s.d i).set key val)
    applied := Function.update s.applied i (s.applied i ++ [id]) }

/-- `get_sock` at server `i`, the socket being the one that is popped. -/
def getSock (s : State) (i sock : Nat) : State :=
  { s with pool := Function.update s.pool i ((s.pool i).erase sock) }

/-- `release_sock` at server `i`. -/
def releaseSock (s : State) (i sock : Nat) : State :=
  { s with pool := Function.update s.pool i (s.pool i ++ [sock]) }

/-- The connection of the socket is closed by the peer. -/
def closeSock (s : State) (i sock : Nat) : State :=
  { s with dead := Function.update s.dead i (sock :: s.dead i) }

variable (s : State) (i id sock : Nat) (key val : String) (call : Call)

@[simp] theorem setCall_d : (s.setCall id call).d = s.d := rfl
@[simp] theorem setCall_pool : (s.setCall id call).pool = s.pool := rfl
@[simp] theorem setCall_dead : (s.setCall id call).dead = s.dead := rfl
@[simp] theorem setCall_applied : (s.setCall id call).applied = s.applied := rfl
@[simp] theorem setCall_calls :
    (s.setCall id call).calls = Function.update s.calls id (some call) := rfl
@[simp] theorem assign_d :
    (s.assign i id key val).d = Function.update s.d i ((s.d i).set key val) := rfl
@[simp] theorem assign_applied :
    (s.assign i id key val).applied = Function.update s.applied i (s.applied i ++ [id]) := rfl
@[simp] theorem assign_calls : (s.assign i id key val).calls = s.calls := rfl
@[simp] theorem assign_pool : (s.assign i id key val).pool = s.pool := rfl
@[simp] theorem getSock_d : (s.getSock i sock).d = s.d := rfl
@[simp] theorem getSock_calls : (s.getSock i sock).calls = s.calls := rfl
@[simp] theorem getSock_applied : (s.getSock i sock).applied = s.applied := rfl
@[simp] theorem releaseSock_d : (s.releaseSock i sock).d = s.d := rfl
@[simp] theorem releaseSock_calls : (s.releaseSock i sock).calls = s.calls := rfl
@[simp] theorem releaseSock_applied : (s.releaseSock i sock).applied = s.applied := rfl
@[simp] theorem closeSock_d : (s.closeSock i sock).d = s.d := rfl
@[simp] theorem closeSock_calls : (s.closeSock i sock).calls = s.calls := rfl
@[simp] theorem closeSock_applied : (s.closeSock i sock).applied = s.applied := rfl

end State

namespace Chain

/-- `CrClient.set` sends on `conns[0]`, `CrClient.get` on `conns[-1]`. -/
def entry (c : Chain) : Request → Nat
  | .set _ _ => 0
  | .get _ => c.tail

/-- `CRServer._get` at server `i`: the assertion that this is the tail, then the
lookup. An exception closes the connection. -/
def get (c : Chain) (s : State) (i : Nat) (key : String) : Phase :=
  match c.next i with
  | some _ => .closed i
  | none =>
    match (s.d i).get? key with
    | some val => .replied i { status := "OK", val := some val }
    | none => .closed i

/-- One action of one handler, or of a client. -/
def step (c : Chain) (s : State) : Action → Option State
  | .invoke id client req =>
    match s.calls id with
    | none => some (s.setCall id ⟨client, req, .sent (c.entry req), []⟩)
    | some _ => none
  | .assign id =>
    match s.calls id with
    | some ⟨client, .set key val, .sent i, socks⟩ =>
      some ((s.assign i id key val).setCall id ⟨client, .set key val, .assigned i, socks⟩)
    | _ => none
  | .forward id sock =>
    match s.calls id with
    | some ⟨client, req, .assigned i, socks⟩ =>
      if (c.next i).isSome ∧ sock ∈ s.pool i ∧ sock ∉ s.dead i then
        some ((s.getSock i sock).setCall id ⟨client, req, .sent (i + 1), sock :: socks⟩)
      else none
    | _ => none
  | .forwardDead id sock raises =>
    match s.calls id with
    | some ⟨client, req, .assigned i, socks⟩ =>
      -- the socket is taken and released again, in every outcome
      if (c.next i).isSome ∧ sock ∈ s.pool i ∧ sock ∈ s.dead i then
        some (((s.getSock i sock).releaseSock i sock).setCall id
          ⟨client, req, if raises then .unanswered i else .replied i eofReply, socks⟩)
      else none
    | _ => none
  | .exhausted id =>
    match s.calls id with
    | some ⟨client, req, .assigned i, socks⟩ =>
      if (c.next i).isSome ∧ s.pool i = [] then
        some (s.setCall id ⟨client, req, .closed i, socks⟩)
      else none
    | _ => none
  | .finish id =>
    match s.calls id with
    | some ⟨client, req, .assigned i, socks⟩ =>
      if c.next i = none then
        some (s.setCall id ⟨client, req, .replied i { status := "OK" }, socks⟩)
      else none
    | _ => none
  | .lookup id =>
    match s.calls id with
    | some ⟨client, .get key, .sent i, socks⟩ =>
      some (s.setCall id ⟨client, .get key, c.get s i key, socks⟩)
    | _ => none
  | .receive id =>
    match s.calls id with
    | some ⟨client, req, .replied (i + 1) reply, sock :: socks⟩ =>
      some ((s.releaseSock i sock).setCall id ⟨client, req, .replied i reply, socks⟩)
    | some ⟨client, req, .closed (i + 1), sock :: socks⟩ =>
      some (((s.closeSock i sock).releaseSock i sock).setCall id
        ⟨client, req, .replied i eofReply, socks⟩)
    | _ => none
  | .respond id =>
    match s.calls id with
    | some ⟨client, req, .replied _ reply, []⟩ =>
      some (s.setCall id ⟨client, req, .answered reply, []⟩)
    | some ⟨client, req, .closed _, []⟩ =>
      some (s.setCall id ⟨client, req, .answered eofReply, []⟩)
    | _ => none

/-- The chain at its start: empty dictionaries, and the pools created. -/
def system (c : Chain) : System State Action where
  init :=
    { d := fun _ => Dict.empty
      pool := fun _ => List.range c.poolSz
      dead := fun _ => []
      calls := fun _ => none
      applied := fun _ => [] }
  step := c.step

/-- What a step of the chain can be, one case for each outcome of an action. -/
inductive Moves (c : Chain) (s : State) : Action → State → Prop
  | invoke (id client : Nat) (req : Request) (fresh : s.calls id = none) :
      Moves c s (.invoke id client req) (s.setCall id ⟨client, req, .sent (c.entry req), []⟩)
  | assign (id client i : Nat) (key val : String) (socks : List Nat)
      (at_ : s.calls id = some ⟨client, .set key val, .sent i, socks⟩) :
      Moves c s (.assign id)
        ((s.assign i id key val).setCall id ⟨client, .set key val, .assigned i, socks⟩)
  | forward (id sock client i : Nat) (req : Request) (socks : List Nat)
      (at_ : s.calls id = some ⟨client, req, .assigned i, socks⟩) (inner : i + 1 < c.len)
      (idle : sock ∈ s.pool i) (open_ : sock ∉ s.dead i) :
      Moves c s (.forward id sock)
        ((s.getSock i sock).setCall id ⟨client, req, .sent (i + 1), sock :: socks⟩)
  | forwardEof (id sock client i : Nat) (req : Request) (socks : List Nat)
      (at_ : s.calls id = some ⟨client, req, .assigned i, socks⟩) (inner : i + 1 < c.len)
      (idle : sock ∈ s.pool i) (dead : sock ∈ s.dead i) :
      Moves c s (.forwardDead id sock false)
        (((s.getSock i sock).releaseSock i sock).setCall id
          ⟨client, req, .replied i eofReply, socks⟩)
  | forwardRaises (id sock client i : Nat) (req : Request) (socks : List Nat)
      (at_ : s.calls id = some ⟨client, req, .assigned i, socks⟩) (inner : i + 1 < c.len)
      (idle : sock ∈ s.pool i) (dead : sock ∈ s.dead i) :
      Moves c s (.forwardDead id sock true)
        (((s.getSock i sock).releaseSock i sock).setCall id ⟨client, req, .unanswered i, socks⟩)
  | exhausted (id client i : Nat) (req : Request) (socks : List Nat)
      (at_ : s.calls id = some ⟨client, req, .assigned i, socks⟩) (inner : i + 1 < c.len)
      (empty : s.pool i = []) :
      Moves c s (.exhausted id) (s.setCall id ⟨client, req, .closed i, socks⟩)
  | finish (id client i : Nat) (req : Request) (socks : List Nat)
      (at_ : s.calls id = some ⟨client, req, .assigned i, socks⟩) (last : ¬ i + 1 < c.len) :
      Moves c s (.finish id)
        (s.setCall id ⟨client, req, .replied i { status := "OK" }, socks⟩)
  | lookup (id client i : Nat) (key : String) (socks : List Nat)
      (at_ : s.calls id = some ⟨client, .get key, .sent i, socks⟩) :
      Moves c s (.lookup id) (s.setCall id ⟨client, .get key, c.get s i key, socks⟩)
  | receive (id sock client i : Nat) (req : Request) (reply : Reply) (socks : List Nat)
      (at_ : s.calls id = some ⟨client, req, .replied (i + 1) reply, sock :: socks⟩) :
      Moves c s (.receive id)
        ((s.releaseSock i sock).setCall id ⟨client, req, .replied i reply, socks⟩)
  | receiveEof (id sock client i : Nat) (req : Request) (socks : List Nat)
      (at_ : s.calls id = some ⟨client, req, .closed (i + 1), sock :: socks⟩) :
      Moves c s (.receive id)
        (((s.closeSock i sock).releaseSock i sock).setCall id
          ⟨client, req, .replied i eofReply, socks⟩)
  | respond (id client i : Nat) (req : Request) (reply : Reply)
      (at_ : s.calls id = some ⟨client, req, .replied i reply, []⟩) :
      Moves c s (.respond id) (s.setCall id ⟨client, req, .answered reply, []⟩)
  | respondEof (id client i : Nat) (req : Request)
      (at_ : s.calls id = some ⟨client, req, .closed i, []⟩) :
      Moves c s (.respond id) (s.setCall id ⟨client, req, .answered eofReply, []⟩)

theorem next_isSome_iff (c : Chain) (i : Nat) : (c.next i).isSome ↔ i + 1 < c.len := by
  simp [next]

theorem next_eq_none_iff (c : Chain) (i : Nat) : c.next i = none ↔ ¬ i + 1 < c.len := by
  simp [next]

/-- Every later proof about a step is a case analysis on `Moves`. -/
theorem moves_of_step {c : Chain} {s s' : State} {a : Action} (step : c.step s a = some s') :
    Moves c s a s' := by
  cases a with
  | invoke id client req =>
    simp only [Chain.step] at step
    split at step
    · cases step
      exact .invoke id client req ‹_›
    · cases step
  | assign id =>
    simp only [Chain.step] at step
    split at step
    · cases step
      exact .assign id _ _ _ _ _ ‹_›
    · cases step
  | forward id sock =>
    simp only [Chain.step] at step
    split at step
    · split at step
      · rename_i guard
        cases step
        exact .forward id sock _ _ _ _ ‹_› ((next_isSome_iff c _).mp guard.1) guard.2.1 guard.2.2
      · cases step
    · cases step
  | forwardDead id sock raises =>
    simp only [Chain.step] at step
    split at step
    · split at step
      · rename_i guard
        have inner := (next_isSome_iff c _).mp guard.1
        cases raises with
        | false =>
          cases step
          exact .forwardEof id sock _ _ _ _ ‹_› inner guard.2.1 guard.2.2
        | true =>
          cases step
          exact .forwardRaises id sock _ _ _ _ ‹_› inner guard.2.1 guard.2.2
      · cases step
    · cases step
  | exhausted id =>
    simp only [Chain.step] at step
    split at step
    · split at step
      · rename_i guard
        cases step
        exact .exhausted id _ _ _ _ ‹_› ((next_isSome_iff c _).mp guard.1) guard.2
      · cases step
    · cases step
  | finish id =>
    simp only [Chain.step] at step
    split at step
    · split at step
      · rename_i guard
        cases step
        exact .finish id _ _ _ _ ‹_› ((next_eq_none_iff c _).mp guard)
      · cases step
    · cases step
  | lookup id =>
    simp only [Chain.step] at step
    split at step
    · cases step
      exact .lookup id _ _ _ _ ‹_›
    · cases step
  | receive id =>
    simp only [Chain.step] at step
    split at step
    · cases step
      exact .receive id _ _ _ _ _ _ ‹_›
    · cases step
      exact .receiveEof id _ _ _ _ _ ‹_›
    · cases step
  | respond id =>
    simp only [Chain.step] at step
    split at step
    · cases step
      exact .respond id _ _ _ _ ‹_›
    · cases step
      exact .respondEof id _ _ _ ‹_›
    · cases step

end Chain

end Col733.Lab3.Cr

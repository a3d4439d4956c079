import Col733.Lab4.Message
import Mathlib.Data.Finset.Insert
import Mathlib.Data.Finset.Erase

/-!
# `core/network.py` and the `ServerInfo` of `core/server.py`

A `ConnectionStub` keeps the connections of a server and the set of those that are
severed for the time being.
-/

namespace Col733.Lab4

structure ServerInfo where
  name : String
  port : Nat
  host : String := "localhost"
  deriving DecidableEq, Repr

/-- A `ConnectionStub`. Only a connection can be severed. A `TcpClient` is the server
it connects to. -/
structure ConnectionStub where
  connections : Dict String ServerInfo
  blockingClients : Dict String ServerInfo
  dcServers : Finset String
  known : ∀ peer ∈ dcServers, connections.contains peer = true

namespace ConnectionStub

/-- `ConnectionStub.__init__`, the set of the connections given in the order in which
it is iterated. -/
def new (connections : List ServerInfo) : ConnectionStub where
  connections := Dict.ofList (connections.map fun si => (si.name, si))
  blockingClients := Dict.empty
  dcServers := ∅
  known := by simp

/-- `initalize_connections`. -/
def initalizeConnections (stub : ConnectionStub) : ConnectionStub :=
  { stub with
    blockingClients := stub.connections.values.foldl (fun d si => d.set si.name si)
      stub.blockingClients }

/-- `send`, where `reply` is what `channel.send(message)` returns if it is called. The
text of the assertion goes on with the clients, whose `repr` is an address. -/
def send (stub : ConnectionStub) (from_ to_ : String) (reply : Option JsonMessage) :
    Except Raised (Option JsonMessage) :=
  if stub.blockingClients.contains to_ = false then
    .error (.assertionError ("Connection " ++ to_ ++ " doesn't exist in " ++ from_))
  else if to_ ∈ stub.dcServers then .error .simulatedConnectionError
  else .ok reply

/-- `sever_connection`. -/
def severConnection (stub : ConnectionStub) (peer : String) : Except Raised ConnectionStub :=
  if connected : stub.connections.contains peer = true then
    .ok { stub with
      dcServers := insert peer stub.dcServers
      known := by
        intro other severed
        rcases Finset.mem_insert.mp severed with same | before
        · exact same ▸ connected
        · exact stub.known other before }
  else .error (.assertionError "Tried to sever non-existing connection")

/-- `unsever_connection`: `set.remove` raises `KeyError` for a peer that is not in the
set. -/
def unseverConnection (stub : ConnectionStub) (peer : String) : Except Raised ConnectionStub :=
  if stub.connections.contains peer = true then
    if peer ∈ stub.dcServers then
      .ok { stub with
        dcServers := stub.dcServers.erase peer
        known := fun other severed => stub.known other (Finset.mem_of_mem_erase severed) }
    else .error (.keyError (.str peer))
  else .error (.assertionError "Tried to unsever non-existing connection")

end ConnectionStub

end Col733.Lab4

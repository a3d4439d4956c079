import Col733.Lab4.Cluster
import Col733.Misc.System

/-!
# A Bayou server at work

The thread `_anti_entropy` of `bayou/server.py` and the handlers of the requests, as one
system: a step is the handling of one request, or one turn of the loop over the peers.
A handler that raises ends alone, the thread of the loop ends with the exception that
it does not handle.
-/

namespace Col733.Lab4

/-- `for x in value`: the items of a list, the characters of a string, the keys of a
dictionary. -/
def iterate : Json → Except Raised (List Json)
  | .arr xs => .ok xs
  | .str s => .ok (s.toList.map fun c => .str (String.singleton c))
  | .obj items => .ok (items.map fun item => .str item.1)
  | .null | .bool _ | .int _ | .float _ => .error .typeError

namespace BayouAppServer

/-- `self.deserialize(c, c["req_type"])`: only a dictionary can be indexed by a string. -/
def deserializeItem (s : BayouAppServer) (now : Int) : Json → Except Raised AppLogEntry
  | .obj items => do
    let msg : JsonMessage := Dict.ofList items
    let reqType ← JsonMessage.getItem msg "req_type"
    deserialize s.name now msg reqType
  | _ => .error .typeError

/-- `[self.deserialize(c, c["req_type"]) for c in committed]`. -/
def deserializeItems (s : BayouAppServer) (now : Int) : List Json → Except Raised (List AppLogEntry)
  | [] => .ok []
  | item :: items => do
    let entry ← s.deserializeItem now item
    let entries ← s.deserializeItems now items
    return entry :: entries

/-- What `__send_anti_entropy` makes of the response. `raise NotImplemented()` raises
`TypeError`, as `NotImplemented` cannot be called. -/
def readResponse (env : Env) (s : BayouAppServer) (now : Int) (response : JsonMessage) :
    Except Raised (List AppLogEntry × List AppLogEntry) := do
  let committed ← JsonMessage.getItem response "committed"
  let tentative ← JsonMessage.getItem response "tentative"
  let committedLogs ← s.deserializeItems now (← iterate committed)
  let tentativeLogs ← env.sortedList (← s.deserializeItems now (← iterate tentative))
  if s.isMaster then .error .typeError else .ok (committedLogs, tentativeLogs)

/-- `__send_anti_entropy`, where `reply` is what the client of the peer returns. -/
def sendAntiEntropy (env : Env) (s : BayouAppServer) (now : Int) (peer : String)
    (reply : Option JsonMessage) : Except Raised (List AppLogEntry × List AppLogEntry) := do
  match ← s.connectionStub.send s.name peer reply with
  | none => .error (.assertionError "")
  | some response => s.readResponse env now response

/-- The body of the `try` of the loop. -/
def exchange (env : Env) (s : BayouAppServer) (now : Int) (peer : String)
    (reply : Option JsonMessage) : Except Raised Unit × BayouAppServer :=
  match s.sendAntiEntropy env now peer reply with
  | .error raised => (.error raised, s.setStorage s.storage)
  | .ok (committed, tentative) =>
    match env.apply s.storage committed tentative with
    | (.ok (), st) => (.ok (), s.setStorage st)
    | (.error text, st) => (.error (.assertionError text), s.setStorage st)

end BayouAppServer

/-- The thread of the loop: the peers to come in this round, those tried in it, the
rounds that are complete, and the exception with which the thread ended. -/
structure Loop where
  coming : List ServerInfo
  tried : List String := []
  rounds : List (List String) := []
  ended : Option Raised := none

/-- A server and its thread. -/
structure Node where
  server : BayouAppServer
  loop : Loop

inductive Action where
  /-- A handler processes a request. -/
  | request (now : Int) (msg : JsonMessage)
  /-- The loop turns to the next peer. -/
  | visit (now : Int) (reply : Option JsonMessage)
  /-- The loop begins a new round. -/
  | nextRound

namespace Node

/-- The node once `initalize_connections` has run. -/
def start (server : BayouAppServer) : Node where
  server := server.setStub server.connectionStub.initalizeConnections
  loop := { coming := server.peers }

/-- One turn of the inner loop of `_anti_entropy`. -/
def visit (env : Env) (n : Node) (now : Int) (peer : ServerInfo) (rest : List ServerInfo)
    (reply : Option JsonMessage) : Node :=
  if peer.name = n.server.name then { n with loop := { n.loop with coming := rest } }
  else
    let tried := n.loop.tried ++ [peer.name]
    match n.server.exchange env now peer.name reply with
    | (.ok (), server) => { server, loop := { n.loop with coming := rest, tried } }
    | (.error .simulatedConnectionError, server) =>
      { server, loop := { n.loop with coming := rest, tried } }
    | (.error raised, server) =>
      { server, loop := { n.loop with coming := rest, tried, ended := some raised } }

def step (env : Env) (n : Node) : Action → Option Node
  | .request now msg => some { n with server := (n.server.processReq env now msg).2 }
  | .visit now reply =>
    match n.loop.ended, n.loop.coming with
    | none, peer :: rest => some (n.visit env now peer rest reply)
    | _, _ => none
  | .nextRound =>
    match n.loop.ended, n.loop.coming with
    | none, [] => some { n with
        loop := { n.loop with
          coming := n.server.peers
          tried := []
          rounds := n.loop.rounds ++ [n.loop.tried] } }
    | _, _ => none

/-- The runs of a server of a cluster. -/
def system (env : Env) (server : BayouAppServer) : System Node Action :=
  { init := start server, step := step env }

end Node

/-! ## A small cluster -/

/-- The two servers of the tests, each connected to the other. -/
def twoServers : Topology :=
  Dict.ofList [({ name := "s1", port := 10005 }, [{ name := "s2", port := 10006 }]),
    ({ name := "s2", port := 10006 }, [{ name := "s1", port := 10005 }])]

/-- A storage that takes down whatever it is given, for entries that come sorted. -/
def Env.accepting : Env where
  isPrintable _ := true
  apply st commits tentatives :=
    (.ok (), { st with
      committedLog := st.committedLog ++ commits
      tentativeLog := st.tentativeLog ++ tentatives })
  antiEntropy st _ _ := (.ok ([], []), st)
  sortedList entries := .ok entries

end Col733.Lab4

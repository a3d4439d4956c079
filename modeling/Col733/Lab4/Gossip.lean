import Col733.Lab4.Node

/-!
# The servers of a cluster at work together

All servers of a topology with their threads, as one system. An exchange of anti-entropy is
taken in its parts: the loop hands its request to the client of the peer, the server that
listens at the address of this client handles it, and the loop takes the reply up. Between these
any handler can run, at either server. A client of the cluster can send any message.
-/

namespace Col733.Lab4

/-- The client that `send` uses: the server it connects to. -/
def ConnectionStub.channel (stub : ConnectionStub) (from_ to_ : String) : Except Raised ServerInfo :=
  match stub.blockingClients.get? to_ with
  | none => .error (.assertionError ("Connection " ++ to_ ++ " doesn't exist in " ++ from_))
  | some target => if to_ ∈ stub.dcServers then .error .simulatedConnectionError else .ok target

/-- `send` finds its client and returns what the client does. -/
theorem ConnectionStub.send_eq (stub : ConnectionStub) (from_ to_ : String)
    (reply : Option JsonMessage) :
    stub.send from_ to_ reply = (stub.channel from_ to_).map fun _ => reply := by
  unfold send channel Dict.contains
  cases stub.blockingClients.get? to_ with
  | none => rfl
  | some target =>
    by_cases severed : to_ ∈ stub.dcServers
    · simp [severed, Except.map]
    · simp [severed, Except.map]

namespace BayouAppServer

/-- The message of `__send_anti_entropy`. -/
def antiEntropyReq (s : BayouAppServer) : JsonMessage :=
  AntiEntropyReq.toMsg { c := s.storage.c, f := s.storage.f }

/-- `self.storage.apply(committed, tentative)`. -/
def applyEntries (env : Env) (s : BayouAppServer) (committed tentative : List AppLogEntry) :
    Except Raised Unit × BayouAppServer :=
  match env.apply s.storage committed tentative with
  | (.ok (), st) => (.ok (), s.setStorage st)
  | (.error text, st) => (.error (.assertionError text), s.setStorage st)

/-- The rest of the `try` of the loop, once the client of the peer has returned `reply`. -/
def takeUp (env : Env) (s : BayouAppServer) (now : Int) (reply : Option JsonMessage) :
    Except Raised Unit × BayouAppServer :=
  match reply with
  | none => (.error (.assertionError ""), s)
  | some response =>
    match s.readResponse env now response with
    | .error raised => (.error raised, s)
    | .ok (committed, tentative) => s.applyEntries env committed tentative

theorem deserializeItems_congr {s s' : BayouAppServer} (name : s'.name = s.name) (now : Int)
    (items : List Json) : s'.deserializeItems now items = s.deserializeItems now items := by
  induction items with
  | nil => rfl
  | cons item items ih =>
    have first : s'.deserializeItem now item = s.deserializeItem now item := by
      cases item <;> simp only [deserializeItem, name]
    rw [deserializeItems, deserializeItems, first, ih]

/-- Reading a reply takes nothing of the server but what is fixed. -/
theorem readResponse_congr {s s' : BayouAppServer} (same : SameServer s s') (env : Env) (now : Int)
    (response : JsonMessage) : s'.readResponse env now response = s.readResponse env now response := by
  have name : s'.name = s.name := congrArg ServerInfo.name same.info
  simp only [readResponse, deserializeItems_congr name, same.isMaster]

/-- The server and `peer` have one address: who connects to `peer` reaches the server. -/
def ListensAt (s : BayouAppServer) (peer : ServerInfo) : Prop :=
  s.info.host = peer.host ∧ s.info.port = peer.port

instance (s : BayouAppServer) (peer : ServerInfo) : Decidable (s.ListensAt peer) :=
  inferInstanceAs (Decidable (_ ∧ _))

end BayouAppServer

/-- Where the loop stands in an exchange. -/
inductive Turn where
  | idle
  /-- The client of the peer has been called. -/
  | waiting (peer : ServerInfo) (request : JsonMessage)
  /-- And it has returned. -/
  | returned (reply : Option JsonMessage)

/-- A server of the cluster, with its thread. -/
structure Party extends Node where
  turn : Turn := .idle

namespace Party

/-- The party once `initalize_connections` has run. -/
def start (server : BayouAppServer) : Party := { Node.start server with }

def setServer (p : Party) (server : BayouAppServer) : Party := { p with server }

def setTurn (p : Party) (turn : Turn) : Party := { p with turn }

@[simp] theorem server_setServer (p : Party) (s : BayouAppServer) :
    (p.setServer s).server = s := rfl

@[simp] theorem loop_setServer (p : Party) (s : BayouAppServer) :
    (p.setServer s).loop = p.loop := rfl

@[simp] theorem turn_setServer (p : Party) (s : BayouAppServer) :
    (p.setServer s).turn = p.turn := rfl

@[simp] theorem server_setTurn (p : Party) (turn : Turn) : (p.setTurn turn).server = p.server := rfl

@[simp] theorem loop_setTurn (p : Party) (turn : Turn) : (p.setTurn turn).loop = p.loop := rfl

@[simp] theorem turn_setTurn (p : Party) (turn : Turn) : (p.setTurn turn).turn = turn := rfl

/-- The loop is done with a peer: it goes on, or ends with what it does not handle. -/
def settle (p : Party) : Except Raised Unit → Party
  | .ok () | .error .simulatedConnectionError => p.setTurn .idle
  | .error raised => { p with loop := { p.loop with ended := some raised }, turn := .idle }

/-- The loop begins a new round. -/
def beginRound (p : Party) : Party :=
  { p with
    loop := { p.loop with
      coming := p.server.peers
      tried := []
      rounds := p.loop.rounds ++ [p.loop.tried] } }

/-- One turn of the inner loop of `_anti_entropy`, up to the call of the client. -/
def askPeer (p : Party) (peer : ServerInfo) (rest : List ServerInfo) : Party :=
  if peer.name = p.server.name then { p with loop := { p.loop with coming := rest } }
  else
    let p' : Party :=
      { p with
        server := p.server.setStorage p.server.storage
        loop := { p.loop with coming := rest, tried := p.loop.tried ++ [peer.name] } }
    match p.server.connectionStub.channel p.server.name peer.name with
    | .ok target => p'.setTurn (.waiting target p.server.antiEntropyReq)
    | .error raised => p'.settle (.error raised)

/-- The rest of the turn. -/
def take (env : Env) (p : Party) (now : Int) (reply : Option JsonMessage) : Party :=
  match p.server.takeUp env now reply with
  | (outcome, server) => (p.setServer server).settle outcome

/-- What an exchange comes to once its message is handed to the client. -/
theorem exchange_of_channel {env : Env} {s : BayouAppServer} {now : Int} {peer : String}
    {target : ServerInfo} (open_ : s.connectionStub.channel s.name peer = .ok target)
    (reply : Option JsonMessage) :
    s.exchange env now peer reply = (s.setStorage s.storage).takeUp env now reply := by
  have sent : s.sendAntiEntropy env now peer reply =
      match reply with
      | none => .error (.assertionError "")
      | some response => s.readResponse env now response := by
    unfold BayouAppServer.sendAntiEntropy
    rw [ConnectionStub.send_eq, open_]
    rfl
  unfold BayouAppServer.exchange BayouAppServer.takeUp
  cases reply with
  | none => rw [sent]
  | some response =>
    have read : (s.setStorage s.storage).readResponse env now response =
        s.readResponse env now response :=
      BayouAppServer.readResponse_congr (BayouAppServer.sameServer_setStorage s _) env now response
    rw [sent]
    simp only [read]
    cases s.readResponse env now response with
    | error raised => rfl
    | ok entries => rfl

theorem exchange_of_closed {env : Env} {s : BayouAppServer} {now : Int} {peer : String}
    {raised : Raised} (closed : s.connectionStub.channel s.name peer = .error raised)
    (reply : Option JsonMessage) :
    s.exchange env now peer reply = (.error raised, s.setStorage s.storage) := by
  have sent : s.sendAntiEntropy env now peer reply = .error raised := by
    unfold BayouAppServer.sendAntiEntropy
    rw [ConnectionStub.send_eq, closed]
    rfl
  rw [BayouAppServer.exchange, sent]

/-- A turn between whose parts nothing happens is a turn of the server on its own. -/
theorem visit_eq_take (env : Env) {p : Party} (idle : p.turn = .idle) (now : Int)
    (peer : ServerInfo) (rest : List ServerInfo) (reply : Option JsonMessage) :
    p.toNode.visit env now peer rest reply =
      match (p.askPeer peer rest).turn with
      | .waiting _ _ => ((p.askPeer peer rest).take env now reply).toNode
      | _ => (p.askPeer peer rest).toNode := by
  unfold Node.visit askPeer
  by_cases self : peer.name = p.server.name
  · rw [if_pos self, if_pos self, idle]
  · rw [if_neg self, if_neg self]
    cases channel : p.server.connectionStub.channel p.server.name peer.name with
    | error raised =>
      simp only [exchange_of_closed channel]
      cases raised <;> rfl
    | ok target =>
      simp only [exchange_of_channel channel, take, turn_setTurn, server_setTurn]
      rcases (p.server.setStorage p.server.storage).takeUp env now reply with ⟨outcome, server⟩
      cases outcome with
      | ok => rfl
      | error raised => cases raised <;> rfl

end Party

/-- The servers of a cluster, by their names. -/
abbrev Gossip := String → Option Party

namespace Gossip

inductive Action where
  /-- A handler of the server processes a message of a client. -/
  | client (name : String) (now : Int) (msg : JsonMessage)
  /-- The loop of the server turns to its next peer. -/
  | ask (name : String)
  /-- A handler of the server `by_` processes the request of the server `name`. -/
  | serve (name by_ : String) (now : Int)
  /-- The exchange of the server brings no reply. -/
  | lose (name : String)
  /-- The loop of the server goes on with the reply. -/
  | take (name : String) (now : Int)
  /-- The loop of the server begins a new round. -/
  | nextRound (name : String)

/-- The cluster once the server `name` has changed. -/
def modify (g : Gossip) (name : String) (change : Party → Party) : Gossip :=
  Function.update g name ((g name).map change)

@[simp] theorem modify_self (g : Gossip) (name : String) (change : Party → Party) :
    g.modify name change name = (g name).map change := Function.update_self ..

theorem modify_of_ne {g : Gossip} {name other : String} (change : Party → Party)
    (different : other ≠ name) : g.modify name change other = g other :=
  Function.update_of_ne different ..

/-- What holds of every server holds once one of them has changed. -/
theorem forall_modify {P : String → Party → Prop} {g : Gossip} {name : String}
    {change : Party → Party} (before : ∀ n p, g n = some p → P n p)
    (kept : ∀ p, g name = some p → P name (change p)) :
    ∀ n p, g.modify name change n = some p → P n p := by
  intro n p there
  by_cases same : n = name
  · subst same
    rw [modify_self] at there
    obtain ⟨old, here, rfl⟩ := Option.map_eq_some_iff.mp there
    exact kept old here
  · rw [modify_of_ne change same] at there
    exact before n p there

/-- What the requester is sent: a handler that raises closes the connection. -/
def replyOf : Except Raised JsonMessage → Option JsonMessage
  | .ok reply => some reply
  | .error _ => none

def step (env : Env) (g : Gossip) : Action → Option Gossip
  | .client name now msg =>
    match g name with
    | some _ => some (g.modify name fun p => p.setServer (p.server.processReq env now msg).2)
    | none => none
  | .ask name =>
    match g name with
    | some p =>
      match p.loop.ended, p.turn, p.loop.coming with
      | none, .idle, peer :: rest => some (g.modify name fun p => p.askPeer peer rest)
      | _, _, _ => none
    | none => none
  | .serve name by_ now =>
    match g name, g by_ with
    | some p, some q =>
      match p.turn with
      | .waiting peer request =>
        if q.server.ListensAt peer then
          match q.server.processReq env now request with
          | (outcome, server) =>
            some ((g.modify by_ fun q => q.setServer server).modify name fun p =>
              p.setTurn (.returned (replyOf outcome)))
        else none
      | _ => none
    | _, _ => none
  | .lose name =>
    match g name with
    | some p =>
      match p.turn with
      | .idle => none
      | _ => some (g.modify name fun p => p.setTurn (.returned none))
    | none => none
  | .take name now =>
    match g name with
    | some p =>
      match p.turn with
      | .returned reply => some (g.modify name fun p => p.take env now reply)
      | _ => none
    | none => none
  | .nextRound name =>
    match g name with
    | some p =>
      match p.loop.ended, p.turn, p.loop.coming with
      | none, .idle, [] => some (g.modify name Party.beginRound)
      | _, _, _ => none
    | none => none

/-- The cluster that a `BayouClusterManager` starts. -/
def start (topology : Topology) (masterName : String) : Gossip :=
  fun name => ((topology.servers masterName).get? name).map Party.start

def system (env : Env) (topology : Topology) (masterName : String) : System Gossip Action :=
  { init := start topology masterName, step := step env }

/-- What each action does, and when. -/
inductive Moves (env : Env) (g : Gossip) : Action → Gossip → Prop where
  | client {name : String} {p : Party} (now : Int) (msg : JsonMessage) (here : g name = some p) :
      Moves env g (.client name now msg)
        (g.modify name fun p => p.setServer (p.server.processReq env now msg).2)
  | ask {name : String} {p : Party} {peer : ServerInfo} {rest : List ServerInfo}
      (here : g name = some p) (alive : p.loop.ended = none) (idle : p.turn = .idle)
      (coming : p.loop.coming = peer :: rest) :
      Moves env g (.ask name) (g.modify name fun p => p.askPeer peer rest)
  | serve {name by_ : String} {p q : Party} {peer : ServerInfo} {request : JsonMessage} (now : Int)
      (here : g name = some p) (there : g by_ = some q) (waiting : p.turn = .waiting peer request)
      (listens : q.server.ListensAt peer) :
      Moves env g (.serve name by_ now)
        ((g.modify by_ fun r => r.setServer (q.server.processReq env now request).2).modify name
          fun p => p.setTurn (.returned (replyOf (q.server.processReq env now request).1)))
  | lose {name : String} {p : Party} (here : g name = some p) (busy : p.turn ≠ .idle) :
      Moves env g (.lose name) (g.modify name fun p => p.setTurn (.returned none))
  | take {name : String} {p : Party} {reply : Option JsonMessage} (now : Int)
      (here : g name = some p) (returned : p.turn = .returned reply) :
      Moves env g (.take name now) (g.modify name fun p => p.take env now reply)
  | nextRound {name : String} {p : Party} (here : g name = some p) (alive : p.loop.ended = none)
      (idle : p.turn = .idle) (coming : p.loop.coming = []) :
      Moves env g (.nextRound name) (g.modify name Party.beginRound)

theorem moves_of_step {env : Env} {g g' : Gossip} {a : Action} (stepped : step env g a = some g') :
    Moves env g a g' := by
  cases a with
  | client name now msg =>
    simp only [step] at stepped
    split at stepped
    · rename_i p here
      cases stepped
      exact .client now msg here
    · cases stepped
  | ask name =>
    simp only [step] at stepped
    split at stepped
    · rename_i p here
      split at stepped
      · rename_i alive idle coming
        cases stepped
        exact .ask here alive idle coming
      · cases stepped
    · cases stepped
  | serve name by_ now =>
    simp only [step] at stepped
    split at stepped
    · rename_i p q here there
      split at stepped
      · rename_i peer request waiting
        split at stepped
        · rename_i listens
          cases stepped
          exact .serve now here there waiting listens
        · cases stepped
      · cases stepped
    · cases stepped
  | lose name =>
    simp only [step] at stepped
    split at stepped
    · rename_i p here
      split at stepped
      · cases stepped
      · rename_i busy
        cases stepped
        exact .lose here busy
    · cases stepped
  | take name now =>
    simp only [step] at stepped
    split at stepped
    · rename_i p here
      split at stepped
      · rename_i reply returned
        cases stepped
        exact .take now here returned
      · cases stepped
    · cases stepped
  | nextRound name =>
    simp only [step] at stepped
    split at stepped
    · rename_i p here
      split at stepped
      · rename_i alive idle coming
        cases stepped
        exact .nextRound here alive idle coming
      · cases stepped
    · cases stepped

end Gossip

/-! ## What stays -/

namespace BayouAppServer

/-- What is fixed once the connections are initialized: a server severs its clients, but keeps
them. -/
structure SameClients (s s' : BayouAppServer) : Prop extends SameServer s s' where
  clients : s'.connectionStub.blockingClients = s.connectionStub.blockingClients

theorem SameClients.refl (s : BayouAppServer) : SameClients s s := ⟨SameServer.refl s, rfl⟩

theorem SameClients.trans {s s' s'' : BayouAppServer} (first : SameClients s s')
    (second : SameClients s' s'') : SameClients s s'' :=
  ⟨first.toSameServer.trans second.toSameServer, second.clients.trans first.clients⟩

theorem SameClients.name {s s' : BayouAppServer} (same : SameClients s s') : s'.name = s.name :=
  congrArg ServerInfo.name same.info

theorem sameClients_setStorage (s : BayouAppServer) (st : Storage) :
    SameClients s (s.setStorage st) := ⟨sameServer_setStorage s st, rfl⟩

theorem clients_handOver (env : Env) (s : BayouAppServer) (entry : AppLogEntry) :
    (s.handOver env entry).2.connectionStub = s.connectionStub := by
  unfold handOver
  split <;> rfl

theorem clients_processAppReq (env : Env) (s : BayouAppServer) (now : Int) (msg : JsonMessage)
    (reqType : Json) :
    (s.processAppReq env now msg reqType).2.connectionStub = s.connectionStub := by
  unfold processAppReq
  split
  · rfl
  · split
    · rfl
    · exact clients_handOver env s _

theorem clients_serveAntiEntropy (env : Env) (s : BayouAppServer) (msg : JsonMessage) :
    (s.serveAntiEntropy env msg).2.connectionStub = s.connectionStub := by
  unfold serveAntiEntropy
  split
  · rfl
  · split <;> rfl

theorem clients_severConnection {stub stub' : ConnectionStub} {peer : String}
    (severed : stub.severConnection peer = .ok stub') :
    stub'.blockingClients = stub.blockingClients := by
  unfold ConnectionStub.severConnection at severed
  split at severed
  · cases severed
    rfl
  · cases severed

theorem clients_unseverConnection {stub stub' : ConnectionStub} {peer : String}
    (healed : stub.unseverConnection peer = .ok stub') :
    stub'.blockingClients = stub.blockingClients := by
  unfold ConnectionStub.unseverConnection at healed
  split at healed
  · split at healed
    · cases healed
      rfl
    · cases healed
  · cases healed

/-- A change of the stub that keeps its clients. -/
theorem clients_changeStub {s : BayouAppServer} {change : Except Raised ConnectionStub}
    (keeps : ∀ stub, change = .ok stub → stub.blockingClients = s.connectionStub.blockingClients) :
    (s.changeStub change).2.connectionStub.blockingClients =
      s.connectionStub.blockingClients := by
  cases change with
  | error raised => rfl
  | ok stub => exact keeps stub rfl

theorem clients_dispatch (env : Env) (s : BayouAppServer) (now : Int) (msg : JsonMessage)
    (reqType : Json) :
    (s.dispatch env now msg reqType).2.connectionStub.blockingClients =
      s.connectionStub.blockingClients := by
  unfold dispatch
  split
  · rfl
  · split
    · apply clients_changeStub
      intro stub changed
      obtain ⟨peer, _, severed⟩ := bind_eq_ok changed
      exact clients_severConnection severed
    · apply clients_changeStub
      intro stub changed
      obtain ⟨peer, _, healed⟩ := bind_eq_ok changed
      exact clients_unseverConnection healed
    · rw [clients_serveAntiEntropy]
    · rw [clients_processAppReq]

/-- The server that `_process_req` leaves behind is the one of the `match`, if the message has
a type. -/
theorem processReq_server (env : Env) (s : BayouAppServer) (now : Int) (msg : JsonMessage) :
    (s.processReq env now msg).2 = s ∨ ∃ reqType body,
      JsonMessage.pop msg "type" = .ok (reqType, body) ∧
        (s.processReq env now msg).2 = (s.dispatch env now body reqType).2 := by
  unfold processReq
  split
  · exact .inl rfl
  · rename_i reqType body popped
    refine .inr ⟨reqType, body, popped, ?_⟩
    split <;> simp_all only

theorem sameClients_processReq (env : Env) (s : BayouAppServer) (now : Int) (msg : JsonMessage) :
    SameClients s (s.processReq env now msg).2 := by
  refine ⟨sameServer_processReq env s now msg, ?_⟩
  rcases processReq_server env s now msg with same | ⟨reqType, body, _, same⟩
  · rw [same]
  · rw [same, clients_dispatch]

theorem sameClients_applyEntries (env : Env) (s : BayouAppServer)
    (committed tentative : List AppLogEntry) :
    SameClients s (s.applyEntries env committed tentative).2 := by
  unfold applyEntries
  split <;> exact sameClients_setStorage s _

theorem sameClients_takeUp (env : Env) (s : BayouAppServer) (now : Int)
    (reply : Option JsonMessage) : SameClients s (s.takeUp env now reply).2 := by
  unfold takeUp
  split
  · exact SameClients.refl s
  · split
    · exact SameClients.refl s
    · exact sameClients_applyEntries env s _ _

end BayouAppServer

namespace Party

@[simp] theorem server_settle (p : Party) (outcome : Except Raised Unit) :
    (p.settle outcome).server = p.server := by
  unfold settle
  split <;> rfl

@[simp] theorem server_take (env : Env) (p : Party) (now : Int) (reply : Option JsonMessage) :
    (p.take env now reply).server = (p.server.takeUp env now reply).2 := by
  simp only [take, server_settle, server_setServer]

/-- Asking reads the storage and changes nothing else of the server. -/
theorem server_askPeer (p : Party) (peer : ServerInfo) (rest : List ServerInfo) :
    (p.askPeer peer rest).server = p.server ∨
      (p.askPeer peer rest).server = p.server.setStorage p.server.storage := by
  unfold askPeer
  split
  · exact .inl rfl
  · refine .inr ?_
    split
    · rfl
    · rw [server_settle]

theorem sameClients_askPeer (p : Party) (peer : ServerInfo) (rest : List ServerInfo) :
    p.server.SameClients (p.askPeer peer rest).server := by
  rcases server_askPeer p peer rest with same | same
  · rw [same]
    exact BayouAppServer.SameClients.refl _
  · rw [same]
    exact BayouAppServer.sameClients_setStorage _ _

theorem storage_askPeer (p : Party) (peer : ServerInfo) (rest : List ServerInfo) :
    (p.askPeer peer rest).server.storage = p.server.storage := by
  rcases server_askPeer p peer rest with same | same <;> rw [same]
  rfl

end Party

namespace Gossip

variable {env : Env} {topology : Topology} {masterName : String} {g g' : Gossip} {a : Action}

/-- The server that was made for the name, whatever has happened to it since. -/
def Made (topology : Topology) (masterName name : String) (p : Party) : Prop :=
  ∃ si ∈ topology.serverInfos.values, si.name = name ∧
    (Party.start (topology.createServer masterName si)).server.SameClients p.server

theorem Made.changed {name : String} {p p' : Party} (made : Made topology masterName name p)
    (same : p.server.SameClients p'.server) : Made topology masterName name p' := by
  obtain ⟨si, mentioned, named, before⟩ := made
  exact ⟨si, mentioned, named, before.trans same⟩

theorem Made.name {name : String} {p : Party} (made : Made topology masterName name p) :
    p.server.name = name := by
  obtain ⟨si, _, named, same⟩ := made
  exact same.name.trans named

theorem made_start {name : String} {p : Party} (here : start topology masterName name = some p) :
    Made topology masterName name p := by
  obtain ⟨server, found, rfl⟩ := Option.map_eq_some_iff.mp here
  have entry := Dict.mem_of_get? found
  rw [Topology.servers_eq] at entry
  obtain ⟨si, created, same⟩ := List.mem_map.mp (Dict.mem_entries_ofList entry)
  cases same
  exact ⟨si, created, rfl, BayouAppServer.SameClients.refl _⟩

theorem made_step (before : ∀ n p, g n = some p → Made topology masterName n p)
    (stepped : step env g a = some g') : ∀ n p, g' n = some p → Made topology masterName n p := by
  cases moves_of_step stepped with
  | client now msg here =>
    exact forall_modify before fun p here =>
      (before _ p here).changed (BayouAppServer.sameClients_processReq env p.server now msg)
  | ask here alive idle coming =>
    exact forall_modify before fun p here =>
      (before _ p here).changed (Party.sameClients_askPeer p _ _)
  | @serve name by_ p q peer request now here there waiting listens =>
    have served : ∀ n r, g.modify by_ (fun r => r.setServer
        (q.server.processReq env now request).2) n = some r → Made topology masterName n r := by
      refine forall_modify before fun r this => ?_
      have same : r = q := Option.some.inj (this.symm.trans there)
      subst same
      exact (before _ r this).changed
        (BayouAppServer.sameClients_processReq env r.server now request)
    exact forall_modify served fun r this =>
      (served _ r this).changed (BayouAppServer.SameClients.refl _)
  | lose here busy =>
    exact forall_modify before fun p here =>
      (before _ p here).changed (BayouAppServer.SameClients.refl _)
  | take now here returned =>
    refine forall_modify before fun p here => (before _ p here).changed ?_
    rw [Party.server_take]
    exact BayouAppServer.sameClients_takeUp env p.server now _
  | nextRound here alive idle coming =>
    exact forall_modify before fun p here =>
      (before _ p here).changed (BayouAppServer.SameClients.refl _)

/-- In every run the servers are those that the cluster was made of. -/
theorem made_of_run {as : List Action} (run : (system env topology masterName).Run as g) :
    ∀ n p, g n = some p → Made topology masterName n p := by
  refine System.run_invariant (P := fun g : Gossip => ∀ n p, g n = some p →
    Made topology masterName n p) ?_ ?_ run
  · exact fun n p => made_start
  · exact fun g a g' before stepped => made_step before stepped

end Gossip

end Col733.Lab4

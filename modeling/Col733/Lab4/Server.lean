import Col733.Lab4.CtrlMsg
import Col733.Lab4.Network
import Col733.Misc.System

/-!
# `bayou/server.py` and `bayou/app.py`: the server

A `BayouAppServer` and the functions that serve its requests. A function that can
raise after it has changed the server returns the server in both cases, as the
exception does not undo what was done before it.
-/

namespace Col733.Lab4

structure BayouAppServer where
  info : ServerInfo
  connectionStub : ConnectionStub
  isMaster : Bool
  peers : List ServerInfo
  /-- `self._storage`. -/
  storage? : Option Storage

/-- A reply with status `Err`. -/
def errReply (text : String) : JsonMessage :=
  Dict.ofList [("status", .str "Err"), ("error", .str text)]

/-- `ok`. -/
def okReply : JsonMessage := Dict.ofList [("status", .str "OK")]

/-- The reply of a server to an anti-entropy request that it serves. -/
def entriesReply (committed tentative : List AppLogEntry) : JsonMessage :=
  Dict.ofList [("committed", .arr (committed.map AppLogEntry.toDict)),
    ("tentative", .arr (tentative.map AppLogEntry.toDict))]

namespace BayouAppServer

/-- `BayouAppServer.__init__`. -/
def new (info : ServerInfo) (connectionStub : ConnectionStub) (isMaster : Bool)
    (peers : List ServerInfo) : BayouAppServer :=
  { info, connectionStub, isMaster, peers, storage? := none }

/-- `self.name`, the name of the process. -/
def name (s : BayouAppServer) : String := s.info.name

/-- The property `storage`. -/
def storage (s : BayouAppServer) : Storage :=
  match s.storage? with
  | some st => st
  | none => Storage.new (s.peers.map fun p => p.name) {}

/-- The server once its property `storage` has been read, or the storage changed. -/
def setStorage (s : BayouAppServer) (st : Storage) : BayouAppServer :=
  { s with storage? := some st }

def setStub (s : BayouAppServer) (stub : ConnectionStub) : BayouAppServer :=
  { s with connectionStub := stub }

@[simp] theorem storage_new (info : ServerInfo) (stub : ConnectionStub) (isMaster : Bool)
    (peers : List ServerInfo) :
    (new info stub isMaster peers).storage = Storage.new (peers.map fun p => p.name) {} := rfl

@[simp] theorem storage_setStorage (s : BayouAppServer) (st : Storage) :
    (s.setStorage st).storage = st := rfl

@[simp] theorem stub_setStorage (s : BayouAppServer) (st : Storage) :
    (s.setStorage st).connectionStub = s.connectionStub := rfl

@[simp] theorem storage_setStub (s : BayouAppServer) (stub : ConnectionStub) :
    (s.setStub stub).storage = s.storage := rfl

/-- The time of the new entry: the one that the request brings, else the name of the
server and what the clock reads. -/
def ltimeOf (name : String) (now : Int) (msg : JsonMessage) : Except Raised RawTime :=
  if msg.contains "ltime" then do
    let n ← subscript (← JsonMessage.getItem msg "ltime") 0
    let t ← subscript (← JsonMessage.getItem msg "ltime") 1
    return { name := n, ts := t }
  else
    return { name := name, ts := now : LogicalTime }.raw

theorem ltimeOf_brought {name : String} {now : Int} {msg : JsonMessage} {l : Json}
    (brought : msg.get? "ltime" = some l) :
    ltimeOf name now msg =
      (subscript l 0 >>= fun n => subscript l 1 >>= fun t => .ok { name := n, ts := t }) := by
  rw [ltimeOf, Dict.contains, JsonMessage.getItem_of_get? brought, brought]
  rfl

theorem ltimeOf_stamped {name : String} {now : Int} {msg : JsonMessage}
    (missing : msg.get? "ltime" = none) :
    ltimeOf name now msg = .ok { name := name, ts := now : LogicalTime }.raw := by
  rw [ltimeOf, Dict.contains, missing]
  rfl

/-- `deserialize`, where `now` is what `time.monotonic_ns()` returns. -/
def deserialize (name : String) (now : Int) (msg : JsonMessage) (reqType : Json) :
    Except Raised AppLogEntry :=
  match RequestTypes.ofField reqType with
  | some .appendChar => do
    let ltime ← ltimeOf name now msg
    let char ← JsonMessage.getItem msg "char"
    return { char, ltime }
  | _ => .error (.assertionError "Invalid Request")

theorem deserialize_appendChar (name : String) (now : Int) (msg : JsonMessage) :
    deserialize name now msg (.str "APPEND_CHAR") =
      (ltimeOf name now msg >>= fun ltime =>
        JsonMessage.getItem msg "char" >>= fun char => .ok { char, ltime }) := rfl

/-- `respond`: the reply to a read. -/
def respond (s : BayouAppServer) (reqType : Json) : Option JsonMessage :=
  match RequestTypes.ofField reqType with
  | some .getString =>
    some (Dict.ofList [("status", .str "OK"), ("committed", .str s.storage.committedSt.s),
      ("tentative", .str s.storage.tentativeSt.s)])
  | _ => none

/-- The storage operation for an entry of the server's own: the master commits. -/
def storeOwn (env : Env) (s : BayouAppServer) (entry : AppLogEntry) :
    Except String Unit × Storage :=
  if s.isMaster then s.storage.commit env [entry] else s.storage.tentative env [entry]

/-- The second half of `_process_app_req`: the entry is handed to the storage. -/
def handOver (env : Env) (s : BayouAppServer) (entry : AppLogEntry) :
    Except Raised JsonMessage × BayouAppServer :=
  match s.storeOwn env entry with
  | (.ok (), st) =>
    (.ok (Dict.ofList [("status", .str "OK"),
      ("write_state", .str (if s.isMaster then "COMMITTED" else "TENTATIVE"))]), s.setStorage st)
  | (.error text, st) => (.error (.assertionError text), s.setStorage st)

/-- `_process_app_req`. -/
def processAppReq (env : Env) (s : BayouAppServer) (now : Int) (msg : JsonMessage)
    (reqType : Json) : Except Raised JsonMessage × BayouAppServer :=
  match s.respond reqType with
  | some response => (.ok response, s.setStorage s.storage)
  | none =>
    match deserialize s.name now msg reqType with
    | .error raised => (.error raised, s)
    | .ok entry => s.handOver env entry

/-- The case of `_process_req` for the request of another server. -/
def serveAntiEntropy (env : Env) (s : BayouAppServer) (msg : JsonMessage) :
    Except Raised JsonMessage × BayouAppServer :=
  match AntiEntropyReq.fromMsg msg with
  | .error raised => (.error raised, s)
  | .ok req =>
    match env.antiEntropy s.storage req.c req.f with
    | (.ok (committed, tentative), st) =>
      (.ok (entriesReply committed tentative), s.setStorage st)
    | (.error text, st) => (.error (.assertionError text), s.setStorage st)

/-- The cases of `_process_req` that change the set of severed connections. -/
def changeStub (s : BayouAppServer) (change : Except Raised ConnectionStub) :
    Except Raised JsonMessage × BayouAppServer :=
  match change with
  | .ok stub => (.ok okReply, s.setStub stub)
  | .error raised => (.error raised, s)

/-- The `match` of `_process_req`, over the message without its type. -/
def dispatch (env : Env) (s : BayouAppServer) (now : Int) (msg : JsonMessage) (reqType : Json) :
    Except Raised JsonMessage × BayouAppServer :=
  match reqType with
  | .null => (.ok (errReply "Must specify type of request"), s)
  | _ =>
    match RequestTypes.ofField reqType with
    | some .severConn =>
      s.changeStub (SeverConnRequest.peerName env msg >>= s.connectionStub.severConnection)
    | some .unseverConn =>
      s.changeStub (UnSeverConnRequest.peerName env msg >>= s.connectionStub.unseverConnection)
    | some .antiEntropy => s.serveAntiEntropy env msg
    | _ => s.processAppReq env now msg reqType

/-- A write that is deserialized is handed over. -/
theorem dispatch_of_entry {env : Env} {s : BayouAppServer} {now : Int} {body : JsonMessage}
    {entry : AppLogEntry} (read : deserialize s.name now body (.str "APPEND_CHAR") = .ok entry) :
    s.dispatch env now body (.str "APPEND_CHAR") = s.handOver env entry := by
  show s.processAppReq env now body (.str "APPEND_CHAR") = _
  have noRead : s.respond (.str "APPEND_CHAR") = none := rfl
  simp only [processAppReq, noRead, read]

theorem dispatch_of_raised {env : Env} {s : BayouAppServer} {now : Int} {body : JsonMessage}
    {raised : Raised} (read : deserialize s.name now body (.str "APPEND_CHAR") = .error raised) :
    s.dispatch env now body (.str "APPEND_CHAR") = (.error raised, s) := by
  show s.processAppReq env now body (.str "APPEND_CHAR") = _
  have noRead : s.respond (.str "APPEND_CHAR") = none := rfl
  simp only [processAppReq, noRead, read]

/-- `_process_req`: the type is taken out before the `try`, and only an
`AssertionError` is answered. -/
def processReq (env : Env) (s : BayouAppServer) (now : Int) (msg : JsonMessage) :
    Except Raised JsonMessage × BayouAppServer :=
  match JsonMessage.pop msg "type" with
  | .error raised => (.error raised, s)
  | .ok (reqType, body) =>
    match s.dispatch env now body reqType with
    | (.error (.assertionError text), s') => (.ok (errReply text), s')
    | (.error raised, s') => (.error raised, s')
    | (.ok reply, s') => (.ok reply, s')

/-! ## What no request changes -/

/-- The fields that are fixed when a server is made. -/
structure SameServer (s s' : BayouAppServer) : Prop where
  info : s'.info = s.info
  isMaster : s'.isMaster = s.isMaster
  peers : s'.peers = s.peers

theorem SameServer.refl (s : BayouAppServer) : SameServer s s := ⟨rfl, rfl, rfl⟩

theorem SameServer.trans {s s' s'' : BayouAppServer} (first : SameServer s s')
    (second : SameServer s' s'') : SameServer s s'' :=
  ⟨second.info.trans first.info, second.isMaster.trans first.isMaster,
    second.peers.trans first.peers⟩

theorem sameServer_setStorage (s : BayouAppServer) (st : Storage) :
    SameServer s (s.setStorage st) := ⟨rfl, rfl, rfl⟩

theorem sameServer_handOver (env : Env) (s : BayouAppServer) (entry : AppLogEntry) :
    SameServer s (s.handOver env entry).2 := by
  unfold handOver
  split <;> exact sameServer_setStorage s _

theorem sameServer_processAppReq (env : Env) (s : BayouAppServer) (now : Int)
    (msg : JsonMessage) (reqType : Json) :
    SameServer s (s.processAppReq env now msg reqType).2 := by
  unfold processAppReq
  split
  · exact sameServer_setStorage s _
  · split
    · exact SameServer.refl s
    · exact sameServer_handOver env s _

theorem sameServer_serveAntiEntropy (env : Env) (s : BayouAppServer) (msg : JsonMessage) :
    SameServer s (s.serveAntiEntropy env msg).2 := by
  unfold serveAntiEntropy
  split
  · exact SameServer.refl s
  · split <;> exact sameServer_setStorage s _

theorem sameServer_changeStub (s : BayouAppServer) (change : Except Raised ConnectionStub) :
    SameServer s (s.changeStub change).2 := by
  cases change <;> exact ⟨rfl, rfl, rfl⟩

theorem sameServer_dispatch (env : Env) (s : BayouAppServer) (now : Int) (msg : JsonMessage)
    (reqType : Json) : SameServer s (s.dispatch env now msg reqType).2 := by
  unfold dispatch
  split
  · exact SameServer.refl s
  · split
    · exact sameServer_changeStub s _
    · exact sameServer_changeStub s _
    · exact sameServer_serveAntiEntropy env s msg
    · exact sameServer_processAppReq env s now msg _

theorem sameServer_processReq (env : Env) (s : BayouAppServer) (now : Int) (msg : JsonMessage) :
    SameServer s (s.processReq env now msg).2 := by
  unfold processReq
  split
  · exact SameServer.refl s
  · rename_i reqType body _
    have same := sameServer_dispatch env s now body reqType
    split <;> simp_all only

end BayouAppServer

end Col733.Lab4

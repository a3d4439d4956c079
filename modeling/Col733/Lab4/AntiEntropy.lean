import Col733.Lab4.Node

/-!
# The loop of anti-entropy

The loop handles a `SimulatedConnectionError` and nothing else. An exchange with a peer to
which there is no connection, one that brings no reply and one that is answered with `Err`
raise other exceptions, and the thread ends at the first of them. As long as every
peer is connected, and is severed or answers with entries, every round tries all of them.
-/

namespace Col733.Lab4

variable {env : Env} {s : BayouAppServer} {now : Int} {peer : String}

/-! ## Reading the entries of a peer -/

/-- What `deserialize` makes of an entry of `to_dict` is the entry. -/
theorem deserializeItem_toDict (e : AppLogEntry) : s.deserializeItem now e.toDict = .ok e := by
  have read : s.deserializeItem now e.toDict = BayouAppServer.deserialize s.name now
      (Dict.ofList [("char", e.char), ("ltime", .arr [e.ltime.name, e.ltime.ts]),
        ("req_type", .str "APPEND_CHAR")]) (.str "APPEND_CHAR") := rfl
  rw [read, BayouAppServer.deserialize_appendChar,
    BayouAppServer.ltimeOf_brought (l := .arr [e.ltime.name, e.ltime.ts]) rfl,
    JsonMessage.getItem_of_get? (show Dict.get? _ "char" = some e.char from rfl)]
  rfl

theorem deserializeItems_toDict (entries : List AppLogEntry) :
    s.deserializeItems now (entries.map AppLogEntry.toDict) = .ok entries := by
  induction entries with
  | nil => rfl
  | cons e entries ih =>
    rw [List.map_cons, BayouAppServer.deserializeItems, deserializeItem_toDict, ih]
    rfl

theorem readResponse_entriesReply {committed tentative sorted : List AppLogEntry}
    (replica : s.isMaster = false) (sortable : env.sortedList tentative = .ok sorted) :
    s.readResponse env now (entriesReply committed tentative) = .ok (committed, sorted) := by
  have read : s.readResponse env now (entriesReply committed tentative) = (do
      let committedLogs ← s.deserializeItems now (committed.map AppLogEntry.toDict)
      let tentativeLogs ←
        env.sortedList (← s.deserializeItems now (tentative.map AppLogEntry.toDict))
      if s.isMaster then .error .typeError else .ok (committedLogs, tentativeLogs)) := rfl
  rw [read, deserializeItems_toDict, deserializeItems_toDict, replica]
  show (env.sortedList tentative >>= _) = _
  rw [sortable]
  rfl

/-- An `Err` message has no entries. -/
theorem readResponse_errReply (text : String) :
    s.readResponse env now (errReply text) = .error (.keyError (.str "committed")) := rfl

/-! ## The outcomes of an exchange -/

/-- The peer has answered with entries, whose times have the annotated types. -/
def Entries (reply : Option JsonMessage) : Prop :=
  ∃ committed tentative, reply = some (entriesReply committed tentative) ∧
    ∀ e ∈ tentative, ∃ l : LogicalTime, e.ltime = l.raw

/-- What the package does: entries whose times have the annotated types are sorted. -/
def SortsEntries (env : Env) : Prop :=
  ∀ entries : List AppLogEntry, (∀ e ∈ entries, ∃ l : LogicalTime, e.ltime = l.raw) →
    ∃ sorted, env.sortedList entries = .ok sorted

/-- `Storage.apply` raises nothing. -/
def Applies (env : Env) : Prop :=
  ∀ st committed tentative, ∃ st', env.apply st committed tentative = (.ok (), st')

theorem exchange_severed {reply : Option JsonMessage}
    (connected : s.connectionStub.blockingClients.contains peer = true)
    (severed : peer ∈ s.connectionStub.dcServers) :
    s.exchange env now peer reply =
      (.error .simulatedConnectionError, s.setStorage s.storage) := by
  have sent : s.sendAntiEntropy env now peer reply = .error .simulatedConnectionError := by
    unfold BayouAppServer.sendAntiEntropy ConnectionStub.send
    rw [if_neg (by simp [connected]), if_pos severed]
    rfl
  rw [BayouAppServer.exchange, sent]

theorem sendAntiEntropy_open {reply : Option JsonMessage}
    (connected : s.connectionStub.blockingClients.contains peer = true)
    (notSevered : peer ∉ s.connectionStub.dcServers) :
    s.sendAntiEntropy env now peer reply =
      match reply with
      | none => .error (.assertionError "")
      | some response => s.readResponse env now response := by
  unfold BayouAppServer.sendAntiEntropy ConnectionStub.send
  rw [if_neg (by simp [connected]), if_neg notSevered]
  rfl

theorem exchange_entries {reply : Option JsonMessage} (replica : s.isMaster = false)
    (applies : Applies env) (sorts : SortsEntries env)
    (connected : s.connectionStub.blockingClients.contains peer = true)
    (notSevered : peer ∉ s.connectionStub.dcServers) (entries : Entries reply) :
    ∃ st, s.exchange env now peer reply = (.ok (), s.setStorage st) := by
  obtain ⟨committed, tentative, rfl, typed⟩ := entries
  obtain ⟨sorted, sortable⟩ := sorts tentative typed
  obtain ⟨st, applied⟩ := applies s.storage committed sorted
  refine ⟨st, ?_⟩
  have sent : s.sendAntiEntropy env now peer (some (entriesReply committed tentative)) =
      .ok (committed, sorted) := by
    rw [sendAntiEntropy_open connected notSevered]
    exact readResponse_entriesReply replica sortable
  simp only [BayouAppServer.exchange, sent, applied]

/-- The exchange raises something that the loop does not handle. -/
def Raises (result : Except Raised Unit × BayouAppServer) : Prop :=
  ∃ raised, raised ≠ .simulatedConnectionError ∧ result.1 = .error raised

/-- An exchange with a peer to which there is no connection raises. -/
theorem exchange_unconnected {reply : Option JsonMessage}
    (unconnected : s.connectionStub.blockingClients.contains peer = false) :
    Raises (s.exchange env now peer reply) := by
  refine ⟨.assertionError ("Connection " ++ peer ++ " doesn't exist in " ++ s.name), ?_, ?_⟩
  · exact Raised.noConfusion
  · have sent : s.sendAntiEntropy env now peer reply =
        .error (.assertionError ("Connection " ++ peer ++ " doesn't exist in " ++ s.name)) := by
      unfold BayouAppServer.sendAntiEntropy ConnectionStub.send
      rw [if_pos unconnected]
      rfl
    rw [BayouAppServer.exchange, sent]

/-- So does one that brings no reply, or an `Err`. -/
theorem exchange_failed {reply : Option JsonMessage}
    (connected : s.connectionStub.blockingClients.contains peer = true)
    (notSevered : peer ∉ s.connectionStub.dcServers)
    (failed : reply = none ∨ ∃ text, reply = some (errReply text)) :
    Raises (s.exchange env now peer reply) := by
  rcases failed with rfl | ⟨text, rfl⟩
  · refine ⟨.assertionError "", Raised.noConfusion, ?_⟩
    rw [BayouAppServer.exchange, sendAntiEntropy_open connected notSevered]
  · refine ⟨.keyError (.str "committed"), Raised.noConfusion, ?_⟩
    rw [BayouAppServer.exchange, sendAntiEntropy_open connected notSevered]
    simp only [readResponse_errReply]

/-! ## The rounds -/

/-- The names of the servers of a list other than `name`. -/
def othersIn (name : String) (servers : List ServerInfo) : List String :=
  (servers.map fun p => p.name).filter fun p => p ≠ name

/-- The loop runs on: every round that is complete has tried all the peers in
`others`, and so will the current one. -/
structure KeepsVisiting (others : List String) (n : Node) : Prop where
  alive : n.loop.ended = none
  complete : ∀ round ∈ n.loop.rounds, round = others
  current : n.loop.tried ++ othersIn n.server.name n.loop.coming = others

/-- The exchange that the step makes, if it makes one, is with a peer that is connected and
that is severed or answers with entries. -/
def Survivable (n : Node) : Action → Prop
  | .visit _ reply => ∀ peer rest, n.loop.coming = peer :: rest → peer.name ≠ n.server.name →
      n.server.connectionStub.blockingClients.contains peer.name = true ∧
        (peer.name ∈ n.server.connectionStub.dcServers ∨ Entries reply)
  | _ => True

theorem othersIn_self {name : String} {p : ServerInfo} (rest : List ServerInfo)
    (self : p.name = name) : othersIn name (p :: rest) = othersIn name rest := by
  simp [othersIn, self]

theorem othersIn_other {name : String} {p : ServerInfo} (rest : List ServerInfo)
    (other : p.name ≠ name) : othersIn name (p :: rest) = p.name :: othersIn name rest := by
  simp [othersIn, other]

/-- A turn of the loop that survives leaves the thread running and the peer tried. -/
theorem visit_survives {n : Node} {p : ServerInfo} {rest : List ServerInfo}
    {reply : Option JsonMessage} (replica : n.server.isMaster = false) (applies : Applies env)
    (sorts : SortsEntries env) (other : p.name ≠ n.server.name)
    (connected : n.server.connectionStub.blockingClients.contains p.name = true)
    (fine : p.name ∈ n.server.connectionStub.dcServers ∨ Entries reply) :
    ∃ st, n.visit env now p rest reply =
      { server := n.server.setStorage st
        loop := { n.loop with coming := rest, tried := n.loop.tried ++ [p.name] } } := by
  unfold Node.visit
  rw [if_neg other]
  by_cases severed : p.name ∈ n.server.connectionStub.dcServers
  · refine ⟨n.server.storage, ?_⟩
    simp only [exchange_severed connected severed]
  · obtain ⟨st, exchanged⟩ : ∃ st, n.server.exchange env now p.name reply =
        (.ok (), n.server.setStorage st) :=
      exchange_entries replica applies sorts connected severed (fine.resolve_left severed)
    refine ⟨st, ?_⟩
    simp only [exchanged]

/-- One that meets an exception which the loop does not handle ends the thread. -/
theorem visit_ends {n : Node} {p : ServerInfo} {rest : List ServerInfo}
    {reply : Option JsonMessage} (other : p.name ≠ n.server.name)
    (raises : Raises (n.server.exchange env now p.name reply)) :
    (n.visit env now p rest reply).loop.ended ≠ none := by
  obtain ⟨raised, unhandled, result⟩ := raises
  unfold Node.visit
  rw [if_neg other]
  rcases exchanged : n.server.exchange env now p.name reply with ⟨outcome, server⟩
  rw [exchanged] at result
  subst result
  cases raised with
  | simulatedConnectionError => exact absurd rfl unhandled
  | assertionError | keyError | typeError | indexError => exact Option.some_ne_none _

/-- So `Survivable` leaves out no more than it must: where the peer is not connected, or is not severed and
brings no reply or an `Err`, the thread ends. -/
theorem visit_ends_of_failure {n : Node} {p : ServerInfo} {rest : List ServerInfo}
    {reply : Option JsonMessage} (other : p.name ≠ n.server.name)
    (fails : n.server.connectionStub.blockingClients.contains p.name = false ∨
      (p.name ∉ n.server.connectionStub.dcServers ∧
        (reply = none ∨ ∃ text, reply = some (errReply text)))) :
    (n.visit env now p rest reply).loop.ended ≠ none := by
  apply visit_ends other
  cases connected : n.server.connectionStub.blockingClients.contains p.name with
  | false => exact exchange_unconnected connected
  | true =>
    rw [connected] at fails
    obtain ⟨notSevered, failed⟩ := fails.resolve_left (by simp)
    exact exchange_failed connected notSevered failed

variable {server : BayouAppServer} {n n' : Node} {a : Action}

/-- One step: the thread is still running, on the same server. -/
theorem keepsVisiting_step (replica : server.isMaster = false) (applies : Applies env)
    (sorts : SortsEntries env) (same : server.SameServer n.server)
    (keeps : KeepsVisiting (othersIn server.name server.peers) n)
    (survivable : Survivable n a) (stepped : n.step env a = some n') :
    server.SameServer n'.server ∧ KeepsVisiting (othersIn server.name server.peers) n' := by
  have name : n.server.name = server.name := congrArg ServerInfo.name same.info
  have follower : n.server.isMaster = false := same.isMaster.trans replica
  obtain ⟨alive, complete, current⟩ := keeps
  cases a with
  | request now msg =>
    cases stepped
    have still := BayouAppServer.sameServer_processReq env n.server now msg
    refine ⟨same.trans still, alive, complete, ?_⟩
    rw [show (n.server.processReq env now msg).2.name = n.server.name from
      congrArg ServerInfo.name still.info]
    exact current
  | visit now reply =>
    unfold Node.step at stepped
    simp only [alive] at stepped
    cases coming : n.loop.coming with
    | nil =>
      rw [coming] at stepped
      cases stepped
    | cons p rest =>
      rw [coming] at stepped current
      cases stepped
      by_cases self : p.name = n.server.name
      · rw [othersIn_self rest self] at current
        unfold Node.visit
        rw [if_pos self]
        exact ⟨same, alive, complete, current⟩
      · obtain ⟨connected, fine⟩ := survivable p rest coming self
        obtain ⟨st, visited⟩ : ∃ st, n.visit env now p rest reply =
            { server := n.server.setStorage st
              loop := { n.loop with coming := rest, tried := n.loop.tried ++ [p.name] } } :=
          visit_survives follower applies sorts self connected fine
        rw [visited]
        rw [othersIn_other rest self] at current
        refine ⟨same.trans (BayouAppServer.sameServer_setStorage _ st), alive, complete, ?_⟩
        show (n.loop.tried ++ [p.name]) ++ othersIn n.server.name rest = _
        rw [List.append_assoc]
        exact current
  | nextRound =>
    unfold Node.step at stepped
    simp only [alive] at stepped
    cases coming : n.loop.coming with
    | cons p rest =>
      rw [coming] at stepped
      cases stepped
    | nil =>
      rw [coming] at stepped current
      cases stepped
      have whole : n.loop.tried = othersIn server.name server.peers := by
        simpa [othersIn] using current
      refine ⟨same, rfl, ?_, ?_⟩
      · intro round member
        rcases List.mem_append.mp member with earlier | last
        · exact complete round earlier
        · rw [List.mem_singleton.mp last, whole]
      · show [] ++ othersIn n.server.name n.server.peers = _
        rw [List.nil_append, name, same.peers]

/-- In every run of a server that is not the master, as long as every peer that is tried is
connected, and is severed or answers with entries, the loop goes on, and every round
tries all the other peers. -/
theorem antiEntropy_keeps_visiting (env : Env) (topology : Topology) (masterName : String)
    (si : ServerInfo) (replica : si.name ≠ masterName) (applies : Applies env)
    (sorts : SortsEntries env) {as : List Action} {n : Node}
    (run : (Node.system env (topology.createServer masterName si)).Run as n)
    (meets : (Node.system env (topology.createServer masterName si)).Meets Survivable as) :
    KeepsVisiting (othersIn si.name topology.peers) n := by
  have follower : (topology.createServer masterName si).isMaster = false :=
    beq_eq_false_iff_ne.mpr replica
  have kept : (topology.createServer masterName si).SameServer n.server ∧
      KeepsVisiting (othersIn si.name topology.peers) n := by
    refine System.meets_induction
      (P := fun _ n => (topology.createServer masterName si).SameServer n.server ∧
        KeepsVisiting (othersIn si.name topology.peers) n) ?_ ?_ run meets
    · exact ⟨⟨rfl, rfl, rfl⟩, rfl, (fun _ member => nomatch member), rfl⟩
    · intro as n a n' _ holds survivable stepped
      exact keepsVisiting_step follower applies sorts holds.1 holds.2 survivable stepped
  exact kept.2

/-- The second of two servers: an exchange that brings nothing new, and, once the link is
severed, one that fails. -/
def severedRound : List Action :=
  [.visit 1 (some (entriesReply [] [])), .visit 2 none, .nextRound,
    .request 3 (Dict.ofList [("type", .str "SEVER_CONN"), ("peer_name", .str "s1")]),
    .visit 4 none]

theorem antiEntropy_keeps_visiting_severedRound :
    ∃ n, (Node.system Env.accepting
        (twoServers.createServer "s1" { name := "s2", port := 10006 })).Run severedRound n ∧
      KeepsVisiting ["s1"] n := by
  have entries : Entries (some (entriesReply [] [])) :=
    ⟨[], [], rfl, fun _ member => nomatch member⟩
  have meets : (Node.system Env.accepting
      (twoServers.createServer "s1" { name := "s2", port := 10006 })).Meets Survivable
        severedRound := by
    apply System.meetsFrom_cons rfl
    · intro peer rest coming _
      cases coming
      exact ⟨by decide, .inr entries⟩
    apply System.meetsFrom_cons rfl
    · intro peer rest coming other
      cases coming
      exact absurd rfl other
    apply System.meetsFrom_cons rfl
    · trivial
    apply System.meetsFrom_cons rfl
    · trivial
    apply System.meetsFrom_cons rfl
    · intro peer rest coming _
      cases coming
      exact ⟨by decide, .inl (by decide)⟩
    trivial
  have run : (Node.system Env.accepting
      (twoServers.createServer "s1" { name := "s2", port := 10006 })).Run severedRound _ := rfl
  exact ⟨_, run, antiEntropy_keeps_visiting Env.accepting twoServers "s1"
    { name := "s2", port := 10006 } (by decide) (fun st committed tentative => ⟨_, rfl⟩)
    (fun entries _ => ⟨entries, rfl⟩) run meets⟩

/-- Not every run: the first exchange that brings no reply ends the thread. -/
theorem not_antiEntropy_keeps_visiting :
    ¬ ∀ (env : Env) (topology : Topology) (masterName : String) (si : ServerInfo),
      si ∈ topology.serverInfos.values → si.name ≠ masterName → Applies env →
        SortsEntries env → ∀ as n,
          (Node.system env (topology.createServer masterName si)).Run as n →
            KeepsVisiting (othersIn si.name topology.peers) n := by
  intro always
  have keeps := always Env.accepting twoServers "s1" { name := "s2", port := 10006 } (by decide)
    (by decide) (fun st committed tentative => ⟨_, rfl⟩) (fun entries _ => ⟨entries, rfl⟩)
    [.visit 1 none] _ rfl
  exact Option.some_ne_none _ keeps.alive

end Col733.Lab4

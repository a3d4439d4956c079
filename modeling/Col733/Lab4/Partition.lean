import Col733.Lab4.Rounds

/-!
# Partitions

`sever_connection` simulates a partition of the network: the stub refuses to send to the peer,
while the connection stays. Entries come to a server only in reply to its own requests, so it is
the connections out of a group of servers that have to be severed. Then nothing that happens outside
reaches the group: its servers do what they would do if the other servers and their clients
did nothing at all.
-/

namespace Col733.Lab4

/-- Looking up what another server lacks changes nothing. -/
def ReadsOnly (env : Env) : Prop := ∀ st c f, (env.antiEntropy st c f).2 = st

/-! ## A storage that is made at its first use

Whether the storage has been made is the one thing in which a server can differ that has been asked by
others. -/

namespace BayouAppServer

/-- The server with its storage made. -/
def opened (s : BayouAppServer) : BayouAppServer := s.setStorage s.storage

variable (env : Env) (now : Int)

@[simp] theorem opened_setStorage (s : BayouAppServer) (st : Storage) :
    (s.setStorage st).opened = s.setStorage st := rfl

@[simp] theorem setStorage_opened (s : BayouAppServer) (st : Storage) :
    s.opened.setStorage st = s.setStorage st := rfl

@[simp] theorem storage_opened (s : BayouAppServer) : s.opened.storage = s.storage := rfl

/-- What servers have in common that differ in no more than that. -/
theorem eq_of_opened {s t : BayouAppServer} (same : s.opened = t.opened) :
    s.info = t.info ∧ s.connectionStub = t.connectionStub ∧ s.storage = t.storage := by
  have info : s.opened.info = t.opened.info := by rw [same]
  have stub : s.opened.connectionStub = t.opened.connectionStub := by rw [same]
  have storage : s.opened.storage = t.opened.storage := by rw [same]
  exact ⟨info, stub, storage⟩

theorem opened_handOver (s : BayouAppServer) (entry : AppLogEntry) :
    s.opened.handOver env entry =
      ((s.handOver env entry).1, (s.handOver env entry).2.opened) := by
  have stored : s.opened.storeOwn env entry = s.storeOwn env entry := rfl
  unfold handOver
  rw [stored]
  rcases s.storeOwn env entry with ⟨outcome, st⟩
  cases outcome <;> rfl

theorem opened_processAppReq (s : BayouAppServer) (msg : JsonMessage) (reqType : Json) :
    s.opened.processAppReq env now msg reqType =
      ((s.processAppReq env now msg reqType).1, (s.processAppReq env now msg reqType).2.opened) := by
  have responded : s.opened.respond reqType = s.respond reqType := rfl
  have name : s.opened.name = s.name := rfl
  unfold processAppReq
  rw [responded, name]
  cases s.respond reqType with
  | some response => rfl
  | none =>
    cases deserialize s.name now msg reqType with
    | error raised => rfl
    | ok entry => exact opened_handOver env s entry

theorem opened_serveAntiEntropy (s : BayouAppServer) (msg : JsonMessage) :
    s.opened.serveAntiEntropy env msg =
      ((s.serveAntiEntropy env msg).1, (s.serveAntiEntropy env msg).2.opened) := by
  unfold serveAntiEntropy
  cases AntiEntropyReq.fromMsg msg with
  | error raised => rfl
  | ok req =>
    simp only [storage_opened]
    rcases env.antiEntropy s.storage req.c req.f with ⟨outcome, st⟩
    cases outcome <;> rfl

theorem opened_changeStub (s : BayouAppServer) (change : Except Raised ConnectionStub) :
    s.opened.changeStub change = ((s.changeStub change).1, (s.changeStub change).2.opened) := by
  cases change <;> rfl

theorem opened_dispatch (s : BayouAppServer) (msg : JsonMessage) (reqType : Json) :
    s.opened.dispatch env now msg reqType =
      ((s.dispatch env now msg reqType).1, (s.dispatch env now msg reqType).2.opened) := by
  have stub : s.opened.connectionStub = s.connectionStub := rfl
  unfold dispatch
  rw [stub]
  split
  · rfl
  · split
    · exact opened_changeStub s _
    · exact opened_changeStub s _
    · exact opened_serveAntiEntropy env s msg
    · exact opened_processAppReq env now s msg _

/-- A request is answered the same, with the same effect. -/
theorem opened_processReq (s : BayouAppServer) (msg : JsonMessage) :
    s.opened.processReq env now msg =
      ((s.processReq env now msg).1, (s.processReq env now msg).2.opened) := by
  unfold processReq
  cases JsonMessage.pop msg "type" with
  | error raised => rfl
  | ok parts =>
    simp only [opened_dispatch]
    rcases s.dispatch env now parts.2 parts.1 with ⟨outcome, s'⟩
    cases outcome with
    | ok reply => rfl
    | error raised => cases raised <;> rfl

/-- Servers that differ in no more than that answer the same, with the same effect. -/
theorem processReq_congr {s t : BayouAppServer} (same : s.opened = t.opened) (msg : JsonMessage) :
    (s.processReq env now msg).1 = (t.processReq env now msg).1 ∧
      (s.processReq env now msg).2.opened = (t.processReq env now msg).2.opened := by
  have both := opened_processReq env now s msg
  rw [same, opened_processReq env now t msg, Prod.mk.injEq] at both
  exact ⟨both.1.symm, both.2.symm⟩

theorem opened_takeUp (s : BayouAppServer) (reply : Option JsonMessage) :
    s.opened.takeUp env now reply =
      ((s.takeUp env now reply).1, (s.takeUp env now reply).2.opened) := by
  cases reply with
  | none => rfl
  | some response =>
    have read : s.opened.readResponse env now response = s.readResponse env now response :=
      readResponse_congr (sameServer_setStorage s _) env now response
    simp only [takeUp, read]
    cases s.readResponse env now response with
    | error raised => rfl
    | ok entries =>
      simp only [applyEntries, storage_opened]
      rcases env.apply s.storage entries.1 entries.2 with ⟨outcome, st⟩
      cases outcome <;> rfl

/-- The request of another server leaves everything as it is. -/
theorem opened_processReq_toMsg (reads : ReadsOnly env) (s : BayouAppServer)
    (req : AntiEntropyReq) : (s.processReq env now req.toMsg).2.opened = s.opened := by
  have kept := reads s.storage req.c.arrived req.f.arrived
  rw [processReq_toMsg]
  rcases answered : env.antiEntropy s.storage req.c.arrived req.f.arrived with ⟨outcome, st⟩
  rw [answered] at kept
  have same : st = s.storage := kept
  subst same
  cases outcome <;> rfl

end BayouAppServer

namespace Party

/-- The party with the storage of its server made. -/
def opened (p : Party) : Party := p.setServer p.server.opened

variable {env : Env} {p q : Party}

theorem opened_eq_iff : p.opened = q.opened ↔
    p.server.opened = q.server.opened ∧ p.loop = q.loop ∧ p.turn = q.turn := by
  rcases p with ⟨⟨s, loop⟩, turn⟩
  rcases q with ⟨⟨s', loop'⟩, turn'⟩
  simp [opened, setServer]
  tauto

theorem opened_setServer (p : Party) (s : BayouAppServer) :
    (p.setServer s).opened = p.opened.setServer s.opened := rfl

theorem opened_setTurn (p : Party) (turn : Turn) :
    (p.setTurn turn).opened = p.opened.setTurn turn := rfl

theorem opened_settle (p : Party) (outcome : Except Raised Unit) :
    (p.settle outcome).opened = p.opened.settle outcome := by
  cases outcome with
  | ok => rfl
  | error raised => cases raised <;> rfl

theorem opened_askPeer (p : Party) (peer : ServerInfo) (rest : List ServerInfo) :
    (p.askPeer peer rest).opened = p.opened.askPeer peer rest := by
  by_cases self : peer.name = p.server.name
  · have self' : peer.name = p.opened.server.name := self
    rw [askPeer, askPeer, if_pos self, if_pos self']
    rfl
  · have self' : peer.name ≠ p.opened.server.name := self
    rw [askPeer, askPeer, if_neg self, if_neg self']
    have channel : p.opened.server.connectionStub.channel p.opened.server.name peer.name =
        p.server.connectionStub.channel p.server.name peer.name := rfl
    simp only [channel]
    cases p.server.connectionStub.channel p.server.name peer.name with
    | ok target => rfl
    | error raised => cases raised <;> rfl

theorem opened_take (p : Party) (now : Int) (reply : Option JsonMessage) :
    (p.take env now reply).opened = p.opened.take env now reply := by
  have taken : p.opened.server.takeUp env now reply = _ :=
    BayouAppServer.opened_takeUp env now p.server reply
  simp only [take, taken]
  rw [opened_settle, opened_setServer]

theorem opened_beginRound (p : Party) : p.beginRound.opened = p.opened.beginRound := rfl

end Party

namespace Topology

/-- No two servers have one address. -/
def DistinctAddresses (topology : Topology) : Prop :=
  ∀ a ∈ topology.mentioned, ∀ b ∈ topology.mentioned, a.host = b.host → a.port = b.port → a = b

instance (topology : Topology) : Decidable topology.DistinctAddresses :=
  inferInstanceAs (Decidable (∀ a ∈ topology.mentioned, ∀ b ∈ topology.mentioned,
    a.host = b.host → a.port = b.port → a = b))

end Topology

/-! ## The group and the rest -/

namespace Gossip

/-- The server whose client or whose loop acts. -/
def Action.actor : Action → String
  | .client name _ _ | .ask name | .serve name _ _ | .lose name | .take name _ | .nextRound name =>
    name

/-- A server of the group asks no server outside of it: it has severed its connection to the next
peer, or has none, if this is outside. -/
def ClosedOff (inside : String → Bool) (g : Gossip) : Action → Prop
  | .ask name => inside name = true → ∀ p peer rest, g name = some p →
      p.loop.coming = peer :: rest → inside peer.name = false →
        peer.name ∈ p.server.connectionStub.dcServers ∨
          p.server.connectionStub.blockingClients.contains peer.name = false
  | _ => True

/-- The two clusters agree on the group, but for storages that are not yet made. -/
def Agree (inside : String → Bool) (g h : Gossip) : Prop :=
  ∀ n, inside n = true → (g n).map Party.opened = (h n).map Party.opened

variable {env : Env} {topology : Topology} {masterName : String} {inside : String → Bool}
  {g h g' : Gossip} {a : Action}

theorem Agree.party (agree : Agree inside g h) {n : String} (within : inside n = true) {p : Party}
    (here : g n = some p) : ∃ q, h n = some q ∧ q.opened = p.opened := by
  have same := agree n within
  rw [here] at same
  exact Option.map_eq_some_iff.mp same.symm

theorem Agree.modify (agree : Agree inside g h) {n : String} {change change' : Party → Party}
    (alike : ∀ p q, p.opened = q.opened → (change p).opened = (change' q).opened) :
    Agree inside (g.modify n change) (h.modify n change') := by
  intro m within
  by_cases same : m = n
  · subst same
    rw [modify_self, modify_self]
    have before := agree m within
    cases here : g m with
    | none =>
      rw [here] at before
      rw [Option.map_eq_none_iff.mp before.symm]
      rfl
    | some p =>
      obtain ⟨q, there, opened⟩ := agree.party within here
      rw [there]
      exact congrArg some (alike p q opened.symm)
  · rw [modify_of_ne change same, modify_of_ne change' same]
    exact agree m within

theorem Agree.modify_same (agree : Agree inside g h) {n : String} {change : Party → Party}
    (commutes : ∀ p, (change p).opened = change p.opened) :
    Agree inside (g.modify n change) (h.modify n change) :=
  agree.modify fun p q same => by rw [commutes, commutes, same]

/-- A change outside of the group, or one that makes a storage at most. -/
theorem Agree.modify_left (agree : Agree inside g h) {n : String} {change : Party → Party}
    (unseen : inside n = true → ∀ p, g n = some p → (change p).opened = p.opened) :
    Agree inside (g.modify n change) h := by
  intro m within
  by_cases same : m = n
  · subst same
    rw [modify_self, ← agree m within]
    cases here : g m with
    | none => rfl
    | some p => exact congrArg some (unseen within p here)
  · rw [modify_of_ne change same]
    exact agree m within

/-- What a server waits for: it has asked a server of the cluster, and one of the group if it is in
the group itself. -/
structure Waits (topology : Topology) (inside : String → Bool) (n : String) (p : Party) : Prop where
  asks : ∀ peer request, p.turn = .waiting peer request → ∃ req : AntiEntropyReq, request = req.toMsg
  mention : ∀ peer request, p.turn = .waiting peer request → peer ∈ topology.mentioned
  within : inside n = true → ∀ peer request, p.turn = .waiting peer request →
    inside peer.name = true

theorem waits_of_not_waiting {n : String} {p : Party}
    (free : ∀ peer request, p.turn ≠ .waiting peer request) : Waits topology inside n p where
  asks peer request waiting := absurd waiting (free peer request)
  mention peer request waiting := absurd waiting (free peer request)
  within _ peer request waiting := absurd waiting (free peer request)

theorem Waits.of_turn {n : String} {p q : Party} (waits : Waits topology inside n p)
    (same : q.turn = p.turn) : Waits topology inside n q where
  asks peer request waiting := waits.asks peer request (same ▸ waiting)
  mention peer request waiting := waits.mention peer request (same ▸ waiting)
  within inner peer request waiting := waits.within inner peer request (same ▸ waiting)

/-- A stub that has severed a connection, or has none, refuses. -/
theorem not_open_of_closed {stub : ConnectionStub} {from_ to_ : String} {target : ServerInfo}
    (closed : to_ ∈ stub.dcServers ∨ stub.blockingClients.contains to_ = false) :
    stub.channel from_ to_ ≠ .ok target := by
  unfold ConnectionStub.channel
  cases found : stub.blockingClients.get? to_ with
  | none => exact fun same => by cases same
  | some client =>
    have severed : to_ ∈ stub.dcServers := by
      refine closed.resolve_right ?_
      simp [Dict.contains, found]
    simp only [if_pos severed]
    exact fun same => by cases same

theorem waits_askPeer {n : String} {p : Party} {peer : ServerInfo} {rest : List ServerInfo}
    (made : Made topology masterName n p) (waits : Waits topology inside n p)
    (closed : inside n = true → inside peer.name = false →
      peer.name ∈ p.server.connectionStub.dcServers ∨
        p.server.connectionStub.blockingClients.contains peer.name = false) :
    Waits topology inside n (p.askPeer peer rest) := by
  by_cases self : peer.name = p.server.name
  · refine waits.of_turn ?_
    rw [Party.askPeer, if_pos self]
  · cases channel : p.server.connectionStub.channel p.server.name peer.name with
    | error raised =>
      apply waits_of_not_waiting
      intro target request waiting
      simp only [Party.askPeer, if_neg self, channel, Party.turn_settle] at waiting
      cases waiting
    | ok target =>
      obtain ⟨mention, named⟩ := Party.target_of_made made channel
      have turn : (p.askPeer peer rest).turn = .waiting target p.server.antiEntropyReq := by
        simp only [Party.askPeer, if_neg self, channel, Party.turn_setTurn]
      refine ⟨?_, ?_, ?_⟩
      · intro peer' request waiting
        rw [turn] at waiting
        cases waiting
        exact ⟨_, rfl⟩
      · intro peer' request waiting
        rw [turn] at waiting
        cases waiting
        exact mention
      · intro inner peer' request waiting
        rw [turn] at waiting
        cases waiting
        rw [named]
        by_contra outside
        exact not_open_of_closed (closed inner (by simpa using outside)) channel

theorem waits_start : ∀ n p, start topology masterName n = some p → Waits topology inside n p := by
  intro n p here
  refine waits_of_not_waiting fun _ _ waiting => ?_
  obtain ⟨server, found, rfl⟩ := Option.map_eq_some_iff.mp here
  cases waiting

/-- What the servers wait for, in every run in which the group is closed off. -/
theorem waits_step (made : ∀ n p, g n = some p → Made topology masterName n p)
    (waits : ∀ n p, g n = some p → Waits topology inside n p) (closed : ClosedOff inside g a)
    (stepped : step env g a = some g') : ∀ n p, g' n = some p → Waits topology inside n p := by
  cases moves_of_step stepped with
  | client now msg here => exact forall_modify waits fun p here => (waits _ p here).of_turn rfl
  | @ask name p peer rest here alive idle coming =>
    refine forall_modify waits fun r this => ?_
    have same : r = p := Option.some.inj (this.symm.trans here)
    subst same
    exact waits_askPeer (made _ r this) (waits _ r this) fun inner outside =>
      closed inner r peer rest this coming outside
  | serve now here there waiting listens =>
    refine forall_modify (forall_modify waits fun p here => (waits _ p here).of_turn rfl) ?_
    exact fun p _ => waits_of_not_waiting fun _ _ waiting => nomatch waiting
  | lose here busy =>
    exact forall_modify waits fun p _ => waits_of_not_waiting fun _ _ waiting => nomatch waiting
  | take now here returned =>
    refine forall_modify waits fun p _ => waits_of_not_waiting ?_
    intro peer request waiting
    rw [Party.turn_take] at waiting
    cases waiting
  | nextRound here alive idle coming =>
    exact forall_modify waits fun p here => (waits _ p here).of_turn rfl

/-! ## The group without the rest -/

/-- Only the server that is asked listens at its address. -/
theorem name_of_listens (distinct : topology.DistinctAddresses) {by_ : String} {q : Party}
    {peer : ServerInfo} (made : Made topology masterName by_ q) (mention : peer ∈ topology.mentioned)
    (listens : q.server.ListensAt peer) : by_ = peer.name := by
  obtain ⟨si, created, rfl, same⟩ := made
  have info : q.server.info = si := same.info
  rw [BayouAppServer.ListensAt, info] at listens
  have one : si = peer := distinct si (Topology.mentioned_of_mem_serverInfos created) peer mention
    listens.1 listens.2
  rw [one]

/-- A request of the group is served by the group. -/
theorem inside_of_listens (distinct : topology.DistinctAddresses)
    {n by_ : String} {p q : Party} {peer : ServerInfo} {request : JsonMessage}
    (waits : Waits topology inside n p) (made : Made topology masterName by_ q)
    (inner : inside n = true) (waiting : p.turn = .waiting peer request)
    (listens : q.server.ListensAt peer) : inside by_ = true := by
  rw [name_of_listens distinct made (waits.mention peer request waiting) listens]
  exact waits.within inner peer request waiting

/-- What a server of the group does, it does without the rest of the cluster. -/
theorem agree_inside (distinct : topology.DistinctAddresses)
    (made : ∀ n p, g n = some p → Made topology masterName n p)
    (waits : ∀ n p, g n = some p → Waits topology inside n p) (agree : Agree inside g h)
    (inner : inside a.actor = true) (stepped : step env g a = some g') :
    ∃ h', step env h a = some h' ∧ Agree inside g' h' := by
  cases moves_of_step stepped with
  | @client name p now msg here =>
    obtain ⟨q, (there : h name = some q), same⟩ := agree.party inner here
    have stepped' : step env h (.client name now msg) = some (h.modify name fun p =>
        p.setServer (p.server.processReq env now msg).2) := by
      simp only [step, there]
    refine ⟨_, stepped', agree.modify fun r r' like => ?_⟩
    rw [Party.opened_setServer, Party.opened_setServer, like,
      (BayouAppServer.processReq_congr env now (Party.opened_eq_iff.mp like).1 msg).2]
  | @ask name p peer rest here alive idle coming =>
    obtain ⟨q, (there : h name = some q), same⟩ := agree.party inner here
    obtain ⟨_, loop, turn⟩ := Party.opened_eq_iff.mp same
    refine ⟨_, ?_, agree.modify_same fun r => Party.opened_askPeer r peer rest⟩
    simp only [step, there, loop, turn, alive, idle, coming]
  | @serve name by_ p q peer request now here there waiting listens =>
    have within : inside by_ = true :=
      inside_of_listens distinct (waits name p here) (made by_ q there) inner waiting listens
    obtain ⟨p', (here' : h name = some p'), same⟩ := agree.party inner here
    obtain ⟨q', there', same'⟩ := agree.party within there
    obtain ⟨server, _, _⟩ := Party.opened_eq_iff.mp same'
    have listens' : q'.server.ListensAt peer := by
      rw [BayouAppServer.ListensAt, (BayouAppServer.eq_of_opened server).1]
      exact listens
    have waiting' : p'.turn = .waiting peer request :=
      (Party.opened_eq_iff.mp same).2.2.trans waiting
    obtain ⟨reply, left⟩ :=
      BayouAppServer.processReq_congr env now server.symm request
    have stepped' : step env h (.serve name by_ now) =
        some ((h.modify by_ fun r => r.setServer (q'.server.processReq env now request).2).modify
          name fun p => p.setTurn (.returned (replyOf (q'.server.processReq env now request).1))) := by
      simp only [step, here', there', waiting', if_pos listens']
    refine ⟨_, stepped', ?_⟩
    rw [reply]
    refine Agree.modify_same (agree.modify fun r r' like => ?_) fun r => Party.opened_setTurn r _
    rw [Party.opened_setServer, Party.opened_setServer, like, left]
  | @lose name p here busy =>
    obtain ⟨q, (there : h name = some q), same⟩ := agree.party inner here
    obtain ⟨_, loop, turn⟩ := Party.opened_eq_iff.mp same
    refine ⟨_, ?_, agree.modify_same fun r => Party.opened_setTurn r _⟩
    simp only [step, there, turn]
  | @take name p reply now here returned =>
    obtain ⟨q, (there : h name = some q), same⟩ := agree.party inner here
    obtain ⟨_, loop, turn⟩ := Party.opened_eq_iff.mp same
    refine ⟨_, ?_, agree.modify_same fun r => Party.opened_take r now reply⟩
    simp only [step, there, turn, returned]
  | @nextRound name p here alive idle coming =>
    obtain ⟨q, (there : h name = some q), same⟩ := agree.party inner here
    obtain ⟨_, loop, turn⟩ := Party.opened_eq_iff.mp same
    refine ⟨_, ?_, agree.modify_same Party.opened_beginRound⟩
    simp only [step, there, loop, turn, alive, idle, coming]

/-- What happens elsewhere changes nothing in the group, even if its servers are asked. -/
theorem agree_outside (reads : ReadsOnly env)
    (waits : ∀ n p, g n = some p → Waits topology inside n p) (agree : Agree inside g h)
    (outer : inside a.actor = false) (stepped : step env g a = some g') :
    Agree inside g' h := by
  have away : ∀ {n : String}, inside n = false → ∀ {change : Party → Party} (k : Gossip),
      Agree inside k h → Agree inside (k.modify n change) h := by
    intro n outer change k agree
    exact agree.modify_left fun within => absurd (outer.symm.trans within) Bool.false_ne_true
  cases moves_of_step stepped with
  | client now msg here => exact away outer g agree
  | ask here alive idle coming => exact away outer g agree
  | @serve name by_ p q peer request now here there waiting listens =>
    obtain ⟨req, rfl⟩ := (waits name p here).asks peer request waiting
    apply away outer
    refine agree.modify_left fun _ r this => ?_
    have same : r = q := Option.some.inj (this.symm.trans there)
    subst same
    rw [Party.opened_setServer, BayouAppServer.opened_processReq_toMsg env now reads r.server req]
    rfl
  | lose here busy => exact away outer g agree
  | take now here returned => exact away outer g agree
  | nextRound here alive idle coming => exact away outer g agree

/-- The second of two servers severs its connection and is asked by the first. -/
def severedOnce : List Action :=
  [.client "s2" 1 (Dict.ofList [("type", .str "SEVER_CONN"), ("peer_name", .str "s1")]),
    .client "s1" 2 (Dict.ofList [("type", .str "APPEND_CHAR"), ("char", .str "a")]),
    .ask "s2", .ask "s1", .ask "s1", .serve "s1" "s2" 3,
    .client "s2" 4 (Dict.ofList [("type", .str "APPEND_CHAR"), ("char", .str "b")])]

/-- What of it happens at the second server. -/
def severedAlone : List Action :=
  [.client "s2" 1 (Dict.ofList [("type", .str "SEVER_CONN"), ("peer_name", .str "s1")]),
    .ask "s2",
    .client "s2" 4 (Dict.ofList [("type", .str "APPEND_CHAR"), ("char", .str "b")])]

end Gossip

end Col733.Lab4

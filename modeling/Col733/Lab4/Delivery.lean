import Col733.Lab4.Knowledge
import Mathlib.Data.List.Pairwise

/-!
# What the servers of a cluster have of the writes

In every run of the cluster each server has its own writes, and with a write of another server all
earlier ones of that server, so that its vectors tell truly what it lacks. The loop that is
answered gets everything that the other server had when it handled the request.
-/

namespace Col733.Lab4

open VersionVector

/-! ## Requests and replies -/

theorem entriesReply_injective {committed tentative committed' tentative' : List AppLogEntry}
    (same : entriesReply committed tentative = entriesReply committed' tentative') :
    committed = committed' ∧ tentative = tentative' := by
  have fields : ∀ c t : List AppLogEntry,
      (entriesReply c t).get? "committed" = some (.arr (c.map AppLogEntry.toDict)) ∧
        (entriesReply c t).get? "tentative" = some (.arr (t.map AppLogEntry.toDict)) :=
    fun _ _ => ⟨rfl, rfl⟩
  -- a server reads the entries back, so that their texts tell them apart
  let reader := BayouAppServer.new { name := "", port := 0 } (ConnectionStub.new []) false []
  have read : ∀ es es' : List AppLogEntry,
      some (Json.arr (es.map AppLogEntry.toDict)) = some (.arr (es'.map AppLogEntry.toDict)) →
        es = es' := by
    intro es es' texts
    have one : reader.deserializeItems 0 (es.map AppLogEntry.toDict) = .ok es :=
      deserializeItems_toDict es
    rw [Json.arr.inj (Option.some.inj texts), deserializeItems_toDict] at one
    exact (Except.ok.inj one).symm
  refine ⟨read _ _ ?_, read _ _ ?_⟩
  · rw [← (fields committed tentative).1, same, (fields committed' tentative').1]
  · rw [← (fields committed tentative).2, same, (fields committed' tentative').2]

theorem errReply_ne_entriesReply (text : String) (committed tentative : List AppLogEntry) :
    errReply text ≠ entriesReply committed tentative := by
  intro same
  have status : (errReply text).get? "status" = (entriesReply committed tentative).get? "status" :=
    by rw [same]
  cases status

namespace BayouAppServer

variable {env : Env} {s : BayouAppServer} {now : Int} {servers : List String}
  {W K : Set (String × Int)} {name : String}

theorem storage_handOver (env : Env) (s : BayouAppServer) (entry : AppLogEntry) :
    (s.handOver env entry).2.storage = (s.storeOwn env entry).2 := by
  unfold handOver
  split <;> rename_i handed <;> rw [handed] <;> rfl

/-- A request changes the storage only when it brings an entry. -/
theorem storage_processReq (reads : ReadsOnly env) (s : BayouAppServer) (now : Int)
    (msg : JsonMessage) :
    (s.processReq env now msg).2.storage = s.storage ∨
      ∃ entry, s.Asks now msg entry ∧
        (s.processReq env now msg).2.storage = (s.storeOwn env entry).2 := by
  rcases processReq_server env s now msg with same | ⟨reqType, body, popped, same⟩
  · rw [same]
    exact .inl rfl
  · rw [same]
    have unchanged : ∀ change, (s.changeStub change).2.storage = s.storage := by
      intro change
      cases change <;> rfl
    unfold dispatch
    split
    · exact .inl rfl
    · split
      · exact .inl (unchanged _)
      · exact .inl (unchanged _)
      · refine .inl ?_
        unfold serveAntiEntropy
        split
        · rfl
        · rename_i req _
          have kept := reads s.storage req.c req.f
          split <;> rename_i answered <;> rw [answered] at kept <;> exact kept
      · unfold processAppReq
        split
        · exact .inl rfl
        · split
          · exact .inl rfl
          · rename_i entry read
            obtain rfl := deserialize_kind read
            exact .inr ⟨entry, ⟨body, popped, read⟩, storage_handOver env s entry⟩

/-- What comes back from a server that is asked is what its storage tells. -/
theorem told_of_processReq (spreads : Spreads env) {req : AntiEntropyReq}
    {committed tentative : List AppLogEntry}
    (replied : (s.processReq env now req.toMsg).1 = .ok (entriesReply committed tentative)) :
    s.storage.Told req.c.arrived req.f.arrived committed tentative := by
  rw [processReq_toMsg] at replied
  rcases answered : env.antiEntropy s.storage req.c.arrived req.f.arrived with ⟨outcome, st⟩
  rw [answered] at replied
  cases outcome with
  | ok entries =>
    obtain ⟨rfl, rfl⟩ := entriesReply_injective (Except.ok.inj replied)
    exact spreads.tells _ _ _ _ _ _ answered
  | error text => exact absurd (Except.ok.inj replied) (errReply_ne_entriesReply text _ _)

/-- The loop goes on with a reply, or it ends with an exception and nothing is taken up. -/
theorem takeUp_cases (sorts : SortsEntries env) (s : BayouAppServer) (now : Int)
    {reply : Option JsonMessage}
    (tells : ∀ response, reply = some response → Tells Timed response) :
    (∃ raised, raised ≠ .simulatedConnectionError ∧
        s.takeUp env now reply = (.error raised, s)) ∨
      ∃ committed tentative sorted, reply = some (entriesReply committed tentative) ∧
        env.sortedList tentative = .ok sorted ∧
          s.takeUp env now reply = s.applyEntries env committed sorted := by
  cases reply with
  | none => exact .inl ⟨.assertionError "", by simp, rfl⟩
  | some response =>
    rcases tells response rfl with ⟨text, rfl⟩ | ⟨committed, tentative, rfl, typed⟩
    · exact .inl ⟨.keyError (.str "committed"), by simp, rfl⟩
    · obtain ⟨sorted, sortable⟩ :=
        sorts tentative fun e member => typed e (List.mem_append_right _ member)
      cases master : s.isMaster with
      | true =>
        refine .inl ⟨.typeError, by simp, ?_⟩
        simp only [takeUp, readResponse_entriesReply_eq, sortable, master]
        rfl
      | false =>
        refine .inr ⟨committed, tentative, sorted, rfl, sortable, ?_⟩
        simp only [takeUp, readResponse_entriesReply master sortable]

theorem storage_applyEntries (env : Env) (s : BayouAppServer)
    (committed tentative : List AppLogEntry) :
    (s.applyEntries env committed tentative).2.storage =
      (env.apply s.storage committed tentative).2 := by
  unfold applyEntries
  split <;> rename_i applied <;> rw [applied] <;> rfl

end BayouAppServer

/-! ## One server -/

theorem Gossip.eq_ok_of_replyOf {outcome : Except Raised JsonMessage} {reply : JsonMessage}
    (replied : Gossip.replyOf outcome = some reply) : outcome = .ok reply := by
  cases outcome with
  | ok given => rw [Option.some.inj replied]
  | error raised => cases replied

/-- What a server has of the writes, and what it is being told of them. -/
structure Party.Informed (servers : List String) (W : Set (String × Int)) (name : String)
    (p : Party) : Prop where
  knows : p.server.storage.Knows servers W name (p.server.isMaster = true)
  asks : ∀ target request, p.turn = .waiting target request →
    ∃ req : AntiEntropyReq, request = req.toMsg ∧
      req.c.Sees servers W (times p.server.storage.committedLog) ∧
        req.f.Sees servers W (times p.server.storage.entries)
  told : ∀ committed tentative,
    p.turn = .returned (some (entriesReply committed tentative)) →
      times (committed ++ tentative) ⊆ W ∧
        Closed W (times p.server.storage.committedLog ∪ times committed) ∧
        Closed W (times p.server.storage.entries ∪ times (committed ++ tentative))

namespace Party

variable {env : Env} {servers : List String} {W : Set (String × Int)} {name : String}
  {p q : Party} {w : String × Int}

theorem Informed.of_idle
    (knows : p.server.storage.Knows servers W name (p.server.isMaster = true))
    (idle : p.turn = .idle) : p.Informed servers W name where
  knows := knows
  asks _ _ waiting := by
    rw [idle] at waiting
    cases waiting
  told _ _ returned := by
    rw [idle] at returned
    cases returned

theorem Informed.congr (informed : p.Informed servers W name)
    (storage : q.server.storage = p.server.storage)
    (master : q.server.isMaster = p.server.isMaster) (turn : q.turn = p.turn) :
    q.Informed servers W name := by
  obtain ⟨knows, asks, told⟩ := informed
  refine ⟨?_, ?_, ?_⟩ <;> rw [storage]
  · rw [master]
    exact knows
  · rw [turn]
    exact asks
  · rw [turn]
    exact told

/-- Another server gets a new write. -/
theorem Informed.write (informed : p.Informed servers W name) (other : w.1 ≠ name)
    (positive : 0 < w.2) (fresh : Fresh W w) : p.Informed servers (insert w W) name where
  knows := informed.knows.write other positive fresh
  asks target request waiting := by
    obtain ⟨req, same, c, f⟩ := informed.asks target request waiting
    exact ⟨req, same, c.write positive fresh, f.write positive fresh⟩
  told committed tentative returned := by
    obtain ⟨given, closedC, closed⟩ := informed.told committed tentative returned
    have knows := informed.knows
    obtain ⟨givenC, _⟩ := Set.union_subset_iff.mp (times_append ▸ given)
    have knownC := p.server.storage.times_committedLog_subset.trans knows.known
    exact ⟨given.trans (Set.subset_insert w W),
      closedC.write (Set.union_subset knownC givenC) fresh,
      closed.write (Set.union_subset knows.known given) fresh⟩

/-- The storage operation for the write of a client. -/
theorem exists_storeOwn (env : Env) (s : BayouAppServer) {entry : AppLogEntry}
    (time : entry.ltime = stamp w) :
    ∃ commits tentatives, (s.isMaster = true ∧ times commits = {w} ∧ times tentatives = ∅ ∨
        ¬ s.isMaster = true ∧ times commits = ∅ ∧ times tentatives = {w}) ∧
      s.storeOwn env entry = env.apply s.storage commits tentatives := by
  have one : times [entry] = {w} := by
    ext w'
    constructor
    · rintro ⟨e, member, time'⟩
      rw [List.mem_singleton.mp member, time] at time'
      exact (stamp_injective time').symm
    · rintro rfl
      exact ⟨entry, List.mem_singleton_self entry, time⟩
  unfold BayouAppServer.storeOwn
  split
  · rename_i primary
    exact ⟨[entry], [], .inl ⟨primary, one, times_nil⟩, rfl⟩
  · rename_i replica
    exact ⟨[], [entry], .inr ⟨replica, times_nil, one⟩, rfl⟩

/-- The server itself gets it. -/
theorem Informed.write_own (informed : p.Informed servers W w.1) (spreads : Spreads env)
    (listed : ∀ w' ∈ insert w W, w'.1 ∈ servers) (positive : 0 < w.2) (fresh : Fresh W w)
    {entry : AppLogEntry} (time : entry.ltime = stamp w) {s : BayouAppServer}
    (master : s.isMaster = p.server.isMaster)
    (stored : s.storage = (p.server.storeOwn env entry).2) :
    (p.setServer s).Informed servers (insert w W) w.1 ∧
      times p.server.storage.entries ⊆ times s.storage.entries := by
  obtain ⟨commits, tentatives, given, same⟩ := exists_storeOwn env p.server time
  rw [same] at stored
  have knows := informed.knows
  have knownC := p.server.storage.times_committedLog_subset.trans knows.known
  obtain ⟨after, entries, committed⟩ := knows.write_own
    (spreads.apply p.server.storage commits tentatives) listed positive fresh given
  rw [← stored] at after entries committed
  have grows : times p.server.storage.entries ⊆ times s.storage.entries := by
    rw [entries]
    exact Set.subset_insert w _
  have growsC : times p.server.storage.committedLog ⊆ times s.storage.committedLog := by
    rcases committed with ⟨_, same⟩ | ⟨_, same⟩ <;> rw [same]
    exact Set.subset_insert w _
  refine ⟨⟨?_, ?_, ?_⟩, grows⟩ <;> simp only [server_setServer, turn_setServer]
  · rw [master]
    exact after
  · intro target request waiting
    obtain ⟨req, same, c, f⟩ := informed.asks target request waiting
    exact ⟨req, same, (c.write positive fresh).mono growsC, (f.write positive fresh).mono grows⟩
  · intro committedE tentativeE returned
    obtain ⟨told, closedC, closed⟩ := informed.told committedE tentativeE returned
    obtain ⟨toldC, _⟩ := Set.union_subset_iff.mp (times_append ▸ told)
    refine ⟨told.trans (Set.subset_insert w W), ?_, ?_⟩
    · rcases committed with ⟨primary, same⟩ | ⟨_, same⟩ <;> rw [same]
      · rw [Set.insert_union]
        exact closedC.write_own (Set.union_subset knownC toldC) fresh
          fun w' written named => .inl (knows.ownCommitted primary w' written named)
      · exact closedC.write (Set.union_subset knownC toldC) fresh
    · rw [entries, Set.insert_union]
      exact closed.write_own (Set.union_subset knows.known told) fresh
        fun w' written named => .inl (knows.own w' written named)

theorem Informed.askPeer (informed : p.Informed servers W name) (idle : p.turn = .idle)
    (peer : ServerInfo) (rest : List ServerInfo) :
    (p.askPeer peer rest).Informed servers W name := by
  have knows : (p.askPeer peer rest).server.storage.Knows servers W name
      ((p.askPeer peer rest).server.isMaster = true) := by
    rw [storage_askPeer, (sameClients_askPeer p peer rest).isMaster]
    exact informed.knows
  by_cases self : peer.name = p.server.name
  · refine Informed.of_idle knows ?_
    rw [Party.askPeer, if_pos self]
    exact idle
  · cases channel : p.server.connectionStub.channel p.server.name peer.name with
    | error raised =>
      refine Informed.of_idle knows ?_
      simp only [Party.askPeer, if_neg self, channel, turn_settle]
    | ok target =>
      have turn : (p.askPeer peer rest).turn = .waiting target p.server.antiEntropyReq := by
        simp only [Party.askPeer, if_neg self, channel, turn_setTurn]
      refine ⟨knows, ?_, ?_⟩
      · intro target' request waiting
        rw [turn] at waiting
        cases waiting
        rw [storage_askPeer]
        exact ⟨_, rfl, informed.knows.c, informed.knows.f⟩
      · intro committed tentative returned
        rw [turn] at returned
        cases returned

/-- The server that was asked has answered. -/
theorem Informed.served (informed : p.Informed servers W name) (spreads : Spreads env)
    (listed : ∀ w ∈ W, w.1 ∈ servers) {target : ServerInfo} {request : JsonMessage}
    (waiting : p.turn = .waiting target request) {q : BayouAppServer} {other : String}
    {primary : Prop} (knows : q.storage.Knows servers W other primary) (now : Int) :
    (p.setTurn (.returned (Gossip.replyOf (q.processReq env now request).1))).Informed
      servers W name := by
  refine ⟨informed.knows, fun _ _ waits => (by cases waits), fun committed tentative returned => ?_⟩
  obtain ⟨req, rfl, c, f⟩ := informed.asks target request waiting
  rw [turn_setTurn, Turn.returned.injEq] at returned
  have told := BayouAppServer.told_of_processReq spreads (Gossip.eq_ok_of_replyOf returned)
  obtain ⟨storedC, allC⟩ := told.times_committed knows listed c.arrived
  obtain ⟨stored, all⟩ := told.times_entries knows listed c.arrived f.arrived
    p.server.storage.times_committedLog_subset
  exact ⟨stored.trans knows.known,
    informed.knows.closedCommitted.union knows.closedCommitted storedC fun w _ there => allC there,
    informed.knows.closed.union knows.closed stored fun w _ there => all there⟩

theorem Informed.lost (informed : p.Informed servers W name) :
    (p.setTurn (.returned none)).Informed servers W name :=
  ⟨informed.knows, fun _ _ waits => (by cases waits), fun _ _ returned => by cases returned⟩

/-- The loop has gone on with a reply that it has taken up, or it has ended. -/
theorem take_cases (informed : p.Informed servers W name) (spreads : Spreads env)
    (listed : ∀ w ∈ W, w.1 ∈ servers) {reply : Option JsonMessage}
    (tells : ∀ response, reply = some response → BayouAppServer.Tells Timed response)
    (returned : p.turn = .returned reply) (now : Int) :
    ((p.take env now reply).loop.ended.isSome = true ∧
        (p.take env now reply).server.storage = p.server.storage) ∨
      ∃ committed tentative, reply = some (entriesReply committed tentative) ∧
        times (p.take env now reply).server.storage.entries =
          times p.server.storage.entries ∪ times (committed ++ tentative) ∧
        (p.take env now reply).server.storage.Knows servers W name (p.server.isMaster = true) := by
  rcases BayouAppServer.takeUp_cases spreads.sorts p.server now tells with
    ⟨raised, unhandled, taken⟩ | ⟨committed, tentative, sorted, rfl, sortable, taken⟩
  · refine .inl ?_
    simp only [Party.take, taken]
    cases raised with
    | simulatedConnectionError => exact absurd rfl unhandled
    | assertionError | keyError | typeError | indexError => exact ⟨rfl, rfl⟩
  · obtain ⟨given, closedC, closed⟩ := informed.told committed tentative returned
    have same : times (committed ++ sorted) = times (committed ++ tentative) := by
      rw [times_append, times_append, Set.Subset.antisymm
        (times_mono fun e => (spreads.sorted _ _ sortable e).mp)
        (times_mono fun e => (spreads.sorted _ _ sortable e).mpr)]
    have knows := informed.knows
    have applied := spreads.apply p.server.storage committed sorted
    have storage : (p.take env now (some (entriesReply committed tentative))).server.storage =
        (env.apply p.server.storage committed sorted).2 := by
      rw [server_take, taken, BayouAppServer.storage_applyEntries]
    rw [← same] at given closed
    refine .inr ⟨committed, tentative, rfl, ?_, ?_⟩ <;> rw [storage]
    · rw [applied.times_entries knows.toSound listed given closedC, same]
    · refine applied.knows knows.toSound listed given ?_ ?_ closed closedC
      · exact fun w written named => .inl (knows.own w written named)
      · exact fun primary w written named => .inl (knows.ownCommitted primary w written named)

theorem Informed.take (informed : p.Informed servers W name) (spreads : Spreads env)
    (listed : ∀ w ∈ W, w.1 ∈ servers) {reply : Option JsonMessage}
    (tells : ∀ response, reply = some response → BayouAppServer.Tells Timed response)
    (returned : p.turn = .returned reply) (now : Int) :
    (p.take env now reply).Informed servers W name := by
  refine Informed.of_idle ?_ (turn_take env p now reply)
  have master : (p.take env now reply).server.isMaster = p.server.isMaster := by
    rw [server_take]
    exact (BayouAppServer.sameClients_takeUp env p.server now reply).isMaster
  rw [master]
  rcases take_cases informed spreads listed tells returned now with ⟨_, same⟩ | ⟨_, _, _, _, knows⟩
  · rw [same]
    exact informed.knows
  · exact knows

end Party

/-! ## The cluster -/

namespace Topology

/-- The names for which the vectors have entries. -/
def peerNames (topology : Topology) : List String := topology.peers.map ServerInfo.name

end Topology

namespace Gossip

variable {env : Env} {topology : Topology} {masterName : String} {g g' : Gossip} {a : Action}
  {W : Set (String × Int)} {as bs : List Action} {n : String} {p p' : Party}

/-- The server to which a message of a client comes, and what its clock reads. -/
def Action.received : Action → Option (String × Int)
  | .client name now _ => some (name, now)
  | _ => none

/-- With every message of a client the clock of its server reads more than before. -/
def Increasing (as : List Action) : Prop :=
  (∀ w ∈ as.filterMap Action.received, 0 < w.2) ∧
    (as.filterMap Action.received).Pairwise fun v w => v.1 = w.1 → v.2 < w.2

instance (as : List Action) : Decidable (Increasing as) := inferInstanceAs (Decidable (_ ∧ _))

theorem Increasing.of_append (clocks : Increasing (as ++ bs)) : Increasing as := by
  obtain ⟨positive, increasing⟩ := clocks
  rw [List.filterMap_append] at positive increasing
  exact ⟨fun w member => positive w (List.mem_append_left _ member),
    (List.pairwise_append.mp increasing).1⟩

theorem Increasing.append (clocks : Increasing as) (silent : ∀ b ∈ bs, b.received = none) :
    Increasing (as ++ bs) := by
  rw [Increasing, List.filterMap_append, List.filterMap_eq_nil_iff.mpr silent, List.append_nil]
  exact clocks

theorem mem_received {name : String} {now : Int} {msg : JsonMessage}
    (member : .client name now msg ∈ as) : (name, now) ∈ as.filterMap Action.received :=
  List.mem_filterMap.mpr ⟨_, member, rfl⟩

theorem Increasing.pos (clocks : Increasing as) {name : String} {now : Int} {msg : JsonMessage}
    (member : .client name now msg ∈ as) : 0 < now :=
  clocks.1 _ (mem_received member)

theorem Increasing.lt (clocks : Increasing (as ++ [a])) {name : String} {now now' : Int}
    {msg msg' : JsonMessage} (last : a = .client name now' msg')
    (earlier : .client name now msg ∈ as) : now < now' := by
  subst last
  have increasing := clocks.2
  rw [List.filterMap_append] at increasing
  exact (List.pairwise_append.mp increasing).2.2 _ (mem_received earlier) _
    (mem_received (List.mem_singleton_self _)) rfl

/-- So it reads the same for no two messages. -/
theorem Increasing.advance (clocks : Increasing as) : ClocksAdvance as := by
  intro name now msg msg' first second
  by_contra differ
  let Apart : Action → Action → Prop := fun a b =>
    ∀ name now msg msg', a = .client name now msg → b ≠ .client name now msg'
  have symmetric : Std.Symm Apart := ⟨fun a b apart name now msg msg' one other =>
    apart name now msg' msg other one⟩
  have pairwise : as.Pairwise Apart := by
    refine (List.pairwise_filterMap.mp clocks.2).imp fun later name now msg msg' one other => ?_
    subst one other
    exact lt_irrefl now (later (name, now) rfl (name, now) rfl rfl)
  have different : Action.client name now msg ≠ .client name now msg' := by
    intro same
    cases same
    exact differ rfl
  exact pairwise.forall first second different name now msg msg' rfl rfl

/-- What the servers have of the writes. -/
structure Informed (topology : Topology) (W : Set (String × Int)) (g : Gossip) : Prop where
  listed : ∀ w ∈ W, w.1 ∈ topology.peerNames
  parties : ∀ n p, g n = some p → p.Informed topology.peerNames W n

theorem informed_start : Informed topology ∅ (start topology masterName) := by
  refine ⟨fun w written => written.elim, fun n p here => ?_⟩
  obtain ⟨server, found, rfl⟩ := Option.map_eq_some_iff.mp here
  have entry := Dict.mem_of_get? found
  rw [Topology.servers_eq] at entry
  obtain ⟨si, created, same⟩ := List.mem_map.mp (Dict.mem_entries_ofList entry)
  cases same
  exact Party.Informed.of_idle (Storage.knows_new topology.peerNames si.name _ _) rfl

/-- The vectors have an entry for every server. -/
theorem listed_of_made (covered : topology.Covered masterName)
    (made : Made topology masterName n p) : n ∈ topology.peerNames := by
  obtain ⟨si, created, rfl, _⟩ := made
  have key : si.name ∈ (topology.servers masterName).keys := Topology.mem_keys_servers.mpr
    ⟨si, Topology.mentioned_of_mem_serverInfos created, rfl⟩
  obtain ⟨e, entry, same⟩ := List.mem_map.mp key
  have value : e.2 ∈ (topology.servers masterName).values := List.mem_map_of_mem entry
  exact (Topology.contains_of_created value).1.mp (covered e.2 value si.name key).1.1

/-- The time of the entry that a client brings. -/
theorem ltime_of_asks {name : String} {now : Int} {msg : JsonMessage} {s : BayouAppServer}
    {entry : AppLogEntry} (unstamped : msg.contains "ltime" = false) (named : s.name = name)
    (asks : s.Asks now msg entry) : entry.ltime = stamp (name, now) := by
  obtain ⟨name', now', msg', char, member, _, _, rfl⟩ :=
    written_of_asks unstamped named asks (List.mem_singleton_self (Action.client name now msg))
  cases List.mem_singleton.mp member
  rfl

/-- The request of another server leaves a server with its storage and its loop as they are. -/
theorem party_of_serve (reads : ReadsOnly env) {by_ m : String} {q r : Party}
    (there : g by_ = some q) (req : AntiEntropyReq) (now : Int)
    (this : g.modify by_ (fun r => r.setServer (q.server.processReq env now req.toMsg).2) m =
      some r) :
    ∃ p, g m = some p ∧ r.server.storage = p.server.storage ∧
      r.server.isMaster = p.server.isMaster ∧
      r.server.connectionStub = p.server.connectionStub ∧ r.loop = p.loop ∧ r.turn = p.turn := by
  by_cases same : m = by_
  · subst same
    rw [modify_self, there] at this
    cases this
    have kept := BayouAppServer.opened_processReq_toMsg env now reads q.server req
    obtain ⟨_, stub, storage⟩ := BayouAppServer.eq_of_opened kept
    exact ⟨q, there, storage,
      (BayouAppServer.sameServer_processReq env q.server now req.toMsg).isMaster, stub, rfl, rfl⟩
  · rw [modify_of_ne _ same] at this
    exact ⟨r, this, rfl, rfl, rfl, rfl, rfl⟩

/-- A client brings no time, and its message comes later than the writes of its server. -/
def Timely (W : Set (String × Int)) : Action → Prop
  | .client name now msg => msg.contains "ltime" = false ∧ 0 < now ∧ Fresh W (name, now)
  | _ => True

/-- What a message of a client does to its server: there is one write more, or none. -/
theorem informed_client (spreads : Spreads env) (covered : topology.Covered masterName)
    (made : Made topology masterName n p) (listed : ∀ w ∈ W, w.1 ∈ topology.peerNames)
    (informed : p.Informed topology.peerNames W n) {now : Int} {msg : JsonMessage}
    (timely : Timely W (.client n now msg)) :
    times p.server.storage.entries ⊆
        times (p.server.processReq env now msg).2.storage.entries ∧
      ((p.setServer (p.server.processReq env now msg).2).Informed topology.peerNames W n ∨
        (∃ entry, p.server.Asks now msg entry) ∧
          (∀ w ∈ insert (n, now) W, w.1 ∈ topology.peerNames) ∧
          (p.setServer (p.server.processReq env now msg).2).Informed topology.peerNames
            (insert (n, now) W) n) := by
  obtain ⟨unstamped, positive, fresh⟩ := timely
  have master := (BayouAppServer.sameServer_processReq env p.server now msg).isMaster
  rcases BayouAppServer.storage_processReq spreads.reads p.server now msg with
    same | ⟨entry, asks, stored⟩
  · exact ⟨by rw [same], .inl (informed.congr same master rfl)⟩
  · have time := ltime_of_asks unstamped made.name asks
    have listed' : ∀ w ∈ insert (n, now) W, w.1 ∈ topology.peerNames := by
      rintro w (rfl | written)
      · exact listed_of_made covered made
      · exact listed w written
    obtain ⟨after, grows⟩ :=
      informed.write_own spreads listed' positive fresh time master stored
    exact ⟨grows, .inr ⟨⟨entry, asks⟩, listed', after⟩⟩

/-- One step: there is one write more, of the client that acts, or none. -/
theorem informed_step (spreads : Spreads env) (covered : topology.Covered masterName)
    (made : ∀ n p, g n = some p → Made topology masterName n p) (carries : Carries Timed g)
    (timely : Timely W a) (informed : Informed topology W g) (stepped : step env g a = some g') :
    Informed topology W g' ∨ ∃ name now msg entry, a = .client name now msg ∧
      g.Brings a entry ∧ Informed topology (insert (name, now) W) g' := by
  obtain ⟨listed, parties⟩ := informed
  cases moves_of_step stepped with
  | @client name p now msg here =>
    rcases (informed_client spreads covered (made name p here) listed (parties name p here)
      timely).2 with same | ⟨⟨entry, asks⟩, listed', after⟩
    · refine .inl ⟨listed, forall_modify parties fun r this => ?_⟩
      have one : r = p := Option.some.inj (this.symm.trans here)
      subst one
      exact same
    · refine .inr ⟨name, now, msg, entry, rfl, ⟨name, now, msg, p, rfl, here, asks⟩, listed',
        fun m q there => ?_⟩
      by_cases same : m = name
      · subst same
        rw [modify_self, here] at there
        cases there
        exact after
      · rw [modify_of_ne _ same] at there
        exact (parties m q there).write (Ne.symm same) timely.2.1 timely.2.2
  | @ask name p peer rest here alive idle coming =>
    refine .inl ⟨listed, forall_modify parties fun r this => ?_⟩
    have same : r = p := Option.some.inj (this.symm.trans here)
    subst same
    exact (parties name r this).askPeer idle peer rest
  | @serve name by_ p q peer request now here there waiting listens =>
    obtain ⟨req, rfl, _⟩ := (parties name p here).asks peer request waiting
    have served : ∀ m r, g.modify by_ (fun r => r.setServer
        (q.server.processReq env now req.toMsg).2) m = some r →
          r.Informed topology.peerNames W m ∧ (m = name → r.turn = p.turn) := by
      intro m r this
      obtain ⟨r', before, storage, master, _, _, turn⟩ :=
        party_of_serve spreads.reads there req now this
      refine ⟨(parties m r' before).congr storage master turn, ?_⟩
      rintro rfl
      rw [turn, Option.some.inj (before.symm.trans here)]
    refine .inl ⟨listed, forall_modify (fun m r this => (served m r this).1) fun r this => ?_⟩
    obtain ⟨informed, turn⟩ := served name r this
    exact informed.served spreads listed ((turn rfl).trans waiting) (parties by_ q there).knows now
  | lose here busy =>
    exact .inl ⟨listed, forall_modify parties fun r this => (parties _ r this).lost⟩
  | @take name p reply now here returned =>
    refine .inl ⟨listed, forall_modify parties fun r this => ?_⟩
    have same : r = p := Option.some.inj (this.symm.trans here)
    subst same
    refine (parties name r this).take spreads listed ?_ returned now
    exact fun response same => (carries name r this).tells response (same ▸ returned)
  | @nextRound name p here alive idle coming =>
    refine .inl ⟨listed, forall_modify parties fun r this => ?_⟩
    have same : r = p := Option.some.inj (this.symm.trans here)
    subst same
    exact Party.Informed.of_idle (parties name r this).knows idle

/-- A client asks a server to store an entry. -/
def Writes : Action → Prop
  | .client _ _ msg => msg.get? "type" = some (.str "APPEND_CHAR")
  | _ => False

/-- What the servers have of the writes when a run has come to its end; the writes are messages
of its clients. -/
structure InformedBy (topology : Topology) (as : List Action) (W : Set (String × Int))
    (g : Gossip) : Prop extends Informed topology W g where
  past : ∀ w ∈ W, ∃ msg, .client w.1 w.2 msg ∈ as

theorem InformedBy.timely (informed : InformedBy topology as W g)
    (unstamped : Unstamped (as ++ [a])) (clocks : Increasing (as ++ [a])) : Timely W a := by
  have last : a ∈ as ++ [a] := List.mem_append_right _ (List.mem_singleton_self a)
  cases a with
  | client name now msg =>
    refine ⟨unstamped name now msg last, clocks.pos last, ?_⟩
    rintro ⟨name', earlier⟩ written (rfl : name' = name)
    obtain ⟨msg', member⟩ := informed.past _ written
    exact clocks.lt rfl member
  | ask | serve | lose | take | nextRound => trivial

theorem informedBy_step (spreads : Spreads env) (covered : topology.Covered masterName)
    (run : (system env topology masterName).Run as g) (unstamped : Unstamped (as ++ [a]))
    (clocks : Increasing (as ++ [a])) (informed : InformedBy topology as W g)
    (stepped : step env g a = some g') :
    ∃ W', InformedBy topology (as ++ [a]) W' g' ∧ W ⊆ W' ∧ (¬ Writes a → W' = W) := by
  have past : ∀ w ∈ W, ∃ msg, .client w.1 w.2 msg ∈ as ++ [a] := by
    intro w written
    obtain ⟨msg, member⟩ := informed.past w written
    exact ⟨msg, List.mem_append_left _ member⟩
  have timed : Carries Timed g := timed_of_run spreads.keeps run unstamped.of_append
  rcases informed_step spreads covered (made_of_run run) timed (informed.timely unstamped clocks)
    informed.toInformed stepped
    with same | ⟨name, now, msg, entry, rfl, ⟨_, _, _, p, acts, here, body, popped, read⟩, more⟩
  · exact ⟨W, ⟨same, past⟩, subset_rfl, fun _ => rfl⟩
  · refine ⟨_, ⟨more, ?_⟩, Set.subset_insert _ W, fun quiet => absurd ?_ quiet⟩
    · rintro w (rfl | written)
      · exact ⟨msg, List.mem_append_right _ (List.mem_singleton_self _)⟩
      · exact past w written
    · cases acts
      exact (JsonMessage.pop_eq_ok popped).1

/-- In every run of the cluster whose clients bring no times, and whose clocks go on. -/
theorem informed_of_run (spreads : Spreads env) (covered : topology.Covered masterName)
    (run : (system env topology masterName).Run as g) (unstamped : Unstamped as)
    (clocks : Increasing as) : ∃ W, InformedBy topology as W g := by
  refine System.run_induction (P := fun as g => Unstamped as → Increasing as →
    ∃ W, InformedBy topology as W g) ?_ ?_ run unstamped clocks
  · exact fun _ _ => ⟨∅, informed_start, fun w written => written.elim⟩
  · intro as g a g' earlier holds stepped unstamped clocks
    obtain ⟨W, informed⟩ := holds unstamped.of_append clocks.of_append
    obtain ⟨W', after, _, _⟩ := informedBy_step spreads covered earlier unstamped clocks informed
      stepped
    exact ⟨W', after⟩

theorem stamp_of_written {e : AppLogEntry} (written : Written as e) : ∃ w, e.ltime = stamp w := by
  obtain ⟨name, now, msg, char, _, _, _, rfl⟩ := written
  exact ⟨(name, now), rfl⟩

/-- Two writes that the master commits, and an exchange that brings them to the other server. -/
def toldTwo : List Action :=
  [.client "s1" 1 (Dict.ofList [("type", .str "APPEND_CHAR"), ("char", .str "a")]),
    .client "s1" 2 (Dict.ofList [("type", .str "APPEND_CHAR"), ("char", .str "b")]),
    .ask "s2", .serve "s2" "s1" 3, .take "s2" 4]

end Gossip

end Col733.Lab4

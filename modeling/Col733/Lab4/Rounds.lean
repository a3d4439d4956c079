import Col733.Lab4.Writes

/-!
# The rounds of a cluster

The thread of the loop ends with every exception but one, so that whether it goes on depends on
what the other servers answer. When all servers run together, and clients bring no times of their
own, all that the replicas are answered are entries whose times can be compared. So their loops
go on, however the connections are severed and healed, and can always complete their round.
-/

namespace Col733.Lab4

/-! ## The clients of a server -/

theorem entries_of_connections {cs : List ServerInfo} {e : String × ServerInfo}
    (member : e ∈ (ConnectionStub.new cs).connections.entries) : e.2 ∈ cs ∧ e.2.name = e.1 := by
  obtain ⟨c, listed, rfl⟩ := List.mem_map.mp (Dict.mem_entries_ofList member)
  exact ⟨listed, rfl⟩

theorem blockingClients_eq (cs : List ServerInfo) :
    (ConnectionStub.new cs).initalizeConnections.blockingClients =
      Dict.ofList ((ConnectionStub.new cs).connections.values.map fun c => (c.name, c)) := by
  simp only [ConnectionStub.initalizeConnections, ConnectionStub.new, Dict.ofList, List.foldl_map]

/-- A client is there for every connection. -/
theorem contains_client {cs : List ServerInfo} {name : String} (listed : ∃ c ∈ cs, c.name = name) :
    (ConnectionStub.new cs).initalizeConnections.blockingClients.contains name = true := by
  obtain ⟨c, member, rfl⟩ := listed
  have connected : (ConnectionStub.new cs).connections.contains c.name = true := by
    refine Dict.contains_ofList.mpr ?_
    simp only [List.map_map, List.mem_map, Function.comp_apply]
    exact ⟨c, member, rfl⟩
  obtain ⟨e, entry, same⟩ := List.mem_map.mp (Dict.contains_iff_mem_keys.mp connected)
  rw [blockingClients_eq, Dict.contains_ofList]
  simp only [List.map_map, List.mem_map, Function.comp_apply]
  exact ⟨e.2, List.mem_map_of_mem entry, (entries_of_connections entry).2.trans same⟩

/-- And for nothing else. -/
theorem client_is_connection {cs : List ServerInfo} {name : String} {target : ServerInfo}
    (found : (ConnectionStub.new cs).initalizeConnections.blockingClients.get? name =
      some target) : target ∈ cs ∧ target.name = name := by
  have entry := Dict.mem_of_get? found
  rw [blockingClients_eq] at entry
  obtain ⟨c, value, same⟩ := List.mem_map.mp (Dict.mem_entries_ofList entry)
  cases same
  obtain ⟨e, connection, rfl⟩ := List.mem_map.mp value
  exact ⟨(entries_of_connections connection).1, rfl⟩

namespace Topology

theorem mentioned_of_mem_serverInfos {topology : Topology} {si : ServerInfo}
    (member : si ∈ topology.serverInfos.values) : si ∈ topology.mentioned := by
  obtain ⟨e, entry, rfl⟩ := List.mem_map.mp member
  rw [serverInfos_eq] at entry
  obtain ⟨si, mention, rfl⟩ := List.mem_map.mp (Dict.mem_entries_ofList entry)
  exact mention

/-- What the completion of a topology adds are servers without connections. -/
theorem mem_foldl_completed {sis : List ServerInfo} {topology : Topology}
    {item : ServerInfo × List ServerInfo}
    (member : item ∈ (sis.foldl (fun topology si =>
      if topology.contains si then topology else topology.set si []) topology).entries) :
    item ∈ topology.entries ∨ item.2 = [] := by
  induction sis generalizing topology with
  | nil => exact .inl member
  | cons si sis ih =>
    rw [List.foldl_cons] at member
    rcases ih member with before | none
    · split at before
      · exact .inl before
      · rcases Dict.mem_assign before with new | old
        · exact .inr (by rw [new])
        · exact .inl old
    · exact .inr none

theorem mentioned_of_connection {topology : Topology} {si c : ServerInfo}
    (member : c ∈ topology.connectionsOf si) : c ∈ topology.mentioned := by
  unfold connectionsOf at member
  cases found : topology.completed.get? si with
  | none =>
    rw [found] at member
    cases member
  | some cs =>
    rw [found] at member
    rcases mem_foldl_completed (Dict.mem_of_get? found) with entry | none
    · exact List.mem_flatMap.mpr ⟨_, entry, List.mem_cons_of_mem _ member⟩
    · cases (none : cs = [])
      cases member

/-- Every server has a connection to each of its peers. -/
def AllConnected (topology : Topology) : Prop :=
  ∀ si ∈ topology.serverInfos.values, ∀ peer ∈ topology.peers, peer.name ≠ si.name →
    ∃ c ∈ topology.connectionsOf si, c.name = peer.name

instance (topology : Topology) : Decidable topology.AllConnected :=
  inferInstanceAs (Decidable (∀ si ∈ topology.serverInfos.values, ∀ peer ∈ topology.peers,
    peer.name ≠ si.name → ∃ c ∈ topology.connectionsOf si, c.name = peer.name))

end Topology

/-! ## The loop of a replica -/

/-- The storage of a server that is asked raises nothing. -/
def Answers (env : Env) : Prop :=
  ∀ st c f, ∃ committed tentative st', env.antiEntropy st c f = (.ok (committed, tentative), st')

/-- The time of the entry has the annotated types. -/
def Timed (e : AppLogEntry) : Prop := ∃ l : LogicalTime, e.ltime = l.raw

/-- The loop of a replica goes on: it will have tried all other peers in this round as in those
before, and what it waits for is a server of the cluster, or is a reply with entries. -/
structure Party.Goes (topology : Topology) (masterName name : String) (p : Party) : Prop where
  visits : name ≠ masterName → KeepsVisiting (othersIn name topology.peers) p.toNode
  coming : ∀ peer ∈ p.loop.coming, peer ∈ topology.peers
  waits : ∀ peer request, p.turn = .waiting peer request → peer ∈ topology.mentioned
  answered : ∀ reply, p.turn = .returned reply → Entries reply

namespace Party

variable {env : Env} {topology : Topology} {masterName name : String} {p : Party}

/-- Whom a server of the cluster reaches as its peer. -/
theorem target_of_made (made : Gossip.Made topology masterName name p) {peer : String}
    {target : ServerInfo}
    (channel : p.server.connectionStub.channel p.server.name peer = .ok target) :
    target ∈ topology.mentioned ∧ target.name = peer := by
  obtain ⟨si, created, named, same⟩ := made
  unfold ConnectionStub.channel at channel
  cases found : p.server.connectionStub.blockingClients.get? peer with
  | none =>
    rw [found] at channel
    cases channel
  | some client =>
    simp only [found] at channel
    split at channel
    · cases channel
    · cases channel
      rw [same.clients] at found
      obtain ⟨connected, name⟩ := client_is_connection found
      exact ⟨Topology.mentioned_of_connection connected, name⟩

/-- What the stub of a server of the cluster returns for a peer. -/
theorem channel_of_made (all : topology.AllConnected)
    (made : Gossip.Made topology masterName name p) {peer : ServerInfo}
    (known : peer ∈ topology.peers) (other : peer.name ≠ p.server.name) :
    (∃ target ∈ topology.mentioned,
        p.server.connectionStub.channel p.server.name peer.name = .ok target) ∨
      p.server.connectionStub.channel p.server.name peer.name =
        .error .simulatedConnectionError := by
  obtain ⟨si, created, named, same⟩ := id made
  have name : p.server.name = si.name := same.name
  have has := contains_client (all si created peer known (name ▸ other))
  obtain ⟨target, found⟩ := Dict.contains_iff_get?.mp has
  replace found : p.server.connectionStub.blockingClients.get? peer.name = some target := by
    rw [same.clients]
    exact found
  by_cases severed : peer.name ∈ p.server.connectionStub.dcServers
  · refine .inr ?_
    simp only [ConnectionStub.channel, found, if_pos severed]
  · have channel : p.server.connectionStub.channel p.server.name peer.name = .ok target := by
      simp only [ConnectionStub.channel, found, if_neg severed]
    exact .inl ⟨target, (target_of_made made channel).1, channel⟩

/-- The loop when it has asked, or could not. -/
theorem loop_askPeer (all : topology.AllConnected)
    (made : Gossip.Made topology masterName name p) {peer : ServerInfo} (rest : List ServerInfo)
    (known : peer ∈ topology.peers) (other : peer.name ≠ p.server.name) :
    (p.askPeer peer rest).loop =
        { p.loop with coming := rest, tried := p.loop.tried ++ [peer.name] } ∧
      ((∃ target ∈ topology.mentioned, ∃ request,
          (p.askPeer peer rest).turn = .waiting target request) ∨
        (p.askPeer peer rest).turn = .idle) := by
  rcases channel_of_made all made known other with ⟨target, mention, channel⟩ | severed
  · simp only [askPeer, if_neg other, channel]
    exact ⟨rfl, .inl ⟨target, mention, _, rfl⟩⟩
  · simp only [askPeer, if_neg other, severed]
    exact ⟨rfl, .inr rfl⟩

theorem Goes.askPeer (all : topology.AllConnected) (made : Gossip.Made topology masterName name p)
    {peer : ServerInfo} {rest : List ServerInfo} (goes : p.Goes topology masterName name)
    (coming : p.loop.coming = peer :: rest) :
    (p.askPeer peer rest).Goes topology masterName name := by
  have named : p.server.name = name := made.name
  have later : ∀ next ∈ rest, next ∈ topology.peers := fun next member =>
    goes.coming next (coming ▸ List.mem_cons_of_mem peer member)
  have known : peer ∈ topology.peers := goes.coming peer (coming ▸ List.mem_cons_self)
  have name' : (p.askPeer peer rest).server.name = p.server.name :=
    (sameClients_askPeer p peer rest).name
  by_cases self : peer.name = p.server.name
  · have skipped : p.askPeer peer rest = { p with loop := { p.loop with coming := rest } } := by
      rw [Party.askPeer, if_pos self]
    rw [skipped]
    refine ⟨fun replica => ?_, later, goes.waits, goes.answered⟩
    obtain ⟨alive, complete, current⟩ := goes.visits replica
    rw [coming, othersIn_self rest self] at current
    exact ⟨alive, complete, current⟩
  · obtain ⟨loop, turn⟩ := loop_askPeer all made rest known self
    refine ⟨fun replica => ?_, ?_, ?_, ?_⟩
    · obtain ⟨alive, complete, current⟩ := goes.visits replica
      rw [coming, othersIn_other rest self] at current
      refine ⟨?_, ?_, ?_⟩
      · rw [loop]
        exact alive
      · rw [loop]
        exact complete
      · rw [loop, name']
        show (p.loop.tried ++ [peer.name]) ++ othersIn p.server.name rest = _
        rw [List.append_assoc]
        exact current
    · rw [loop]
      exact later
    · intro target request waiting
      rcases turn with ⟨target', mention, request', asked⟩ | idle'
      · rw [asked] at waiting
        cases waiting
        exact mention
      · rw [idle'] at waiting
        cases waiting
    · intro reply returned
      rcases turn with ⟨target', mention, request', asked⟩ | idle'
      · rw [asked] at returned
        cases returned
      · rw [idle'] at returned
        cases returned

/-- The exchange of a replica with a reply that has entries. -/
theorem take_entries (applies : Applies env) (sorts : SortsEntries env)
    (replica : p.server.isMaster = false) (now : Int) {reply : Option JsonMessage}
    (entries : Entries reply) :
    ∃ st, p.take env now reply = (p.setServer (p.server.setStorage st)).setTurn .idle := by
  obtain ⟨committed, tentative, rfl, typed⟩ := entries
  obtain ⟨sorted, sortable⟩ := sorts tentative typed
  obtain ⟨st, applied⟩ := applies p.server.storage committed sorted
  refine ⟨st, ?_⟩
  have taken : p.server.takeUp env now (some (entriesReply committed tentative)) =
      (.ok (), p.server.setStorage st) := by
    simp only [BayouAppServer.takeUp, readResponse_entriesReply replica sortable,
      BayouAppServer.applyEntries, applied]
  simp only [Party.take, taken]
  rfl

theorem master_of_made (made : Gossip.Made topology masterName name p) :
    p.server.isMaster = (name == masterName) := by
  obtain ⟨si, _, rfl, same⟩ := made
  exact same.isMaster

theorem Goes.take (applies : Applies env) (sorts : SortsEntries env)
    (made : Gossip.Made topology masterName name p) {now : Int} {reply : Option JsonMessage}
    (goes : p.Goes topology masterName name) (returned : p.turn = .returned reply) :
    (p.take env now reply).Goes topology masterName name := by
  have idle : (p.take env now reply).turn = .idle := turn_take env p now reply
  have loop : (p.take env now reply).loop.coming = p.loop.coming := by
    simp only [Party.take, settle]
    split <;> rfl
  refine ⟨fun replica => ?_, ?_, ?_, ?_⟩
  · have follower : p.server.isMaster = false := by
      rw [master_of_made made]
      exact beq_eq_false_iff_ne.mpr replica
    obtain ⟨st, taken⟩ := take_entries applies sorts follower now
      (goes.answered reply returned)
    obtain ⟨alive, complete, current⟩ := goes.visits replica
    rw [taken]
    exact ⟨alive, complete, current⟩
  · rw [loop]
    exact goes.coming
  · intro peer request waiting
    rw [idle] at waiting
    cases waiting
  · intro reply' returned'
    rw [idle] at returned'
    cases returned'

theorem Goes.beginRound (made : Gossip.Made topology masterName name p)
    (goes : p.Goes topology masterName name) (coming : p.loop.coming = []) :
    p.beginRound.Goes topology masterName name := by
  have peers : p.server.peers = topology.peers := by
    obtain ⟨si, _, _, same⟩ := made
    exact same.peers
  refine ⟨fun replica => ?_, ?_, goes.waits, goes.answered⟩
  · obtain ⟨alive, complete, current⟩ := goes.visits replica
    rw [coming] at current
    have whole : p.loop.tried = othersIn name topology.peers := by simpa [othersIn] using current
    refine ⟨alive, ?_, ?_⟩
    · intro round member
      rcases List.mem_append.mp member with earlier | last
      · exact complete round earlier
      · rw [List.mem_singleton.mp last, whole]
    · show [] ++ othersIn p.server.name p.server.peers = _
      rw [List.nil_append, made.name, peers]
  · show ∀ peer ∈ p.server.peers, peer ∈ topology.peers
    rw [peers]
    exact fun peer member => member

end Party

/-! ## The cluster -/

namespace Gossip

variable {env : Env} {topology : Topology} {masterName : String} {g g' : Gossip} {a : Action}

/-- Every exchange comes to its end. -/
def NoLoss (as : List Action) : Prop := ∀ name, .lose name ∉ as

/-- What the storage operations and the package do. -/
structure Works (env : Env) : Prop where
  keeps : KeepsEntries env
  applies : Applies env
  answers : Answers env
  sorts : SortsEntries env

/-- A server that is asked replies with entries. -/
theorem entries_of_asked (answers : Answers env) (keeps : KeepsEntries env) {s : BayouAppServer}
    (stores : s.Stores Timed) (now : Int) (req : AntiEntropyReq) :
    Entries (replyOf (s.processReq env now req.toMsg).1) := by
  obtain ⟨committed, tentative, st, answered⟩ :=
    answers s.storage req.c.arrived req.f.arrived
  rw [BayouAppServer.processReq_toMsg, answered]
  refine ⟨committed, tentative, rfl, fun e member => stores e ?_⟩
  exact keeps.told _ _ _ _ _ _ answered e (List.mem_append_right _ member)

/-- All loops of replicas go on. -/
def Goes (topology : Topology) (masterName : String) (g : Gossip) : Prop :=
  ∀ n p, g n = some p → p.Goes topology masterName n

theorem goes_step (works : Works env) (all : topology.AllConnected)
    (made : ∀ n p, g n = some p → Made topology masterName n p) (carries : Carries Timed g)
    (goes : Goes topology masterName g) (kept : ∀ name, a ≠ .lose name)
    (stepped : step env g a = some g') : Goes topology masterName g' := by
  cases moves_of_step stepped with
  | client now msg here =>
    refine forall_modify goes fun p here => ?_
    have same := (BayouAppServer.sameClients_processReq env p.server now msg).name
    have before := goes _ p here
    refine ⟨fun replica => ?_, before.coming, before.waits, before.answered⟩
    obtain ⟨alive, complete, current⟩ := before.visits replica
    rw [← same] at current
    exact ⟨alive, complete, current⟩
  | @ask name p peer rest here alive idle coming =>
    refine forall_modify goes fun r this => ?_
    have same : r = p := Option.some.inj (this.symm.trans here)
    subst same
    exact (goes _ r this).askPeer all (made _ r this) coming
  | @serve name by_ p q peer request now here there waiting listens =>
    have served : Goes topology masterName (g.modify by_ fun r => r.setServer
        (q.server.processReq env now request).2) := by
      refine forall_modify goes fun r this => ?_
      have same : r = q := Option.some.inj (this.symm.trans there)
      subst same
      have name := (BayouAppServer.sameClients_processReq env r.server now request).name
      have before := goes _ r this
      refine ⟨fun replica => ?_, before.coming, before.waits, before.answered⟩
      obtain ⟨alive, complete, current⟩ := before.visits replica
      rw [← name] at current
      exact ⟨alive, complete, current⟩
    refine forall_modify served fun r this => ?_
    have before := served _ r this
    refine ⟨fun replica => ?_, before.coming, (fun _ _ waits => nomatch waits), ?_⟩
    · obtain ⟨alive, complete, current⟩ := before.visits replica
      exact ⟨alive, complete, current⟩
    · intro reply returned
      cases returned
      obtain ⟨req, rfl⟩ := (carries name p here).asks peer request waiting
      exact entries_of_asked works.answers works.keeps (carries by_ q there).stores now req
  | @lose name p here busy => exact absurd rfl (kept name)
  | @take name p reply now here returned =>
    refine forall_modify goes fun r this => ?_
    have same : r = p := Option.some.inj (this.symm.trans here)
    subst same
    exact (goes _ r this).take works.applies works.sorts (made _ r this) returned
  | @nextRound name p here alive idle coming =>
    refine forall_modify goes fun r this => ?_
    have same : r = p := Option.some.inj (this.symm.trans here)
    subst same
    exact (goes _ r this).beginRound (made _ r this) coming

theorem goes_start : Goes topology masterName (start topology masterName) := by
  intro n p here
  obtain ⟨si, created, named, same⟩ := made_start here
  obtain ⟨server, found, rfl⟩ := Option.map_eq_some_iff.mp here
  have peers : server.peers = topology.peers := same.peers
  have name : server.name = n := same.name.trans named
  refine ⟨fun _ => ⟨rfl, (fun _ member => nomatch member), ?_⟩, ?_,
    (fun _ _ waits => nomatch waits), (fun _ returned => nomatch returned)⟩
  · show [] ++ othersIn server.name server.peers = _
    rw [List.nil_append, name, peers]
  · show ∀ peer ∈ server.peers, peer ∈ topology.peers
    rw [peers]
    exact fun peer member => member

theorem timed_of_run (keeps : KeepsEntries env) {as : List Action}
    (run : (system env topology masterName).Run as g) (unstamped : Unstamped as) :
    Carries Timed g := by
  intro n p here
  refine (written_of_run keeps run unstamped n p here).mono ?_
  rintro e ⟨name, now, msg, char, _, _, _, rfl⟩
  exact ⟨_, rfl⟩

/-- A run of the cluster whose clients bring no times and whose exchanges all come to their
end. -/
structure Reached (env : Env) (topology : Topology) (masterName : String) (as : List Action)
    (g : Gossip) : Prop where
  run : (system env topology masterName).Run as g
  unstamped : Unstamped as
  noLoss : NoLoss as

theorem Reached.timed {as : List Action} (reached : Reached env topology masterName as g)
    (keeps : KeepsEntries env) : Carries Timed g :=
  timed_of_run keeps reached.run reached.unstamped

theorem Reached.goes {as : List Action} (reached : Reached env topology masterName as g)
    (works : Works env) (all : topology.AllConnected) : Goes topology masterName g := by
  obtain ⟨run, unstamped, noLoss⟩ := reached
  refine System.run_induction (P := fun as g => Unstamped as → NoLoss as →
    Goes topology masterName g) (fun _ _ => goes_start) ?_ run unstamped noLoss
  intro as g a g' earlier holds stepped unstamped noLoss
  have noLossBefore : NoLoss as := fun name member => noLoss name (List.mem_append_left _ member)
  have before : Reached env topology masterName as g := ⟨earlier, unstamped.of_append, noLossBefore⟩
  refine goes_step works all (made_of_run earlier) (before.timed works.keeps)
    (holds unstamped.of_append noLossBefore) ?_ stepped
  rintro name rfl
  exact noLoss name (List.mem_append_right _ (List.mem_singleton_self _))

/-! ## A round comes to its end -/

/-- A step of the exchanges of the server `n`. -/
def Own (n : String) : Action → Prop
  | .ask m | .serve m _ _ | .take m _ | .nextRound m => m = n
  | .client .. | .lose _ => False

/-- The exchanges of the server `n` alone lead from `g` to `g'`, in at most `k` steps. -/
def Leads (env : Env) (n : String) (k : Nat) (g g' : Gossip) : Prop :=
  ∃ bs, (∀ b ∈ bs, Own n b) ∧ bs.length ≤ k ∧
    ∀ topology masterName, (system env topology masterName).runFrom g bs = some g'

theorem Leads.refl (env : Env) (n : String) (k : Nat) (g : Gossip) : Leads env n k g g :=
  ⟨[], (fun _ member => nomatch member), Nat.zero_le k, fun _ _ => rfl⟩

theorem Leads.trans {n : String} {k l : Nat} {g g' g'' : Gossip} (first : Leads env n k g g')
    (second : Leads env n l g' g'') : Leads env n (k + l) g g'' := by
  obtain ⟨bs, own, short, run⟩ := first
  obtain ⟨cs, own', short', run'⟩ := second
  refine ⟨bs ++ cs, ?_, ?_, fun topology masterName => ?_⟩
  · intro b member
    rcases List.mem_append.mp member with earlier | later
    · exact own b earlier
    · exact own' b later
  · rw [List.length_append]
    omega
  · rw [System.runFrom_append, run topology masterName]
    exact run' topology masterName

theorem leads_of_step {n : String} {g g' : Gossip} {b : Action}
    (stepped : step env g b = some g') (own : Own n b) : Leads env n 1 g g' := by
  refine ⟨[b], ?_, le_refl 1, fun topology masterName => ?_⟩
  · intro b' member
    rw [List.mem_singleton.mp member]
    exact own
  · rw [System.runFrom_singleton]
    exact stepped

theorem Reached.leads {as : List Action} (reached : Reached env topology masterName as g)
    {n : String} {k : Nat} (leads : Leads env n k g g') :
    ∃ bs, Reached env topology masterName bs g' := by
  obtain ⟨bs, own, _, run⟩ := leads
  obtain ⟨before, unstamped, noLoss⟩ := reached
  refine ⟨as ++ bs, ?_, ?_, ?_⟩
  · show (system env topology masterName).runFrom _ (as ++ bs) = _
    rw [System.runFrom_append, show (system env topology masterName).runFrom _ as = _ from before]
    exact run topology masterName
  · intro name now msg member
    rcases List.mem_append.mp member with earlier | later
    · exact unstamped name now msg earlier
    · exact (own _ later).elim
  · intro name member
    rcases List.mem_append.mp member with earlier | later
    · exact noLoss name earlier
    · exact own _ later

theorem isSome_modify (g : Gossip) (name : String) (change : Party → Party) (n : String) :
    (g.modify name change n).isSome = (g n).isSome := by
  by_cases same : n = name
  · subst same
    rw [modify_self, Option.isSome_map]
  · rw [modify_of_ne change same]

theorem isSome_step (stepped : step env g a = some g') (n : String) :
    (g' n).isSome = (g n).isSome := by
  cases moves_of_step stepped <;> simp only [isSome_modify]

/-- In every run the servers of the topology are there. -/
theorem exists_party {as : List Action} (run : (system env topology masterName).Run as g)
    {target : ServerInfo} (mention : target ∈ topology.mentioned) :
    ∃ q, g target.name = some q := by
  refine Option.isSome_iff_exists.mp ?_
  refine System.run_invariant (P := fun g : Gossip => (g target.name).isSome = true) ?_ ?_ run
  · show ((topology.servers masterName).get? target.name |>.map Party.start).isSome = true
    rw [Option.isSome_map]
    exact Dict.contains_iff_mem_keys.mpr (Topology.mem_keys_servers.mpr ⟨target, mention, rfl⟩)
  · intro g a g' before stepped
    rw [isSome_step stepped]
    exact before

/-- In every run somebody listens at the address of each server of the topology. -/
theorem exists_listener (distinct : topology.DistinctNames) {as : List Action}
    (run : (system env topology masterName).Run as g) {target : ServerInfo}
    (mention : target ∈ topology.mentioned) :
    ∃ q, g target.name = some q ∧ q.server.ListensAt target := by
  obtain ⟨q, here⟩ := exists_party run mention
  obtain ⟨si, created, named, same⟩ := made_of_run run target.name q here
  have one : si = target :=
    distinct si (Topology.mentioned_of_mem_serverInfos created) target mention named
  have info : q.server.info = si := same.info
  refine ⟨q, here, ?_, ?_⟩
  · rw [info, one]
  · rw [info, one]

variable {n : String} {p : Party} {as : List Action}

/-- A reply with entries is taken up. -/
theorem taken_up (works : Works env) (all : topology.AllConnected) (replica : n ≠ masterName)
    (reached : Reached env topology masterName as g) (here : g n = some p)
    {reply : Option JsonMessage} (returned : p.turn = .returned reply) :
    ∃ g' p', Leads env n 1 g g' ∧ g' n = some p' ∧ p'.turn = .idle ∧ p'.loop = p.loop := by
  have follower : p.server.isMaster = false := by
    rw [Party.master_of_made (made_of_run reached.run n p here)]
    exact beq_eq_false_iff_ne.mpr replica
  have entries : Entries reply := (reached.goes works all n p here).answered reply returned
  obtain ⟨st, taken⟩ := Party.take_entries works.applies works.sorts follower 0 entries
  have stepped : step env g (.take n 0) = some (g.modify n fun p => p.take env 0 reply) := by
    simp only [step, here, returned]
  refine ⟨_, p.take env 0 reply, leads_of_step stepped rfl, ?_, ?_, ?_⟩
  · rw [modify_self, here]
    rfl
  · rw [taken]
    rfl
  · rw [taken]
    rfl

/-- A request is served, and what comes back is taken up. -/
theorem served_and_taken_up (works : Works env) (all : topology.AllConnected)
    (distinct : topology.DistinctNames) (replica : n ≠ masterName)
    (reached : Reached env topology masterName as g) (here : g n = some p)
    {target : ServerInfo} {request : JsonMessage} (waiting : p.turn = .waiting target request) :
    ∃ g' p', Leads env n 2 g g' ∧ g' n = some p' ∧ p'.turn = .idle ∧ p'.loop = p.loop := by
  have mention := (reached.goes works all n p here).waits target request waiting
  obtain ⟨q, there, listens⟩ := exists_listener distinct reached.run mention
  have served : step env g (.serve n target.name 0) =
      some ((g.modify target.name fun r => r.setServer
        (q.server.processReq env 0 request).2).modify n fun p =>
          p.setTurn (.returned (replyOf (q.server.processReq env 0 request).1))) := by
    simp only [step, here, there, waiting, if_pos listens]
  have first : Leads env n 1 g _ := leads_of_step served rfl
  obtain ⟨r, this, loop⟩ : ∃ r, g.modify target.name (fun r => r.setServer
      (q.server.processReq env 0 request).2) n = some r ∧ r.loop = p.loop := by
    by_cases self : n = target.name
    · subst self
      rw [modify_self, here]
      exact ⟨_, rfl, rfl⟩
    · rw [modify_of_ne _ self]
      exact ⟨p, here, rfl⟩
  obtain ⟨bs, reached'⟩ := reached.leads first
  obtain ⟨g', p', second, here', idle, loop'⟩ := taken_up works all replica reached'
    (by rw [modify_self, this]; rfl) rfl
  exact ⟨g', p', first.trans second, here', idle, loop'.trans loop⟩

/-- An exchange under way is completed. -/
theorem settles (works : Works env) (all : topology.AllConnected)
    (distinct : topology.DistinctNames) (replica : n ≠ masterName)
    (reached : Reached env topology masterName as g) (here : g n = some p) :
    ∃ g' p', Leads env n 2 g g' ∧ g' n = some p' ∧ p'.turn = .idle ∧ p'.loop = p.loop := by
  cases turn : p.turn with
  | idle => exact ⟨g, p, Leads.refl env n 2 g, here, turn, rfl⟩
  | waiting target request =>
    exact served_and_taken_up works all distinct replica reached here turn
  | returned reply =>
    obtain ⟨g', p', leads, rest⟩ := taken_up works all replica reached here turn
    exact ⟨g', p', (Leads.refl env n 1 g).trans leads, rest⟩

/-- The loop comes to the end of its peers, by three steps for each at most. -/
theorem tries_all (works : Works env) (all : topology.AllConnected)
    (distinct : topology.DistinctNames) (replica : n ≠ masterName) {coming : List ServerInfo}
    (reached : Reached env topology masterName as g) (here : g n = some p)
    (idle : p.turn = .idle) (left : p.loop.coming = coming) :
    ∃ g' p', Leads env n (3 * coming.length) g g' ∧ g' n = some p' ∧ p'.turn = .idle ∧
      p'.loop.coming = [] ∧ p'.loop.rounds = p.loop.rounds := by
  induction coming generalizing as g p with
  | nil => exact ⟨g, p, Leads.refl env n _ g, here, idle, left, rfl⟩
  | cons peer rest ih =>
    have goes := reached.goes works all n p here
    have alive := (goes.visits replica).alive
    have stepped : step env g (.ask n) = some (g.modify n fun p => p.askPeer peer rest) := by
      simp only [step, here, alive, idle, left]
    have first : Leads env n 1 g _ := leads_of_step stepped rfl
    obtain ⟨bs, asked⟩ := reached.leads first
    have here' : g.modify n (fun p => p.askPeer peer rest) n = some (p.askPeer peer rest) := by
      rw [modify_self, here]
      rfl
    have loop : (p.askPeer peer rest).loop.coming = rest ∧
        (p.askPeer peer rest).loop.rounds = p.loop.rounds := by
      by_cases self : peer.name = p.server.name
      · simp only [Party.askPeer, if_pos self, and_self]
      · have known : peer ∈ topology.peers := goes.coming peer (left ▸ List.mem_cons_self)
        rw [(Party.loop_askPeer all (made_of_run reached.run n p here) rest known self).1]
        exact ⟨rfl, rfl⟩
    obtain ⟨g₁, p₁, second, here₁, idle₁, loop₁⟩ := settles works all distinct replica asked here'
    obtain ⟨cs, settled⟩ := asked.leads second
    obtain ⟨g', p', third, here₂, idle₂, done, rounds⟩ :=
      ih settled here₁ idle₁ (by rw [loop₁, loop.1])
    refine ⟨g', p', ?_, here₂, idle₂, done, by rw [rounds, loop₁, loop.2]⟩
    have bound : 3 * (peer :: rest).length = 1 + 2 + 3 * rest.length := by
      rw [List.length_cons]
      omega
    rw [bound]
    exact (first.trans second).trans third

/-- The loop comes to the end of its round. -/
theorem completes_round (works : Works env) (all : topology.AllConnected)
    (distinct : topology.DistinctNames) (replica : n ≠ masterName)
    (reached : Reached env topology masterName as g) (here : g n = some p) :
    ∃ g' p', Leads env n (3 * p.loop.coming.length + 3) g g' ∧ g' n = some p' ∧
      p'.loop.rounds = p.loop.rounds ++ [othersIn n topology.peers] ∧
      p'.loop.coming = topology.peers := by
  obtain ⟨g₁, p₁, first, here₁, idle₁, loop₁⟩ := settles works all distinct replica reached here
  obtain ⟨bs, settled⟩ := reached.leads first
  obtain ⟨g₂, p₂, second, here₂, idle₂, done, rounds⟩ :=
    tries_all works all distinct replica settled here₁ idle₁ rfl
  obtain ⟨cs, tried⟩ := settled.leads second
  obtain ⟨alive, _, current⟩ := (tried.goes works all n p₂ here₂).visits replica
  rw [done] at current
  have whole : p₂.loop.tried = othersIn n topology.peers := by simpa [othersIn] using current
  have stepped : step env g₂ (.nextRound n) = some (g₂.modify n Party.beginRound) := by
    simp only [step, here₂, alive, idle₂, done]
  have third : Leads env n 1 g₂ _ := leads_of_step stepped rfl
  refine ⟨g₂.modify n Party.beginRound, p₂.beginRound, ?_, by rw [modify_self, here₂]; rfl, ?_, ?_⟩
  · have bound : 3 * p.loop.coming.length + 3 = 2 + 3 * p₁.loop.coming.length + 1 := by
      rw [loop₁]
      omega
    rw [bound]
    exact (first.trans second).trans third
  · show p₂.loop.rounds ++ [p₂.loop.tried] = _
    rw [rounds, loop₁, whole]
  · obtain ⟨si, _, _, same⟩ := made_of_run tried.run n p₂ here₂
    exact same.peers

theorem works_telling : Works Env.telling where
  keeps := keepsEntries_telling
  applies _ _ _ := ⟨_, rfl⟩
  answers _ _ _ := ⟨_, _, _, rfl⟩
  sorts _ _ := ⟨_, rfl⟩

end Gossip

end Col733.Lab4

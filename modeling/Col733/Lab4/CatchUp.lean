import Col733.Lab4.Delivery

/-!
# Eventual consistency

Once the loop of a server has gone through all its peers, and its connections were open whenever it
asked, it has every write that any server had before. When no client writes any more, that is all
there is: so after two rounds all such servers store the same entries. And a replica whose
connections are open can always get there by itself.
-/

namespace Col733.Lab4

open VersionVector

/-! ## A round of one server -/

namespace Party

variable {env : Env} {topology : Topology} {servers : List String} {W W₀ : Set (String × Int)}
  {name m : String} {start : Nat} {p q : Party} {peer : ServerInfo} {rest : List ServerInfo}

/-- The loop has tried the peers before those that are to come. -/
def OnCourse (topology : Topology) (name : String) (p : Party) : Prop :=
  p.loop.tried ++ othersIn name p.loop.coming = othersIn name topology.peers

theorem loop_askPeer_other (rest : List ServerInfo) (other : peer.name ≠ p.server.name) :
    ∃ ended, (p.askPeer peer rest).loop =
      { p.loop with coming := rest, tried := p.loop.tried ++ [peer.name], ended } := by
  simp only [askPeer, if_neg other]
  cases p.server.connectionStub.channel p.server.name peer.name with
  | ok target => exact ⟨_, rfl⟩
  | error raised => cases raised <;> exact ⟨_, rfl⟩

theorem loop_take (env : Env) (p : Party) (now : Int) (reply : Option JsonMessage) :
    ∃ ended, (p.take env now reply).loop = { p.loop with ended } ∧
      (ended = none → p.loop.ended = none) := by
  unfold Party.take
  rcases p.server.takeUp env now reply with ⟨outcome, server⟩
  cases outcome with
  | ok => exact ⟨p.loop.ended, rfl, id⟩
  | error raised =>
    cases raised with
    | simulatedConnectionError => exact ⟨p.loop.ended, rfl, id⟩
    | assertionError | keyError | typeError | indexError =>
      exact ⟨_, rfl, fun gone => by cases gone⟩

theorem OnCourse.askPeer (course : p.OnCourse topology p.server.name)
    (coming : p.loop.coming = peer :: rest) :
    (p.askPeer peer rest).OnCourse topology p.server.name := by
  unfold OnCourse at course ⊢
  rw [coming] at course
  by_cases self : peer.name = p.server.name
  · rw [othersIn_self rest self] at course
    rw [Party.askPeer, if_pos self]
    exact course
  · obtain ⟨ended, loop⟩ := loop_askPeer_other rest self
    rw [othersIn_other rest self] at course
    rw [loop, List.append_assoc]
    exact course

theorem OnCourse.of_loop (course : p.OnCourse topology name)
    (coming : q.loop.coming = p.loop.coming) (tried : q.loop.tried = p.loop.tried) :
    q.OnCourse topology name := by
  rw [OnCourse, coming, tried]
  exact course

/-- The writes in `W₀` of the server `m` are here. -/
def Has (W₀ : Set (String × Int)) (m : String) (p : Party) : Prop :=
  ∀ w ∈ W₀, w.1 = m → w ∈ times p.server.storage.entries

/-- They are being asked for, or what is not here has come with a reply. -/
def Fetches (W₀ : Set (String × Int)) (m : String) (p : Party) : Prop :=
  match p.turn with
  | .idle => False
  | .waiting target _ => target.name = m
  | .returned reply => ∀ committed tentative, reply = some (entriesReply committed tentative) →
      ∀ w ∈ W₀, w.1 = m → w ∈ times p.server.storage.entries ∪ times (committed ++ tentative)

/-- The first round that begins after `start` rounds brings, or has brought, what the servers had
that it has tried; and once it is complete everything is here. -/
structure Catching (W₀ : Set (String × Int)) (start : Nat) (p : Party) : Prop where
  tried : p.loop.ended = none → p.loop.rounds.length = start + 1 → ∀ m ∈ p.loop.tried,
    p.Has W₀ m ∨ p.Fetches W₀ m
  done : start + 2 ≤ p.loop.rounds.length → W₀ ⊆ times p.server.storage.entries

theorem Catching.grow (catching : p.Catching W₀ start) (loop : q.loop = p.loop)
    (turn : q.turn = p.turn)
    (more : times p.server.storage.entries ⊆ times q.server.storage.entries) :
    q.Catching W₀ start := by
  refine ⟨?_, ?_⟩ <;> rw [loop]
  · intro alive current m tried
    rcases catching.tried alive current m tried with has | fetches
    · exact .inl fun w written named => more (has w written named)
    · refine .inr ?_
      unfold Fetches at fetches ⊢
      rw [turn]
      split at fetches
      · exact fetches
      · exact fetches
      · exact fun committed tentative same w written named =>
          (fetches committed tentative same w written named).imp_left fun here => more here
  · exact fun complete => (catching.done complete).trans more

/-- The loop turns to its next peer. -/
theorem Catching.askPeer (catching : p.Catching W₀ start) (alive : p.loop.ended = none)
    (idle : p.turn = .idle) (clients : peer.name ≠ p.server.name →
      ∃ target, p.server.connectionStub.channel p.server.name peer.name = .ok target ∧
        target.name = peer.name) : (p.askPeer peer rest).Catching W₀ start := by
  have before : p.loop.rounds.length = start + 1 → ∀ m ∈ p.loop.tried, p.Has W₀ m := by
    intro current m tried
    refine (catching.tried alive current m tried).resolve_right ?_
    simp only [Fetches, idle, not_false_eq_true]
  by_cases self : peer.name = p.server.name
  · rw [Party.askPeer, if_pos self]
    exact ⟨fun _ current m tried => .inl (before current m tried), catching.done⟩
  · obtain ⟨target, channel, named⟩ := clients self
    have turn : (p.askPeer peer rest).turn = .waiting target p.server.antiEntropyReq := by
      simp only [Party.askPeer, if_neg self, channel, turn_setTurn]
    obtain ⟨ended, loop⟩ := loop_askPeer_other rest self
    refine ⟨?_, ?_⟩ <;> rw [loop]
    · intro _ current m tried
      rcases List.mem_append.mp tried with earlier | last
      · refine .inl ?_
        unfold Has
        rw [storage_askPeer]
        exact before current m earlier
      · rw [List.mem_singleton.mp last]
        exact .inr (by simp only [Fetches, turn, named])
    · rw [storage_askPeer]
      exact catching.done

/-- The server that was asked had the writes of its own. -/
theorem Catching.served (catching : p.Catching W₀ start) {reply : Option JsonMessage}
    {target : ServerInfo} {request : JsonMessage} (waiting : p.turn = .waiting target request)
    (told : ∀ committed tentative, reply = some (entriesReply committed tentative) →
      ∀ w ∈ W₀, w.1 = target.name →
        w ∈ times p.server.storage.entries ∪ times (committed ++ tentative)) :
    (p.setTurn (.returned reply)).Catching W₀ start := by
  refine ⟨fun alive current m tried => ?_, catching.done⟩
  rcases catching.tried alive current m tried with has | fetches
  · exact .inl has
  · simp only [Fetches, waiting] at fetches
    subst fetches
    exact .inr told

theorem Catching.lost (catching : p.Catching W₀ start) :
    (p.setTurn (.returned none)).Catching W₀ start := by
  refine ⟨fun _ _ m _ => .inr ?_, catching.done⟩
  exact fun _ _ same => nomatch same

/-- The reply is taken up. -/
theorem Catching.take (catching : p.Catching W₀ start) (informed : p.Informed servers W name)
    (spreads : Spreads env) (listed : ∀ w ∈ W, w.1 ∈ servers) {reply : Option JsonMessage}
    (tells : ∀ response, reply = some response → BayouAppServer.Tells Timed response)
    (returned : p.turn = .returned reply) (now : Int) :
    (p.take env now reply).Catching W₀ start := by
  obtain ⟨ended, loop, before⟩ := loop_take env p now reply
  rcases take_cases informed spreads listed tells returned now with
    ⟨gone, same⟩ | ⟨committed, tentative, rfl, after, _⟩
  · refine ⟨fun alive' => ?_, ?_⟩
    · rw [alive'] at gone
      cases gone
    · rw [loop, same]
      exact catching.done
  · refine ⟨?_, ?_⟩
    · rw [loop]
      intro alive current m tried
      refine .inl fun w written named => ?_
      rw [after]
      rcases catching.tried (before alive) current m tried with has | fetches
      · exact .inl (has w written named)
      · simp only [Fetches, returned] at fetches
        exact fetches committed tentative rfl w written named
    · rw [loop, after]
      exact fun complete => (catching.done complete).trans Set.subset_union_left

/-- A round is complete. -/
theorem Catching.beginRound (catching : p.Catching W₀ start) (alive : p.loop.ended = none)
    (idle : p.turn = .idle) (all : ∀ w ∈ W₀, w.1 ∈ p.loop.tried ∨ p.Has W₀ w.1) :
    p.beginRound.Catching W₀ start := by
  refine ⟨fun _ _ m tried => absurd tried List.not_mem_nil, fun complete w written => ?_⟩
  have length : p.beginRound.loop.rounds.length = p.loop.rounds.length + 1 :=
    List.length_append
  rw [length] at complete
  by_cases before : start + 2 ≤ p.loop.rounds.length
  · exact catching.done before written
  · rcases all w written with tried | has
    · rcases catching.tried alive (by omega) w.1 tried with has | fetches
      · exact has w written rfl
      · simp only [Fetches, idle] at fetches
    · exact has w written rfl

end Party

/-! ## The cluster -/

namespace Gossip

variable {env : Env} {topology : Topology} {masterName : String} {g g' : Gossip} {a : Action}
  {W W₀ : Set (String × Int)} {as bs : List Action} {n : String} {p p' : Party} {begun : Nat}

theorem onCourse_start :
    ∀ n p, start topology masterName n = some p → p.OnCourse topology n := by
  intro n p here
  obtain ⟨si, created, named, same⟩ := made_start here
  obtain ⟨server, found, rfl⟩ := Option.map_eq_some_iff.mp here
  have peers : server.peers = topology.peers := same.peers
  show [] ++ othersIn n server.peers = _
  rw [List.nil_append, peers]

theorem onCourse_step (made : ∀ n p, g n = some p → Made topology masterName n p)
    (course : ∀ n p, g n = some p → p.OnCourse topology n) (stepped : step env g a = some g') :
    ∀ n p, g' n = some p → p.OnCourse topology n := by
  cases moves_of_step stepped with
  | client now msg here =>
    exact forall_modify course fun p here => (course _ p here).of_loop rfl rfl
  | @ask name p peer rest here alive idle coming =>
    refine forall_modify course fun r this => ?_
    have same : r = p := Option.some.inj (this.symm.trans here)
    subst same
    have named : r.server.name = name := (made name r this).name
    subst named
    exact (course _ r this).askPeer coming
  | @serve name by_ p q peer request now here there waiting listens =>
    have served : ∀ m r, g.modify by_ (fun r => r.setServer
        (q.server.processReq env now request).2) m = some r → r.OnCourse topology m :=
      forall_modify course fun r this => (course by_ r this).of_loop rfl rfl
    exact forall_modify served fun r this => (served name r this).of_loop rfl rfl
  | lose here busy => exact forall_modify course fun p here => (course _ p here).of_loop rfl rfl
  | take now here returned =>
    refine forall_modify course fun p here => ?_
    obtain ⟨ended, loop, _⟩ := Party.loop_take env p now _
    exact (course _ p here).of_loop (by rw [loop]) (by rw [loop])
  | @nextRound name p here alive idle coming =>
    refine forall_modify course fun r this => ?_
    obtain ⟨si, _, _, same⟩ := made name r this
    have peers : r.server.peers = topology.peers := same.peers
    show [] ++ othersIn name r.server.peers = _
    rw [List.nil_append, peers]

/-- In every run every loop has tried the peers before those that are to come. -/
theorem onCourse_of_run (run : (system env topology masterName).Run as g) :
    ∀ n p, g n = some p → p.OnCourse topology n := by
  refine System.run_induction (P := fun _ g => ∀ n p, g n = some p → p.OnCourse topology n)
    onCourse_start ?_ run
  exact fun as g a g' earlier course stepped => onCourse_step (made_of_run earlier) course stepped

/-- And waits for servers of the cluster alone. -/
theorem waits_of_run (run : (system env topology masterName).Run as g) :
    ∀ n p, g n = some p → Waits topology (fun _ => true) n p := by
  refine System.run_induction (P := fun _ g => ∀ n p, g n = some p →
    Waits topology (fun _ => true) n p) waits_start ?_ run
  intro as g a g' earlier waits stepped
  refine waits_step (made_of_run earlier) waits ?_ stepped
  cases a with
  | ask name => exact fun _ p peer rest here coming outside => absurd outside (by simp)
  | client | serve | lose | take | nextRound => trivial

/-- When the loop of the server `n` comes to another peer, its connection there is open. -/
def Reaches (n : String) (g : Gossip) : Action → Prop
  | .ask name => name = n → ∀ p ∈ g n, ∀ peer ∈ p.loop.coming.head?, peer.name ≠ n →
      (p.server.connectionStub.channel n peer.name).isOk = true
  | _ => True

instance (n : String) (g : Gossip) : ∀ a, Decidable (Reaches n g a)
  | .ask name => inferInstanceAs (Decidable (name = n → ∀ p ∈ g n, ∀ peer ∈ p.loop.coming.head?,
      peer.name ≠ n → (p.server.connectionStub.channel n peer.name).isOk = true))
  | .client .. | .serve .. | .lose _ | .take .. | .nextRound _ => isTrue trivial

/-- One step of a round in which the server `n` catches up with what there was. -/
theorem catching_step (spreads : Spreads env) (covered : topology.Covered masterName)
    (distinct : topology.DistinctAddresses)
    (made : ∀ n p, g n = some p → Made topology masterName n p) (carries : Carries Timed g)
    (waits : ∀ n p, g n = some p → Waits topology (fun _ => true) n p)
    (course : ∀ n p, g n = some p → p.OnCourse topology n) (informed : Informed topology W g)
    (before : W₀ ⊆ W) (timely : Timely W a) (reaches : Reaches n g a)
    (catching : ∀ p, g n = some p → p.Catching W₀ begun) (stepped : step env g a = some g') :
    ∀ p, g' n = some p → p.Catching W₀ begun := by
  obtain ⟨listed, parties⟩ := informed
  -- `forall_modify` speaks of all servers
  suffices all : ∀ m p, g' m = some p → m = n → p.Catching W₀ begun from
    fun p here => all n p here rfl
  have catching' : ∀ m p, g m = some p → m = n → p.Catching W₀ begun := by
    rintro m p here rfl
    exact catching p here
  cases moves_of_step stepped with
  | @client name p now msg here =>
    refine forall_modify catching' fun r this same => ?_
    have one : r = p := Option.some.inj (this.symm.trans here)
    subst one
    exact (catching' name r this same).grow rfl rfl
      (informed_client spreads covered (made name r this) listed (parties name r this) timely).1
  | @ask name p peer rest here alive idle coming =>
    refine forall_modify catching' fun r this same => ?_
    have one : r = p := Option.some.inj (this.symm.trans here)
    subst one same
    have named : r.server.name = name := (made name r this).name
    refine (catching r this).askPeer alive idle fun other => ?_
    rw [named] at other ⊢
    have isOk := reaches rfl r this peer (by rw [coming, List.head?_cons, Option.mem_some]) other
    cases channel : r.server.connectionStub.channel name peer.name with
    | ok target =>
      exact ⟨target, rfl, (Party.target_of_made (made name r this) (named.symm ▸ channel)).2⟩
    | error raised =>
      rw [channel] at isOk
      cases isOk
  | @serve name by_ p q peer request now here there waiting listens =>
    obtain ⟨req, rfl, c, f⟩ := (parties name p here).asks peer request waiting
    have served : ∀ m r, g.modify by_ (fun r => r.setServer
        (q.server.processReq env now req.toMsg).2) m = some r → m = n → r.Catching W₀ begun := by
      intro m r this same
      obtain ⟨r', there', storage, _, _, loop, turn⟩ :=
        party_of_serve spreads.reads there req now this
      exact (catching' m r' there' same).grow loop turn (by rw [storage])
    refine forall_modify served fun r this same => ?_
    obtain ⟨r', here', storage, _, _, _, turn⟩ := party_of_serve spreads.reads there req now this
    have one : r' = p := Option.some.inj (here'.symm.trans here)
    subst one
    refine (served name r this same).served (turn.trans waiting) ?_
    intro committed tentative replied w written named
    have asked : by_ = peer.name :=
      name_of_listens distinct (made by_ q there) ((waits name r' here).mention _ _ waiting) listens
    have stored : w ∈ times q.server.storage.entries :=
      (parties by_ q there).knows.own w (before written) (named.trans asked.symm)
    have told := BayouAppServer.told_of_processReq spreads (eq_ok_of_replyOf replied)
    rw [storage]
    exact (told.times_entries (parties by_ q there).knows listed c.arrived f.arrived
      r'.server.storage.times_committedLog_subset).2 stored
  | @lose name p here busy =>
    exact forall_modify catching' fun r this same => (catching' name r this same).lost
  | @take name p reply now here returned =>
    refine forall_modify catching' fun r this same => ?_
    have one : r = p := Option.some.inj (this.symm.trans here)
    subst one
    refine (catching' name r this same).take (parties name r this) spreads listed ?_ returned now
    exact fun response given => (carries name r this).tells response (given ▸ returned)
  | @nextRound name p here alive idle coming =>
    refine forall_modify catching' fun r this same => ?_
    have one : r = p := Option.some.inj (this.symm.trans here)
    subst one same
    refine (catching r this).beginRound alive idle fun w written => ?_
    by_cases self : w.1 = name
    · exact .inr fun w' written' named =>
        (parties name r this).knows.own w' (before written') (named.trans self)
    · refine .inl ?_
      have whole : r.loop.tried = othersIn name topology.peers := by
        simpa [Party.OnCourse, coming, othersIn] using course name r this
      rw [whole, othersIn, List.mem_filter]
      exact ⟨listed w (before written), by simpa using self⟩

/-- A run, and a continuation of it in which the server `n` finds its connections open; the clients
bring no times, and their messages find the clocks of the servers go on. -/
structure Continues (env : Env) (topology : Topology) (masterName n : String)
    (as bs : List Action) (g g' : Gossip) : Prop where
  run : (system env topology masterName).Run as g
  later : (system env topology masterName).runFrom g bs = some g'
  unstamped : Unstamped (as ++ bs)
  clocks : Increasing (as ++ bs)
  reaches : (system env topology masterName).MeetsFrom (Reaches n) g bs

theorem Continues.cons {b : Action}
    (continues : Continues env topology masterName n as (b :: bs) g g') :
    ∃ next, step env g b = some next ∧ Reaches n g b ∧
      Continues env topology masterName n (as ++ [b]) bs next g' := by
  obtain ⟨run, later, unstamped, clocks, reaches⟩ := continues
  obtain ⟨next, first, rest⟩ := Option.bind_eq_some_iff.mp later
  rw [List.append_cons] at unstamped clocks
  exact ⟨next, first, reaches.1, run.snoc first, rest, unstamped, clocks, reaches.2 next first⟩

/-- The whole way there. The writes at its start are among those at its end, and the same if no
client writes. -/
theorem catching_run (spreads : Spreads env) (covered : topology.Covered masterName)
    (distinct : topology.DistinctAddresses)
    (continues : Continues env topology masterName n as bs g g')
    (informed : InformedBy topology as W g) (before : W₀ ⊆ W)
    (catching : ∀ p, g n = some p → p.Catching W₀ begun) :
    (∀ p, g' n = some p → p.Catching W₀ begun) ∧
      ∃ W', InformedBy topology (as ++ bs) W' g' ∧ ((∀ b ∈ bs, ¬ Writes b) → W' = W) := by
  induction bs generalizing as g W with
  | nil =>
    cases continues.later
    rw [List.append_nil]
    exact ⟨catching, W, informed, fun _ => rfl⟩
  | cons b bs ih =>
    have run := continues.run
    obtain ⟨next, first, reaches, rest⟩ := continues.cons
    have unstamped := rest.unstamped.of_append
    have clocks := rest.clocks.of_append
    obtain ⟨W', informed', more, quiet⟩ :=
      informedBy_step spreads covered run unstamped clocks informed first
    have timed : Carries Timed g := timed_of_run spreads.keeps run unstamped.of_append
    have catching' := catching_step spreads covered distinct (made_of_run run) timed
      (waits_of_run run) (onCourse_of_run run) informed.toInformed before
      (informed.timely unstamped clocks) reaches catching first
    obtain ⟨caught, W'', informed'', quiet'⟩ := ih rest informed' (before.trans more) catching'
    rw [List.append_cons]
    refine ⟨caught, W'', informed'', fun silent => ?_⟩
    rw [quiet' fun b' member => silent b' (List.mem_cons_of_mem b member),
      quiet (silent b List.mem_cons_self)]

theorem exists_party_of_peer (run : (system env topology masterName).Run as g)
    (peer : n ∈ topology.peerNames) : ∃ q, g n = some q := by
  obtain ⟨tos, value, target, member, rfl⟩ := Topology.mem_names_of_peers.mp peer
  obtain ⟨item, entry, rfl⟩ := List.mem_map.mp value
  exact exists_party run
    (List.mem_flatMap.mpr ⟨item, entry, List.mem_cons_of_mem item.1 member⟩)

namespace Continues

variable (continues : Continues env topology masterName n as bs g g')

include continues

theorem whole : (system env topology masterName).Run (as ++ bs) g' := by
  rw [System.Run, System.runFrom_append, show System.runFrom _ _ as = _ from continues.run]
  exact continues.later

theorem written (keeps : KeepsEntries env) : Carries (Written (as ++ bs)) g := fun m q there =>
  (written_of_run keeps continues.run continues.unstamped.of_append m q there).mono
    fun _ earlier => earlier.mono (List.subset_append_left as bs)

/-- Entries of one time are one entry, before and after, so that it is enough to follow the
times. -/
theorem eq_of_ltime (keeps : KeepsEntries env) {m : String} {q : Party} (there : g m = some q)
    (here' : g' n = some p') {e e' : AppLogEntry} (member : e ∈ q.server.storage.entries)
    (member' : e' ∈ p'.server.storage.entries) (same : e.ltime = e'.ltime) : e = e' :=
  eq_of_written continues.clocks.advance ((continues.written keeps m q there).stores e member)
    ((written_of_run keeps continues.whole continues.unstamped n p' here').stores e' member') same

section

variable (spreads : Spreads env) (covered : topology.Covered masterName)
  (distinct : topology.DistinctAddresses) (here : g n = some p) (here' : g' n = some p')
  (rounds : p.loop.rounds.length + 2 ≤ p'.loop.rounds.length)

include spreads covered distinct here here' rounds

/-- What two rounds bring. -/
theorem catches :
    ∃ W₀ W, InformedBy topology as W₀ g ∧ InformedBy topology (as ++ bs) W g' ∧
      W₀ ⊆ times p'.server.storage.entries ∧ ((∀ b ∈ bs, ¬ Writes b) → W = W₀) := by
  obtain ⟨W₀, informed⟩ := informed_of_run spreads covered continues.run
    continues.unstamped.of_append continues.clocks.of_append
  have begun : ∀ r, g n = some r → r.Catching W₀ p.loop.rounds.length := by
    intro r this
    cases this.symm.trans here
    exact ⟨fun _ current => absurd current (by omega), fun complete => absurd complete (by omega)⟩
  obtain ⟨caught, W, informed', quiet⟩ :=
    catching_run spreads covered distinct continues informed subset_rfl begun
  exact ⟨W₀, W, informed, informed', (caught p' here').done rounds, quiet⟩

/-- The server has what any server had before. -/
theorem mem_of_mem {m : String} {q : Party} (there : g m = some q) {e : AppLogEntry}
    (member : e ∈ q.server.storage.entries) : e ∈ p'.server.storage.entries := by
  obtain ⟨W₀, W, informed, _, caught, _⟩ :=
    continues.catches spreads covered distinct here here' rounds
  obtain ⟨w, time⟩ :=
    stamp_of_written ((continues.written spreads.keeps m q there).stores e member)
  have known : w ∈ W₀ := (informed.parties m q there).knows.known ⟨e, member, time⟩
  obtain ⟨e', member', time'⟩ := caught known
  rw [continues.eq_of_ltime spreads.keeps there here' member member' (time.trans time'.symm)]
  exact member'

/-- And nothing else, if no client writes. -/
theorem exists_mem_of_mem (silent : ∀ b ∈ bs, ¬ Writes b) {e : AppLogEntry}
    (member : e ∈ p'.server.storage.entries) :
    ∃ m q, g m = some q ∧ e ∈ q.server.storage.entries := by
  obtain ⟨W₀, W, informed, informed', _, quiet⟩ :=
    continues.catches spreads covered distinct here here' rounds
  have written' := written_of_run spreads.keeps continues.whole continues.unstamped
  obtain ⟨w, time⟩ := stamp_of_written ((written' n p' here').stores e member)
  have known : w ∈ W₀ := by
    rw [← quiet silent]
    exact (informed'.parties n p' here').knows.known ⟨e, member, time⟩
  obtain ⟨q, there⟩ := exists_party_of_peer continues.run (informed.listed w known)
  obtain ⟨e', member', time'⟩ := (informed.parties w.1 q there).knows.own w known rfl
  rw [← continues.eq_of_ltime spreads.keeps there here' member' member (time'.trans time.symm)]
  exact ⟨w.1, q, there, member'⟩

end

end Continues

/-- A write on each of two servers. -/
def wroteBoth : List Action :=
  [.client "s1" 1 (Dict.ofList [("type", .str "APPEND_CHAR"), ("char", .str "a")]),
    .client "s2" 1 (Dict.ofList [("type", .str "APPEND_CHAR"), ("char", .str "b")])]

/-- Two rounds of the second one. -/
def twoRounds : List Action :=
  [.ask "s2", .serve "s2" "s1" 2, .take "s2" 3, .ask "s2", .nextRound "s2",
    .ask "s2", .serve "s2" "s1" 4, .take "s2" 5, .ask "s2", .nextRound "s2"]

theorem unstamped_wroteBoth : Unstamped (wroteBoth ++ twoRounds) := by
  intro name now msg member
  simp only [wroteBoth, twoRounds, List.cons_append, List.nil_append, List.mem_cons,
    List.not_mem_nil, Action.client.injEq, reduceCtorEq, or_false] at member
  rcases member with ⟨_, rfl, rfl⟩ | ⟨_, rfl, rfl⟩ <;> decide

theorem stub_takeUp (env : Env) (s : BayouAppServer) (now : Int) (reply : Option JsonMessage) :
    (s.takeUp env now reply).2.connectionStub = s.connectionStub := by
  unfold BayouAppServer.takeUp
  split
  · rfl
  · split
    · rfl
    · unfold BayouAppServer.applyEntries
      split <;> rfl

/-- The exchanges of a server sever none of its connections. -/
theorem stub_of_own (reads : ReadsOnly env)
    (waits : ∀ n p, g n = some p → Waits topology (fun _ => true) n p) (here : g n = some p)
    (own : Own n a) (stepped : step env g a = some g') :
    ∃ p', g' n = some p' ∧ p'.server.connectionStub = p.server.connectionStub := by
  cases moves_of_step stepped with
  | client => exact own.elim
  | @ask name r peer rest =>
    cases own
    refine ⟨p.askPeer peer rest, by rw [modify_self, here]; rfl, ?_⟩
    rcases Party.server_askPeer p peer rest with same | same <;> rw [same]
    rfl
  | @serve name by_ r q peer request now there by_here waiting listens =>
    cases own
    obtain ⟨req, rfl⟩ := (waits n r there).asks peer request waiting
    obtain ⟨r', there'⟩ : ∃ r', g.modify by_ (fun r => r.setServer
        (q.server.processReq env now req.toMsg).2) n = some r' := by
      rw [← Option.isSome_iff_exists, isSome_modify, here]
      rfl
    obtain ⟨r'', before, _, _, stub, _⟩ := party_of_serve reads by_here req now there'
    cases before.symm.trans here
    refine ⟨_, by rw [modify_self, there', Option.map_some], ?_⟩
    exact stub
  | lose => exact own.elim
  | @take name r reply now =>
    cases own
    refine ⟨p.take env now reply, by rw [modify_self, here]; rfl, ?_⟩
    rw [Party.server_take, stub_takeUp]
  | nextRound =>
    cases own
    exact ⟨p.beginRound, by rw [modify_self, here]; rfl, rfl⟩

theorem channel_ne_severed {stub : ConnectionStub} (unsevered : stub.dcServers = ∅)
    (from_ to_ : String) : stub.channel from_ to_ ≠ .error .simulatedConnectionError := by
  unfold ConnectionStub.channel
  cases stub.blockingClients.get? to_ with
  | none => exact fun same => by cases same
  | some client =>
    simp only [unsevered, Finset.notMem_empty, if_false]
    exact fun same => by cases same

/-- And find those open that are not severed. -/
theorem reaches_of_own (works : Works env) (reads : ReadsOnly env) (all : topology.AllConnected)
    (reached : Reached env topology masterName as g) (here : g n = some p)
    (unsevered : p.server.connectionStub.dcServers = ∅) (own : ∀ b ∈ bs, Own n b)
    (later : (system env topology masterName).runFrom g bs = some g') :
    (system env topology masterName).MeetsFrom (Reaches n) g bs := by
  induction bs generalizing as g p with
  | nil => trivial
  | cons b bs ih =>
    obtain ⟨next, first, rest⟩ := Option.bind_eq_some_iff.mp later
    have mine := own b List.mem_cons_self
    obtain ⟨p', here', stub⟩ := stub_of_own reads (waits_of_run reached.run) here mine first
    obtain ⟨cs, reached'⟩ := reached.leads (leads_of_step first mine)
    refine System.meetsFrom_cons first ?_ (ih reached' here' (stub ▸ unsevered)
      (fun b' member => own b' (List.mem_cons_of_mem b member)) rest)
    cases b with
    | ask name =>
      intro _ r this peer next other
      cases this.symm.trans here
      have made := made_of_run reached.run n p here
      have known := (reached.goes works all n p here).coming peer (List.mem_of_mem_head? next)
      rw [← made.name] at other ⊢
      rcases Party.channel_of_made all made known other with ⟨target, _, channel⟩ | severed
      · rw [channel]
        rfl
      · exact absurd severed (channel_ne_severed unsevered _ _)
    | client | serve | lose | take | nextRound => trivial

end Gossip

end Col733.Lab4

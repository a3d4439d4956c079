import Col733.Lab4.Gossip
import Col733.Lab4.AntiEntropy
import Col733.Lab4.Stamping

/-!
# What the servers of a cluster know

The entries travel from server to server through messages of JSON, and are stored by operations
that the reader of the repository writes. As long as these return and keep no other
entries than they have and are given, every entry of every log is a write of some client,
unaltered, and bears the name of the server that has taken it and what its clock read.
-/

namespace Col733.Lab4

/-- The entries of both logs. -/
def Storage.entries (st : Storage) : List AppLogEntry := st.committedLog ++ st.tentativeLog

/-- What the storage operations and the package do: none of them makes up an entry. -/
structure KeepsEntries (env : Env) : Prop where
  apply : ∀ st commits tentatives, ∀ e ∈ (env.apply st commits tentatives).2.entries,
    e ∈ st.entries ∨ e ∈ commits ∨ e ∈ tentatives
  antiEntropy : ∀ st c f, ∀ e ∈ (env.antiEntropy st c f).2.entries, e ∈ st.entries
  told : ∀ st c f committed tentative st',
    env.antiEntropy st c f = (.ok (committed, tentative), st') →
      ∀ e ∈ committed ++ tentative, e ∈ st.entries
  sortedList : ∀ entries sorted, env.sortedList entries = .ok sorted → ∀ e ∈ sorted, e ∈ entries

/-- The entry is later than what the vector knows of its server. -/
def VectorTime.lacks (v : VectorTime) (e : AppLogEntry) : Bool :=
  match e.ltime with
  | ⟨.str name, .int ts⟩ =>
    match v.get? name with
    | some known => decide (known.ts < ts)
    | none => false
  | _ => false

/-- The vector once it knows of the entries. -/
def VectorTime.note (v : VectorTime) (entries : List AppLogEntry) : VectorTime :=
  entries.foldl (fun v e =>
    match e.ltime with
    | ⟨.str name, .int ts⟩ => v.set name { name, ts }
    | _ => v) v

/-- The vector when it arrives in a request: its times are named after their keys. -/
def VectorTime.arrived (v : VectorTime) : VectorTime :=
  VectorTime.ofTimes (v.entries.map fun e => { name := e.1, ts := e.2.ts })

/-- A storage that takes down what its vectors lack, and tells what those of the other lack. -/
def Env.telling : Env where
  isPrintable := Env.accepting.isPrintable
  apply st commits tentatives :=
    let c := st.c.note commits
    (.ok (), { st with
      c
      f := (st.f.note commits).note tentatives
      committedLog := st.committedLog ++ commits.filter st.c.lacks
      tentativeLog := (st.tentativeLog ++ tentatives.filter st.f.lacks).filter c.lacks })
  antiEntropy st c f := (.ok (st.committedLog.filter c.lacks, st.tentativeLog.filter f.lacks), st)
  sortedList entries := .ok (entries.insertionSort fun a b => b.ltime.before a.ltime = false)

theorem keepsEntries_telling : KeepsEntries Env.telling where
  apply st commits tentatives e member := by
    simp only [Env.telling, Storage.entries, List.mem_append, List.mem_filter] at member
    rcases member with (before | ⟨given, _⟩) | ⟨before | ⟨given, _⟩, _⟩
    · exact .inl (List.mem_append_left _ before)
    · exact .inr (.inl given)
    · exact .inl (List.mem_append_right _ before)
    · exact .inr (.inr given)
  antiEntropy _ _ _ _ member := member
  told st c f committed tentative st' answered e member := by
    cases answered
    simp only [List.mem_append, List.mem_filter] at member
    rcases member with ⟨stored, _⟩ | ⟨stored, _⟩
    · exact List.mem_append_left _ stored
    · exact List.mem_append_right _ stored
  sortedList entries sorted sortable e member := by
    cases sortable
    exact (List.mem_insertionSort _).mp member

/-! ## One server -/

namespace BayouAppServer

/-- All entries that the server stores satisfy `W`. -/
def Stores (W : AppLogEntry → Prop) (s : BayouAppServer) : Prop := ∀ e ∈ s.storage.entries, W e

/-- A reply that tells of entries in `W` alone. -/
def Tells (W : AppLogEntry → Prop) (reply : JsonMessage) : Prop :=
  (∃ text, reply = errReply text) ∨
    ∃ committed tentative, reply = entriesReply committed tentative ∧
      ∀ e ∈ committed ++ tentative, W e

variable {env : Env} {W : AppLogEntry → Prop} {s : BayouAppServer} {now : Int}

theorem stores_handOver (keeps : KeepsEntries env) (stores : s.Stores W) {entry : AppLogEntry}
    (own : W entry) : (s.handOver env entry).2.Stores W := by
  have stored : ∀ e ∈ (s.storeOwn env entry).2.entries, W e := by
    intro e member
    unfold storeOwn Storage.commit Storage.tentative at member
    split at member
    · rcases keeps.apply _ _ _ e member with before | given | none
      · exact stores e before
      · exact List.mem_singleton.mp given ▸ own
      · cases none
    · rcases keeps.apply _ _ _ e member with before | none | given
      · exact stores e before
      · cases none
      · exact List.mem_singleton.mp given ▸ own
  unfold handOver
  split
  · rename_i st handed
    rw [handed] at stored
    exact stored
  · rename_i text st handed
    rw [handed] at stored
    exact stored

/-- The entry that a request asks to be stored, if it asks for that. -/
def Asks (s : BayouAppServer) (now : Int) (msg : JsonMessage) (entry : AppLogEntry) : Prop :=
  ∃ body, JsonMessage.pop msg "type" = .ok (.str "APPEND_CHAR", body) ∧
    deserialize s.name now body (.str "APPEND_CHAR") = .ok entry

theorem stores_serveAntiEntropy (keeps : KeepsEntries env) (stores : s.Stores W)
    (msg : JsonMessage) : (s.serveAntiEntropy env msg).2.Stores W := by
  unfold serveAntiEntropy
  split
  · exact stores
  · rename_i req _
    have kept := keeps.antiEntropy s.storage req.c req.f
    split
    · rename_i committed tentative st answered
      rw [answered] at kept
      exact fun e member => stores e (kept e member)
    · rename_i text st answered
      rw [answered] at kept
      exact fun e member => stores e (kept e member)

theorem stores_changeStub (stores : s.Stores W) (change : Except Raised ConnectionStub) :
    (s.changeStub change).2.Stores W := by
  cases change <;> exact stores

theorem deserialize_kind {name : String} {now : Int} {msg : JsonMessage} {reqType : Json}
    {entry : AppLogEntry} (read : deserialize name now msg reqType = .ok entry) :
    reqType = .str "APPEND_CHAR" := by
  unfold deserialize at read
  split at read
  · rename_i named
    exact RequestTypes.ofField_eq_some named
  · cases read

/-- Whatever a message asks for, the server goes on to store entries in `W` alone, if the entry
that the message brings is in `W`. -/
theorem stores_processReq (keeps : KeepsEntries env) (stores : s.Stores W) {msg : JsonMessage}
    (own : ∀ entry, s.Asks now msg entry → W entry) : (s.processReq env now msg).2.Stores W := by
  rcases processReq_server env s now msg with same | ⟨reqType, body, popped, same⟩
  · rw [same]
    exact stores
  · rw [same]
    unfold dispatch
    split
    · exact stores
    · split
      · exact stores_changeStub stores _
      · exact stores_changeStub stores _
      · exact stores_serveAntiEntropy keeps stores body
      · unfold processAppReq
        split
        · exact stores
        · split
          · exact stores
          · rename_i entry read
            apply stores_handOver keeps stores
            obtain rfl := deserialize_kind read
            exact own entry ⟨body, popped, read⟩

/-! ### The request of another server -/

theorem times_toDict_eq (entries : List (String × LogicalTime)) :
    AntiEntropyReq.times (entries.map fun e => (e.1, .int e.2.ts)) =
      .ok (entries.map fun e => { name := e.1, ts := e.2.ts }) := by
  induction entries with
  | nil => rfl
  | cons e entries ih =>
    rw [List.map_cons, AntiEntropyReq.times, ih]
    rfl

/-- The request of another server is understood. -/
theorem fromMsg_of_toMsg (req : AntiEntropyReq) :
    AntiEntropyReq.fromMsg (req.toMsg.erase "type") =
      .ok { c := req.c.arrived, f := req.f.arrived } := by
  have read : AntiEntropyReq.fromMsg (req.toMsg.erase "type") = (do
      let c ← AntiEntropyReq.times req.c.toDict
      let f ← AntiEntropyReq.times req.f.toDict
      return { c := VectorTime.ofTimes c, f := VectorTime.ofTimes f }) := rfl
  rw [read, VectorTime.toDict, VectorTime.toDict, times_toDict_eq, times_toDict_eq]
  rfl

/-- What a server does with the request of another: it looks up what the other lacks. -/
theorem processReq_toMsg (env : Env) (s : BayouAppServer) (now : Int) (req : AntiEntropyReq) :
    s.processReq env now req.toMsg =
      match env.antiEntropy s.storage req.c.arrived req.f.arrived with
      | (.ok (committed, tentative), st) => (.ok (entriesReply committed tentative), s.setStorage st)
      | (.error text, st) => (.ok (errReply text), s.setStorage st) := by
  have popped : JsonMessage.pop req.toMsg "type" =
      .ok (.str "ANTI_ENTROPY", req.toMsg.erase "type") := rfl
  have served : s.dispatch env now (req.toMsg.erase "type") (.str "ANTI_ENTROPY") =
      s.serveAntiEntropy env (req.toMsg.erase "type") := rfl
  simp only [processReq, popped, served, serveAntiEntropy, fromMsg_of_toMsg]
  rcases env.antiEntropy s.storage req.c.arrived req.f.arrived with ⟨outcome, st⟩
  cases outcome <;> rfl

theorem tells_processReq (keeps : KeepsEntries env) (stores : s.Stores W) (now : Int)
    (req : AntiEntropyReq) :
    ∃ reply, (s.processReq env now req.toMsg).1 = .ok reply ∧ Tells W reply := by
  rw [processReq_toMsg]
  rcases answered : env.antiEntropy s.storage req.c.arrived req.f.arrived with ⟨outcome, st⟩
  cases outcome with
  | ok entries =>
    refine ⟨_, rfl, .inr ⟨entries.1, entries.2, rfl, fun e member => stores e ?_⟩⟩
    exact keeps.told _ _ _ _ _ _ answered e member
  | error text => exact ⟨_, rfl, .inl ⟨text, rfl⟩⟩

/-! ### The reply of another server -/

theorem readResponse_entriesReply_eq (env : Env) (s : BayouAppServer) (now : Int)
    (committed tentative : List AppLogEntry) :
    s.readResponse env now (entriesReply committed tentative) =
      (env.sortedList tentative >>= fun sorted =>
        if s.isMaster then .error .typeError else .ok (committed, sorted)) := by
  have read : s.readResponse env now (entriesReply committed tentative) = (do
      let committedLogs ← s.deserializeItems now (committed.map AppLogEntry.toDict)
      let tentativeLogs ←
        env.sortedList (← s.deserializeItems now (tentative.map AppLogEntry.toDict))
      if s.isMaster then .error .typeError else .ok (committedLogs, tentativeLogs)) := rfl
  rw [read, deserializeItems_toDict, deserializeItems_toDict]
  rfl

theorem stores_applyEntries (keeps : KeepsEntries env) (stores : s.Stores W)
    {committed tentative : List AppLogEntry} (given : ∀ e ∈ committed ++ tentative, W e) :
    (s.applyEntries env committed tentative).2.Stores W := by
  have applied : ∀ e ∈ (env.apply s.storage committed tentative).2.entries, W e := by
    intro e member
    rcases keeps.apply _ _ _ e member with before | new | new
    · exact stores e before
    · exact given e (List.mem_append_left _ new)
    · exact given e (List.mem_append_right _ new)
  unfold applyEntries
  split
  · rename_i st result
    rw [result] at applied
    exact applied
  · rename_i text st result
    rw [result] at applied
    exact applied

/-- The entries taken up are those that the reply tells of. -/
theorem stores_takeUp (keeps : KeepsEntries env) (stores : s.Stores W) {reply : Option JsonMessage}
    (tells : ∀ response, reply = some response → Tells W response) :
    (s.takeUp env now reply).2.Stores W := by
  cases reply with
  | none => exact stores
  | some response =>
    rcases tells response rfl with ⟨text, rfl⟩ | ⟨committed, tentative, rfl, told⟩
    · exact stores
    · simp only [takeUp, readResponse_entriesReply_eq]
      cases sortable : env.sortedList tentative with
      | error raised => exact stores
      | ok sorted =>
        cases master : s.isMaster with
        | true => exact stores
        | false =>
          apply stores_applyEntries keeps stores
          intro e given
          rcases List.mem_append.mp given with committed | taken
          · exact told e (List.mem_append_left _ committed)
          · exact told e (List.mem_append_right _ (keeps.sortedList _ _ sortable e taken))

end BayouAppServer

/-! ## The cluster -/

/-- The entries that a server stores, and those that it is being told of, are in `W`. -/
structure Party.Carries (W : AppLogEntry → Prop) (p : Party) : Prop where
  stores : p.server.Stores W
  asks : ∀ peer request, p.turn = .waiting peer request → ∃ req : AntiEntropyReq, request = req.toMsg
  tells : ∀ reply, p.turn = .returned (some reply) → BayouAppServer.Tells W reply

namespace Party

variable {W : AppLogEntry → Prop} {p : Party}

theorem turn_settle (p : Party) (outcome : Except Raised Unit) : (p.settle outcome).turn = .idle := by
  unfold settle
  split <;> rfl

theorem turn_take (env : Env) (p : Party) (now : Int) (reply : Option JsonMessage) :
    (p.take env now reply).turn = .idle := turn_settle _ _

theorem Carries.of_idle (stores : p.server.Stores W) (idle : p.turn = .idle) : p.Carries W where
  stores := stores
  asks _ _ waiting := by
    rw [idle] at waiting
    cases waiting
  tells _ returned := by
    rw [idle] at returned
    cases returned

theorem Carries.setServer (carries : p.Carries W) {s : BayouAppServer} (stores : s.Stores W) :
    (p.setServer s).Carries W :=
  ⟨stores, carries.asks, carries.tells⟩

theorem Carries.setTurn_returned (carries : p.Carries W) {reply : Option JsonMessage}
    (tells : ∀ response, reply = some response → BayouAppServer.Tells W response) :
    (p.setTurn (.returned reply)).Carries W where
  stores := carries.stores
  asks _ _ waiting := by cases waiting
  tells response returned := by
    cases returned
    exact tells response rfl

theorem Carries.askPeer (carries : p.Carries W) (peer : ServerInfo) (rest : List ServerInfo) :
    (p.askPeer peer rest).Carries W := by
  have stores : (p.askPeer peer rest).server.Stores W := by
    unfold BayouAppServer.Stores
    rw [storage_askPeer]
    exact carries.stores
  by_cases self : peer.name = p.server.name
  · unfold Party.askPeer
    rw [if_pos self]
    exact ⟨carries.stores, carries.asks, carries.tells⟩
  · cases channel : p.server.connectionStub.channel p.server.name peer.name with
    | error raised =>
      apply Carries.of_idle stores
      simp only [Party.askPeer, if_neg self, channel, turn_settle]
    | ok target =>
      refine ⟨stores, ?_, ?_⟩
      · intro peer' request waiting
        simp only [Party.askPeer, if_neg self, channel, turn_setTurn] at waiting
        cases waiting
        exact ⟨_, rfl⟩
      · intro reply returned
        simp only [Party.askPeer, if_neg self, channel, turn_setTurn] at returned
        cases returned

theorem Carries.mono {V : AppLogEntry → Prop} (carries : p.Carries V) (weaker : ∀ e, V e → W e) :
    p.Carries W where
  stores e member := weaker e (carries.stores e member)
  asks := carries.asks
  tells reply returned := by
    rcases carries.tells reply returned with failed | ⟨committed, tentative, same, told⟩
    · exact .inl failed
    · exact .inr ⟨committed, tentative, same, fun e member => weaker e (told e member)⟩

end Party

namespace Gossip

variable {env : Env} {topology : Topology} {masterName : String} {g g' : Gossip} {a : Action}
  {W : AppLogEntry → Prop}

/-- Everything that is stored or under way is in `W`. -/
def Carries (W : AppLogEntry → Prop) (g : Gossip) : Prop := ∀ n p, g n = some p → p.Carries W

theorem carries_start : Carries W (start topology masterName) := by
  intro n p here
  obtain ⟨server, found, rfl⟩ := Option.map_eq_some_iff.mp here
  have entry := Dict.mem_of_get? found
  rw [Topology.servers_eq] at entry
  obtain ⟨si, created, same⟩ := List.mem_map.mp (Dict.mem_entries_ofList entry)
  cases same
  exact Party.Carries.of_idle (fun e member => nomatch member) rfl

/-- The entry that the action brings into the cluster. -/
def Brings (g : Gossip) (a : Action) (entry : AppLogEntry) : Prop :=
  ∃ name now msg p, a = .client name now msg ∧ g name = some p ∧ p.server.Asks now msg entry

/-- No action makes up an entry: what is stored or under way was so before, or is brought by a
client. -/
theorem carries_step (keeps : KeepsEntries env) (carries : Carries W g)
    (brought : ∀ entry, g.Brings a entry → W entry) (stepped : step env g a = some g') :
    Carries W g' := by
  cases moves_of_step stepped with
  | client now msg here =>
    refine forall_modify carries fun p here => (carries _ p here).setServer ?_
    apply BayouAppServer.stores_processReq keeps (carries _ p here).stores
    exact fun entry asks => brought entry ⟨_, now, msg, p, rfl, here, asks⟩
  | ask here alive idle coming =>
    exact forall_modify carries fun p here => (carries _ p here).askPeer _ _
  | @serve name by_ p q peer request now here there waiting listens =>
    obtain ⟨req, rfl⟩ := (carries name p here).asks peer request waiting
    have stores := (carries by_ q there).stores
    have served : Carries W (g.modify by_ fun r => r.setServer
        (q.server.processReq env now req.toMsg).2) := by
      refine forall_modify carries fun r this => (carries _ r this).setServer ?_
      apply BayouAppServer.stores_processReq keeps stores
      rintro entry ⟨body, popped, read⟩
      have other : JsonMessage.pop req.toMsg "type" =
        .ok (.str "ANTI_ENTROPY", req.toMsg.erase "type") := rfl
      simp [other] at popped
    refine forall_modify served fun r this => (served _ r this).setTurn_returned ?_
    intro response replied
    obtain ⟨reply, result, tells⟩ := BayouAppServer.tells_processReq keeps stores now req
    rw [result] at replied
    cases replied
    exact tells
  | lose here busy =>
    exact forall_modify carries fun p here =>
      (carries _ p here).setTurn_returned fun response lost => nomatch lost
  | @take name p reply now here returned =>
    refine forall_modify carries fun r this => ?_
    have same : r = p := Option.some.inj (this.symm.trans here)
    subst same
    apply Party.Carries.of_idle
    · rw [Party.server_take]
      apply BayouAppServer.stores_takeUp keeps (carries _ r this).stores
      exact fun response given => (carries _ r this).tells response (given ▸ returned)
    · exact Party.turn_take env r now reply
  | nextRound here alive idle coming =>
    exact forall_modify carries fun p here =>
      ⟨(carries _ p here).stores, (carries _ p here).asks, (carries _ p here).tells⟩

/-! ## The writes of a run -/

/-- The entry is the write of a client: its text is the one of the message, and its time is the
name of the server that got the message and what the clock of this server read. -/
def Written (as : List Action) (entry : AppLogEntry) : Prop :=
  ∃ name now msg char, .client name now msg ∈ as ∧
    msg.get? "type" = some (.str "APPEND_CHAR") ∧ msg.get? "char" = some char ∧
    entry = { char, ltime := { name, ts := now : LogicalTime }.raw }

/-- The clients bring no time of their own. -/
def Unstamped (as : List Action) : Prop :=
  ∀ name now msg, .client name now msg ∈ as → msg.contains "ltime" = false

theorem Unstamped.of_append {as bs : List Action} (unstamped : Unstamped (as ++ bs)) :
    Unstamped as :=
  fun name now msg member => unstamped name now msg (List.mem_append_left _ member)

/-- A server gets no two different messages when its clock reads the same. -/
def ClocksAdvance (as : List Action) : Prop :=
  ∀ name now msg msg', .client name now msg ∈ as → .client name now msg' ∈ as → msg = msg'

theorem Written.mono {as bs : List Action} {entry : AppLogEntry} (written : Written as entry)
    (more : as ⊆ bs) : Written bs entry := by
  obtain ⟨name, now, msg, char, member, rest⟩ := written
  exact ⟨name, now, msg, char, more member, rest⟩

/-- What a message without a time asks to be stored. -/
theorem written_of_asks {name : String} {now : Int} {msg : JsonMessage} {s : BayouAppServer}
    {entry : AppLogEntry} (unstamped : msg.contains "ltime" = false) (named : s.name = name)
    (asks : s.Asks now msg entry) {as : List Action} (member : .client name now msg ∈ as) :
    Written as entry := by
  obtain ⟨body, popped, read⟩ := asks
  obtain ⟨kind, rfl⟩ := JsonMessage.pop_eq_ok popped
  have same : ∀ key, key ≠ "type" → (msg.erase "type").get? key = msg.get? key :=
    fun key other => Dict.get?_erase_of_ne msg other
  have fresh : (msg.erase "type").contains "ltime" = false := by
    rw [Dict.contains, same "ltime" (by simp)]
    exact unstamped
  cases found : (msg.erase "type").get? "char" with
  | none =>
    rw [Writers.deserialize_noChar fresh found] at read
    cases read
  | some char =>
    rw [Writers.deserialize_own fresh found] at read
    cases read
    rw [same "char" (by simp)] at found
    exact ⟨name, now, msg, char, member, kind, found, by rw [Writers.ownEntry, named]⟩

theorem written_of_run (keeps : KeepsEntries env) {as : List Action}
    (run : (system env topology masterName).Run as g) (unstamped : Unstamped as) :
    Carries (Written as) g := by
  refine System.run_induction (P := fun as g => Unstamped as → Carries (Written as) g)
    (fun _ => carries_start) ?_ run unstamped
  intro as g a g' earlier holds stepped unstamped
  have before : Carries (Written as) g := holds unstamped.of_append
  have wider : Carries (Written (as ++ [a])) g := fun n p here =>
    (before n p here).mono fun e written => written.mono (List.subset_append_left as [a])
  refine carries_step keeps wider ?_ stepped
  rintro entry ⟨name, now, msg, p, rfl, here, asks⟩
  have member : Action.client name now msg ∈ as ++ [.client name now msg] := by simp
  exact written_of_asks (unstamped name now msg member) (made_of_run earlier name p here).name asks
    member

/-- A time is the time of one write. -/
theorem eq_of_written {as : List Action} (clocks : ClocksAdvance as) {e e' : AppLogEntry}
    (first : Written as e) (second : Written as e') (same : e.ltime = e'.ltime) : e = e' := by
  obtain ⟨name, now, msg, char, member, _, found, rfl⟩ := first
  obtain ⟨name', now', msg', char', member', _, found', rfl⟩ := second
  cases same
  obtain rfl := clocks name now msg msg' member member'
  rw [found] at found'
  cases found'
  rfl

/-- In every run of the cluster whose clients bring no times, every entry of every log is a
write of a client, as the client wrote it, with the name of the server that the client sent it to
and what the clock of this server read. If no clock reads the same for two messages, then
entries of the same time, on whatever servers and in whatever logs, are the same. -/
theorem entries_are_writes (keeps : KeepsEntries env) {as : List Action}
    (run : (system env topology masterName).Run as g) (unstamped : Unstamped as) :
    (∀ n p, g n = some p → ∀ e ∈ p.server.storage.entries, Written as e) ∧
      (ClocksAdvance as → ∀ n p m q, g n = some p → g m = some q →
        ∀ e ∈ p.server.storage.entries, ∀ e' ∈ q.server.storage.entries,
          e.ltime = e'.ltime → e = e') := by
  have written : Carries (Written as) g := written_of_run keeps run unstamped
  refine ⟨fun n p here => (written n p here).stores, ?_⟩
  intro clocks n p m q here there e member e' member' same
  exact eq_of_written clocks ((written n p here).stores e member)
    ((written m q there).stores e' member') same

/-- A write that the master commits, and an exchange that brings it to the other server. -/
def toldOnce : List Action :=
  [.client "s1" 1 (Dict.ofList [("type", .str "APPEND_CHAR"), ("char", .str "a")]), .ask "s2",
    .serve "s2" "s1" 2, .take "s2" 3]

theorem client_of_toldOnce {name : String} {now : Int} {msg : JsonMessage}
    (member : .client name now msg ∈ toldOnce) :
    name = "s1" ∧ now = 1 ∧
      msg = Dict.ofList [("type", .str "APPEND_CHAR"), ("char", .str "a")] := by
  simpa only [toldOnce, List.mem_cons, List.not_mem_nil, or_false, Action.client.injEq,
    reduceCtorEq] using member

theorem entries_are_writes_toldOnce :
    ∃ g p q e, (system Env.telling twoServers "s1").Run toldOnce g ∧ g "s1" = some p ∧
      g "s2" = some q ∧ p.server.storage.committedLog = [e] ∧
      q.server.storage.committedLog = [e] ∧ Written toldOnce e := by
  have reached : ((system Env.telling twoServers "s1").runFrom (start twoServers "s1")
      toldOnce).any (fun g => (g "s1").any fun p => (g "s2").any fun q =>
        p.server.storage.committedLog.length == 1 &&
          q.server.storage.committedLog.length == 1) = true := by decide +kernel
  simp only [Option.any_eq_true, Bool.and_eq_true, beq_iff_eq, List.length_eq_one_iff] at reached
  obtain ⟨g, run, p, here, q, there, ⟨e, one⟩, ⟨e', one'⟩⟩ := reached
  have unstamped : Unstamped toldOnce := by
    intro name now msg member
    obtain ⟨_, _, rfl⟩ := client_of_toldOnce member
    decide
  have clocks : ClocksAdvance toldOnce := by
    intro name now msg msg' member member'
    rw [(client_of_toldOnce member).2.2, (client_of_toldOnce member').2.2]
  have time : ∀ e, Written toldOnce e → e.ltime = { name := "s1", ts := 1 : LogicalTime }.raw := by
    rintro e ⟨name, now, msg, char, member, _, _, rfl⟩
    obtain ⟨rfl, rfl, _⟩ := client_of_toldOnce member
    rfl
  have stored : e ∈ p.server.storage.entries := by simp [Storage.entries, one]
  have stored' : e' ∈ q.server.storage.entries := by simp [Storage.entries, one']
  obtain ⟨written, unique⟩ := entries_are_writes keepsEntries_telling run unstamped
  have same : e = e' := by
    apply unique clocks "s1" p "s2" q here there e stored e' stored'
    rw [time e (written "s1" p here e stored), time e' (written "s2" q there e' stored')]
  subst same
  exact ⟨g, p, q, e, run, here, there, one, one', written "s1" p here e stored⟩

end Gossip

end Col733.Lab4

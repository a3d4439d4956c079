import Col733.Lab4.AntiEntropy
import Col733.Lab4.VectorTime
import Col733.Misc.JsonModule

/-!
# An exchange of anti-entropy on the wire

The request with the vectors of the requester, and the reply with the entries of its peer, each
written by `json.dumps` on one side and read by `json.loads` on the other. A vector loses the
names in its times and gets them back from its keys; a time is a list of the name and the
timestamp on the wire.
-/

namespace Col733.Lab4

/-! ## The request -/

/-- The vector times that the constructor, `new` and accepted calls of `advance` make. -/
inductive Built : VectorTime → Prop
  | new (servers : List String) : Built (VectorTime.new servers)
  | ofTimes (times : List LogicalTime) : Built (VectorTime.ofTimes times)
  | advance {v v' : VectorTime} {l : LogicalTime} (built : Built v)
      (accepted : VectorTime.advance v l = (.ok (), v')) : Built v'

/-- What a vector time is built of has the name of its key. -/
theorem Built.named {v : VectorTime} (built : Built v) : VectorTime.Named v := by
  induction built with
  | new servers => exact VectorTime.named_ofTimes _
  | ofTimes times => exact VectorTime.named_ofTimes times
  | advance _ accepted named =>
    obtain ⟨_, _, _, rfl⟩ := VectorTime.advance_eq_ok accepted
    exact VectorTime.named_set named _

namespace AntiEntropyReq

/-- The loop of `from_msg` over the items of `to_dict`. -/
theorem times_toDict {entries : List (String × LogicalTime)}
    (named : ∀ e ∈ entries, e.2.name = e.1) :
    times (entries.map fun e => (e.1, .int e.2.ts)) = .ok (entries.map Prod.snd) := by
  induction entries with
  | nil => rfl
  | cons e entries ih =>
    have rest := ih fun e member => named e (List.mem_cons_of_mem _ member)
    have name := named e List.mem_cons_self
    rw [List.map_cons, times, rest, ← name]
    rfl

/-- `VectorTime` of the times of a vector is the vector. -/
theorem ofTimes_snd {v : VectorTime} (named : VectorTime.Named v) :
    VectorTime.ofTimes (v.entries.map Prod.snd) = v := by
  have keyed : (v.entries.map Prod.snd).map (fun t => (t.name, t)) = v.entries := by
    have same : ∀ e ∈ v.entries,
        ((fun t : LogicalTime => (t.name, t)) ∘ Prod.snd) e = id e :=
      fun e member => Prod.ext (named e member) rfl
    rw [List.map_map, List.map_congr_left same, List.map_id]
  rw [VectorTime.ofTimes, keyed, Dict.ofList_entries]

/-- `from_msg` undoes `to_msg`, without the type that the receiver has popped. -/
theorem fromMsg_toMsg (req : AntiEntropyReq) (c : VectorTime.Named req.c)
    (f : VectorTime.Named req.f) :
    ∃ body, JsonMessage.pop req.toMsg "type" = .ok (.str "ANTI_ENTROPY", body) ∧
      fromMsg body = .ok req := by
  refine ⟨req.toMsg.erase "type", rfl, ?_⟩
  have read : fromMsg (req.toMsg.erase "type") = (do
      let c ← times req.c.toDict
      let f ← times req.f.toDict
      return { c := VectorTime.ofTimes c, f := VectorTime.ofTimes f }) := rfl
  rw [read, VectorTime.toDict, VectorTime.toDict, times_toDict c, times_toDict f]
  show Except.ok _ = _
  rw [ofTimes_snd c, ofTimes_snd f]

end AntiEntropyReq

/-! ## The reply -/

/-- `deserialize` makes its entry by `AppLogEntry.__init__`. -/
theorem deserialize_eq_init (name : String) (now : Int) (msg : JsonMessage) :
    BayouAppServer.deserialize name now msg (.str "APPEND_CHAR") = (do
      let ltime ← BayouAppServer.ltimeOf name now msg
      let char ← JsonMessage.getItem msg "char"
      AppLogEntry.init char ltime) := rfl

/-- What the package does: a list of entries whose times have the annotated types is sorted by
them, and entries of equal times stay in their order. -/
def SortsByLtime (env : Env) : Prop :=
  ∀ entries : List AppLogEntry, (∀ e ∈ entries, ∃ l : LogicalTime, e.ltime = l.raw) →
    env.sortedList entries = .ok (entries.mergeSort fun a b => !b.ltime.before a.ltime)

/-- The entries are in the order of their times. -/
def LtimeSorted (entries : List AppLogEntry) : Prop :=
  entries.Pairwise fun a b => ¬ b.ltime.lt a.ltime

theorem sortedList_of_sorted {env : Env} (sorts : SortsByLtime env) {entries : List AppLogEntry}
    (typed : ∀ e ∈ entries, ∃ l : LogicalTime, e.ltime = l.raw) (sorted : LtimeSorted entries) :
    env.sortedList entries = .ok entries := by
  rw [sorts entries typed, List.mergeSort_of_pairwise]
  refine sorted.imp fun inOrder => ?_
  rw [Bool.not_eq_true', Bool.eq_false_iff]
  exact mt RawTime.before_iff_lt.mp inOrder

/-- What is dumped is loaded as the same message. -/
theorem loads_message (json : JsonModule) (msg : JsonMessage) :
    ∃ items, json.loads (json.dumps msg.entries) = some (.obj items) ∧
      Dict.ofList items = msg :=
  ⟨msg.entries, json.loads_dumps _ msg.nodup, Dict.ofList_entries msg⟩

/-- The vectors of a request and the entries of a reply arrive unchanged: what `from_msg` makes
of the message that is received are the vectors that were sent, and the lists that the requester
rebuilds have the entries that were sent, in their order. -/
theorem exchange_carries_unchanged (env : Env) (sorts : SortsByLtime env) (json : JsonModule)
    (s : BayouAppServer) (now : Int) :
    (∀ c f, Built c → Built f →
      ∃ items reqType body, json.loads (json.dumps (AntiEntropyReq.toMsg { c, f }).entries) =
          some (.obj items) ∧
        JsonMessage.pop (Dict.ofList items) "type" = .ok (reqType, body) ∧
        AntiEntropyReq.fromMsg body = .ok { c, f }) ∧
    (∀ committed tentative : List AppLogEntry,
      (∀ e ∈ tentative, ∃ l : LogicalTime, e.ltime = l.raw) → LtimeSorted tentative →
      ∃ items cs ts, json.loads (json.dumps (entriesReply committed tentative).entries) =
          some (.obj items) ∧
        JsonMessage.getItem (Dict.ofList items) "committed" = .ok (.arr cs) ∧
        JsonMessage.getItem (Dict.ofList items) "tentative" = .ok (.arr ts) ∧
        s.deserializeItems now cs = .ok committed ∧
        (s.deserializeItems now ts >>= env.sortedList) = .ok tentative ∧
        (s.isMaster = false →
          s.readResponse env now (Dict.ofList items) = .ok (committed, tentative))) := by
  constructor
  · intro c f builtC builtF
    obtain ⟨items, read, same⟩ := loads_message json (AntiEntropyReq.toMsg { c, f })
    obtain ⟨body, popped, accepted⟩ :=
      AntiEntropyReq.fromMsg_toMsg { c, f } builtC.named builtF.named
    exact ⟨items, _, body, read, same ▸ popped, accepted⟩
  · intro committed tentative typed sorted
    obtain ⟨items, read, same⟩ := loads_message json (entriesReply committed tentative)
    have rebuilt := sortedList_of_sorted sorts typed sorted
    refine ⟨items, committed.map AppLogEntry.toDict, tentative.map AppLogEntry.toDict, read,
      same ▸ rfl, same ▸ rfl, deserializeItems_toDict committed, ?_, ?_⟩
    · rw [deserializeItems_toDict]
      exact rebuilt
    · intro replica
      rw [same]
      exact readResponse_entriesReply replica rebuilt

/-- The environment of the small cluster, with the sorting of the package. -/
def Env.sorting : Env :=
  { Env.accepting with
    sortedList := fun entries => .ok (entries.mergeSort fun a b => !b.ltime.before a.ltime) }

/-- Two tentative entries of different servers, with one timestamp, are rebuilt in order. -/
theorem exchange_carries_unchanged_two :
    ∃ tentative : List AppLogEntry, tentative.length = 2 ∧ LtimeSorted tentative ∧
      ∃ items, Json.objectModule.loads (Json.objectModule.dumps
          (entriesReply [] tentative).entries) = some (.obj items) ∧
        (BayouAppServer.new { name := "s2", port := 10006 } (ConnectionStub.new []) false
          []).readResponse Env.sorting 0 (Dict.ofList items) = .ok ([], tentative) := by
  have sorts : SortsByLtime Env.sorting := fun _ _ => rfl
  let tentative : List AppLogEntry :=
    [{ char := .str "a", ltime := LogicalTime.raw { name := "s1", ts := 7 } },
      { char := .str "b", ltime := LogicalTime.raw { name := "s2", ts := 7 } }]
  have typed : ∀ e ∈ tentative, ∃ l : LogicalTime, e.ltime = l.raw := by
    intro e member
    rcases List.mem_pair.mp member with same | same
    · exact ⟨_, congrArg AppLogEntry.ltime same⟩
    · exact ⟨_, congrArg AppLogEntry.ltime same⟩
  have sorted : LtimeSorted tentative := by
    refine List.pairwise_pair.mpr ?_
    rw [← RawTime.before_iff_lt]
    decide
  obtain ⟨items, _, _, read, _, _, _, _, rebuilt⟩ :=
    (exchange_carries_unchanged Env.sorting sorts Json.objectModule
      (BayouAppServer.new { name := "s2", port := 10006 } (ConnectionStub.new []) false []) 0).2
      [] tentative typed sorted
  exact ⟨tentative, rfl, sorted, items, read, rebuilt rfl⟩

end Col733.Lab4

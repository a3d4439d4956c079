import Col733.Lab2.Phases

/-!
# The end of the job, in every run of the coordinator

Only a DONE of a mapper brings a new phase, and only the last one. So the phase is the last one
exactly when every mapper has said that it is done, and `SendThread`, whatever the turns of the
threads are, sends each worker its one EXIT.
-/

namespace Col733.Lab2.Coordinator

/-! ## What a datagram does -/

namespace Phases

section Received

variable {int : Json → Option Int} {json : JsonModule} {mappers reducers : Nat}
  {workers told : Dict String Worker} {source : Json} {f : Worker → Worker} {message : Message}
  {now : Int} {newPhase : Option Phase}

theorem mapperName_injective {i j : Nat} (same : mapperName i = mapperName j) : i = j :=
  (id_inj same).2

theorem change_eq_some (changed : change workers source f = some told) :
    ∃ id ws, source = .str id ∧ workers.get? id = some ws ∧ told = workers.set id (f ws) := by
  unfold change at changed
  split at changed
  · rename_i id
    obtain ⟨ws, found, rfl⟩ := Option.map_eq_some_iff.mp changed
    exact ⟨id, ws, rfl, found, rfl⟩
  · cases changed

/-- A worker is found under its id only. -/
theorem exists_worker_iff (enters : Enters mappers reducers workers) :
    (∃ ws, worker workers source = some ws) ↔
      ∃ ws ∈ freshWorkers mappers reducers, source = .str ws.id := by
  constructor
  · rintro ⟨ws, found⟩
    unfold worker at found
    split at found
    · obtain ⟨own, made, inside, role⟩ := enters.of_get? found
      have same : made.id = ws.id := congrArg Prod.fst role
      exact ⟨made, inside, by rw [same, own]⟩
    · cases found
  · rintro ⟨made, inside, rfl⟩
    obtain ⟨ws, found, _⟩ := enters.get?_of_mem inside
    exact ⟨ws, found⟩

/-- What the coordinator knows after a DONE of the mapper `i`. -/
structure Told (mappers reducers : Nat) (workers told : Dict String Worker) (i : Nat) : Prop where
  enters : Enters mappers reducers told
  done : ∀ j < mappers, Done told j ↔ Done workers j ∨ j = i

theorem told_of_set (enters : Enters mappers reducers workers) {i : Nat} {ws : Worker}
    (found : workers.get? (mapperName i) = some ws) :
    Told mappers reducers workers (workers.set (mapperName i) { ws with isDone := true }) i where
  enters := enters.set found rfl
  done j below := by
    unfold Done
    rw [Dict.get?_set]
    by_cases here : mapperName j = mapperName i
    · rw [if_pos here]
      exact iff_of_true ⟨_, rfl, rfl⟩ (.inr (mapperName_injective here))
    · rw [if_neg here]
      exact (or_iff_left fun same => here (congrArg mapperName same)).symm

/-- A heartbeat says nothing about who is done. -/
theorem done_of_set_heartbeat {id : String} {ws : Worker} (found : workers.get? id = some ws)
    (i : Nat) : Done (workers.set id { ws with lastHbRecvd := now }) i ↔ Done workers i := by
  unfold Done
  rw [Dict.get?_set]
  by_cases here : mapperName i = id
  · rw [if_pos here, here, found]
    simp
  · rw [if_neg here]

/-- What `update` does for a DONE. -/
theorem update_done (enters : Enters mappers reducers workers)
    (updated : RcvMsg.done.update workers source now = some (told, newPhase)) :
    ∃ i < mappers, source = .str (mapperName i) ∧ Told mappers reducers workers told i ∧
      (newPhase = none ∨ newPhase = some .exiting) ∧
        (newPhase = some .exiting ↔ ∀ j < mappers, Done told j) := by
  obtain ⟨ws, found, checked⟩ := Option.bind_eq_some_iff.mp updated
  split at checked
  · rename_i isMapper
    obtain ⟨changed, set, same⟩ := Option.bind_eq_some_iff.mp checked
    obtain ⟨id, held, rfl, found', rfl⟩ := change_eq_some set
    cases Option.some.inj (found.symm.trans found')
    obtain ⟨i, below, rfl⟩ := mem_freshWorkers_of_mapper enters found isMapper
    have spec := told_of_set enters found
    cases same
    refine ⟨i, below, rfl, spec, ?_, ?_⟩
    · split
      · exact .inr rfl
      · exact .inl rfl
    · rw [← all_done_iff spec.enters]
      split
      · rename_i all
        exact iff_of_true rfl all
      · rename_i notAll
        exact iff_of_false (by rintro ⟨⟩) notAll
  · cases checked

/-- What a message that is handled has done. -/
structure Handled (int : Json → Option Int) (mappers reducers : Nat)
    (workers told : Dict String Worker) (message : Message) (newPhase : Option Phase) : Prop where
  understood : Understood int mappers reducers message
  enters : Enters mappers reducers told
  done : ∀ j < mappers, Done told j ↔ Done workers j ∨ SaysDone j message
  phase : newPhase = none ∨ newPhase = some .exiting
  exiting : newPhase = some .exiting ↔
    (∃ i < mappers, SaysDone i message) ∧ ∀ j < mappers, Done told j

/-- Nothing changes that the phases depend on. -/
theorem handled_of_same (understood : Understood int mappers reducers message)
    (enters : Enters mappers reducers told) (done : ∀ j, Done told j ↔ Done workers j)
    (other : message.msgType ≠ .done) :
    Handled int mappers reducers workers told message none where
  understood := understood
  enters := enters
  done j _ := by
    rw [done j]
    exact (or_iff_left fun saying => other saying.1).symm
  phase := .inl rfl
  exiting := by
    refine iff_of_false (by rintro ⟨⟩) ?_
    rintro ⟨⟨i, _, saying⟩, _⟩
    exact other saying.1

theorem handled_of_update (enters : Enters mappers reducers workers) {msg : RcvMsg}
    (made : msgFactory int message = some msg)
    (updated : msg.update workers message.source now = some (told, newPhase)) :
    Handled int mappers reducers workers told message newPhase := by
  unfold msgFactory at made
  split at made
  · rename_i type
    cases made
    obtain ⟨heard, set, same⟩ := Option.bind_eq_some_iff.mp updated
    obtain ⟨id, ws, source, found, rfl⟩ := change_eq_some set
    cases same
    refine handled_of_same ?_ (enters.set found rfl) (done_of_set_heartbeat found) (by simp [type])
    unfold Understood
    rw [type]
    refine (exists_worker_iff enters).mp ⟨ws, ?_⟩
    rw [source]
    exact found
  · rename_i type
    obtain ⟨v, has, whole⟩ := Option.bind_eq_some_iff.mp made
    obtain ⟨n, isInt, same⟩ := Option.bind_eq_some_iff.mp whole
    cases same
    cases updated
    refine handled_of_same ?_ enters (fun _ => Iff.rfl) (by simp [type])
    unfold Understood
    rw [type]
    exact ⟨v, n, has, isInt⟩
  · rename_i type
    cases made
    obtain ⟨i, below, source, told, phase, exiting⟩ := update_done enters updated
    have sender (j : Nat) : SaysDone j message ↔ j = i := by
      unfold SaysDone
      rw [source]
      constructor
      · rintro ⟨_, same⟩
        exact mapperName_injective (Json.str.inj same).symm
      · rintro rfl
        exact ⟨type, rfl⟩
    refine ⟨?_, told.enters, fun j inside => ?_, phase, ?_⟩
    · unfold Understood
      rw [type]
      exact ⟨i, below, source⟩
    · rw [sender j]
      exact told.done j inside
    · rw [exiting]
      exact (and_iff_right ⟨i, below, (sender i).mpr rfl⟩).symm
  · rename_i type
    obtain ⟨v, has, whole⟩ := Option.bind_eq_some_iff.mp made
    obtain ⟨n, isInt, checked⟩ := Option.bind_eq_some_iff.mp whole
    split at checked
    · rename_i zero
      cases checked
      cases updated
      refine handled_of_same ?_ enters (fun _ => Iff.rfl) (by simp [type])
      unfold Understood
      rw [type]
      exact ⟨v, has, zero ▸ isInt⟩
    · cases checked
  · rename_i type
    obtain ⟨v, has, same⟩ := Option.bind_eq_some_iff.mp made
    cases same
    cases updated
    refine handled_of_same ?_ enters (fun _ => Iff.rfl) (by simp [type])
    unfold Understood
    rw [type]
    exact ⟨v, has⟩
  · cases made

/-- A message that is understood is handled. -/
theorem exists_update (enters : Enters mappers reducers workers)
    (understood : Understood int mappers reducers message) :
    ∃ msg, msgFactory int message = some msg ∧
      (msg.update workers message.source now).isSome = true := by
  unfold Understood at understood
  unfold msgFactory
  cases type : message.msgType <;> rw [type] at understood
  case heartbeat =>
    obtain ⟨ws, inside, source⟩ := understood
    obtain ⟨held, found, _⟩ := enters.get?_of_mem inside
    refine ⟨.heartbeat, rfl, ?_⟩
    simp only [RcvMsg.update, change, source, found]
    rfl
  case done =>
    obtain ⟨i, below, source⟩ := understood
    obtain ⟨held, found, isMapper⟩ := exists_mapper enters below
    refine ⟨.done, rfl, ?_⟩
    simp only [RcvMsg.update, worker, change, source, found, Option.bind_eq_bind, Option.bind_some,
      isMapper, if_true]
    rfl
  case checkpointAck =>
    obtain ⟨v, n, has, isInt⟩ := understood
    exact ⟨.ckptAck n, by simp [has, isInt], rfl⟩
  case lastCheckpointAck =>
    obtain ⟨v, has, isInt⟩ := understood
    exact ⟨.lastCkptAck, by simp [has, isInt], rfl⟩
  case recoveryAck =>
    obtain ⟨v, has⟩ := understood
    exact ⟨.recoveryAck v, by simp [has], rfl⟩
  all_goals exact understood.elim

/-- `RecvThread` is ended by a datagram that is no message it understands. -/
theorem received_eq_none_iff (enters : Enters mappers reducers workers)
    {datagram : List UInt8} :
    received int json workers datagram now = none ↔
      ¬ ∃ message, read json datagram = some message ∧
        Understood int mappers reducers message := by
  constructor
  · rintro raised ⟨message, isRead, understood⟩
    obtain ⟨msg, made, updated⟩ := exists_update enters understood
    simp only [received, isRead, made, Option.bind_eq_bind, Option.bind_some] at raised
    rw [raised] at updated
    cases updated
  · intro none
    by_contra handled
    obtain ⟨⟨told, newPhase⟩, some_⟩ := Option.ne_none_iff_exists'.mp handled
    obtain ⟨message, isRead, rest⟩ := Option.bind_eq_some_iff.mp some_
    obtain ⟨msg, made, updated⟩ := Option.bind_eq_some_iff.mp rest
    exact none ⟨message, isRead, (handled_of_update enters made updated).understood⟩

theorem received_eq_some (enters : Enters mappers reducers workers) {datagram : List UInt8}
    (handled : received int json workers datagram now = some (told, newPhase)) :
    ∃ message, read json datagram = some message ∧
      Handled int mappers reducers workers told message newPhase := by
  obtain ⟨message, isRead, rest⟩ := Option.bind_eq_some_iff.mp handled
  obtain ⟨msg, made, updated⟩ := Option.bind_eq_some_iff.mp rest
  exact ⟨message, isRead, handled_of_update enters made updated⟩

end Received

/-! ## Every run -/

/-- The run has received a message of which `P` holds. -/
def Heard (json : JsonModule) (as : List Action) (P : Message → Prop) : Prop :=
  ∃ datagram now message, Action.receive datagram now ∈ as ∧ read json datagram = some message ∧
    P message

/-- The run has received a datagram that is not understood. -/
def Puzzled (int : Json → Option Int) (json : JsonModule) (mappers reducers : Nat)
    (as : List Action) : Prop :=
  ∃ datagram now, Action.receive datagram now ∈ as ∧ ¬ ∃ message, read json datagram = some message ∧
    Understood int mappers reducers message

/-- Where `SendThread` stands: before the exit nothing has been sent; then the workers of which
none is left have been told, unless it was not possible. -/
def Sending (json : JsonModule) (mappers reducers : Nat) (as : List Action)
    (s : CoordinatorState) : Prop :=
  match s.send with
  | .polling => s.sent = [] ∧ s.killed = false
  | .exitPhase left => s.phase = .exiting ∧ ∃ past,
      (freshWorkers mappers reducers).map Worker.port = past ++ left.map Worker.port ∧
      s.sent.Sublist (exitDatagrams json past) ∧
      (Action.exit true ∉ as → s.sent = exitDatagrams json past) ∧ (s.killed = true → left = [])
  | .died => False

/-- The invariant of the runs. -/
structure Inv (int : Json → Option Int) (json : JsonModule) (mappers reducers : Nat)
    (as : List Action) (s : CoordinatorState) : Prop where
  enters : Enters mappers reducers s.workers
  done : ∀ i < mappers, Done s.workers i ↔ Heard json as (SaysDone i)
  exiting : s.phase = .exiting ↔ ∀ i < mappers, Done s.workers i
  phase : s.phase = .cp ∨ s.phase = .exiting
  queue : ∀ p ∈ s.phaseQueue, p = .cp ∨ p = .exiting ∧ s.phase = .exiting
  putting : ∀ p, s.recv = .putting p → p = .exiting ∧ s.phase = .exiting
  died : s.recv = .died ↔ Puzzled int json mappers reducers as
  sending : Sending json mappers reducers as s

section Runs

variable {int : Json → Option Int} {json : JsonModule} {mappers reducers : Nat}
  {as : List Action} {s s' : CoordinatorState} {a : Action}

theorem heard_snoc {P : Message → Prop} :
    Heard json (as ++ [a]) P ↔ Heard json as P ∨ Heard json [a] P := by
  unfold Heard
  simp only [List.mem_append, or_and_right, exists_or]

theorem puzzled_snoc : Puzzled int json mappers reducers (as ++ [a]) ↔
    Puzzled int json mappers reducers as ∨ Puzzled int json mappers reducers [a] := by
  unfold Puzzled
  simp only [List.mem_append, or_and_right, exists_or]

theorem not_heard {P : Message → Prop} (other : ∀ datagram now, a ≠ .receive datagram now) :
    ¬ Heard json [a] P := by
  rintro ⟨datagram, now, message, member, _⟩
  exact other datagram now (List.mem_singleton.mp member).symm

theorem not_puzzled (other : ∀ datagram now, a ≠ .receive datagram now) :
    ¬ Puzzled int json mappers reducers [a] := by
  rintro ⟨datagram, now, member, _⟩
  exact other datagram now (List.mem_singleton.mp member).symm

theorem heard_receive {P : Message → Prop} {datagram : List UInt8} {now : Int} {message : Message}
    (isRead : read json datagram = some message) :
    Heard json [.receive datagram now] P ↔ P message := by
  constructor
  · rintro ⟨other, later, heard, member, isRead', holds⟩
    cases List.mem_singleton.mp member
    cases isRead.symm.trans isRead'
    exact holds
  · intro holds
    exact ⟨datagram, now, message, List.mem_singleton_self _, isRead, holds⟩

theorem puzzled_receive {datagram : List UInt8} {now : Int} :
    Puzzled int json mappers reducers [.receive datagram now] ↔
      ¬ ∃ message, read json datagram = some message ∧
        Understood int mappers reducers message := by
  constructor
  · rintro ⟨other, later, member, strange⟩
    cases List.mem_singleton.mp member
    exact strange
  · intro strange
    exact ⟨datagram, now, List.mem_singleton_self _, strange⟩

/-- At first nobody is done. -/
theorem not_done_init (i : Nat) : ¬ Done (system int json mappers reducers).init.workers i := by
  rintro ⟨ws, found, told⟩
  obtain ⟨made, inside, same⟩ :=
    List.mem_map.mp (Dict.mem_entries_ofList (Dict.mem_of_get? found))
  obtain ⟨-, rfl⟩ := Prod.mk.inj same
  rcases List.mem_append.mp inside with isMapper | isReducer
  · obtain ⟨e, _, rfl⟩ := List.mem_map.mp isMapper
    cases told
  · obtain ⟨e, _, rfl⟩ := List.mem_map.mp isReducer
    cases told

theorem inv_init (some_ : 0 < mappers) :
    Inv int json mappers reducers [] (system int json mappers reducers).init where
  enters := enters_init mappers reducers
  done i below := by
    refine iff_of_false ?_ ?_
    · exact not_done_init i
    · rintro ⟨_, _, _, member, _⟩
      cases member
  exiting := by
    refine iff_of_false (by rintro ⟨⟩) fun all => ?_
    exact not_done_init 0 (all 0 some_)
  phase := .inl rfl
  queue p member := .inl (List.mem_singleton.mp member)
  putting := by rintro p ⟨⟩
  died := by
    refine iff_of_false (by rintro ⟨⟩) ?_
    rintro ⟨_, _, member, _⟩
    cases member
  sending := ⟨rfl, rfl⟩

/-- As long as `SendThread` stands still, and no exit is taken back. -/
theorem sending_mono (sending : Sending json mappers reducers as s) (send : s'.send = s.send)
    (sent : s'.sent = s.sent) (killed : s'.killed = s.killed)
    (phase : s.phase = .exiting → s'.phase = .exiting) :
    Sending json mappers reducers (as ++ [a]) s' := by
  unfold Sending at sending ⊢
  rw [send, sent, killed]
  split at sending
  · exact sending
  · obtain ⟨exiting, past, ports, some_, all, none⟩ := sending
    refine ⟨phase exiting, past, ports, some_, fun raised => all fun earlier => ?_, none⟩
    exact raised (List.mem_append_left _ earlier)
  · exact sending

/-- A step that receives nothing, and leaves the workers and the phase. -/
theorem inv_of_same (inv : Inv int json mappers reducers as s)
    (other : ∀ datagram now, a ≠ .receive datagram now) (workers : s'.workers = s.workers)
    (phase : s'.phase = s.phase)
    (queue : ∀ p ∈ s'.phaseQueue, p ∈ s.phaseQueue ∨ p = .exiting ∧ s.phase = .exiting)
    (putting : ∀ p, s'.recv = .putting p → s.recv = .putting p)
    (died : s'.recv = .died ↔ s.recv = .died)
    (sending : Sending json mappers reducers (as ++ [a]) s') :
    Inv int json mappers reducers (as ++ [a]) s' where
  enters := workers ▸ inv.enters
  done i below := by
    rw [workers, heard_snoc, inv.done i below]
    exact (or_iff_left (not_heard other)).symm
  exiting := by
    rw [workers, phase]
    exact inv.exiting
  phase := phase ▸ inv.phase
  queue p member := by
    rw [phase]
    rcases queue p member with before | new
    · exact inv.queue p before
    · exact .inr new
  putting p here := by
    rw [phase]
    exact inv.putting p (putting p here)
  died := by
    rw [died, puzzled_snoc, inv.died]
    exact (or_iff_left (not_puzzled other)).symm
  sending := sending

theorem inv_receive {datagram : List UInt8} {now : Int}
    (inv : Inv int json mappers reducers as s) (alive : s.killed = false)
    (stepped : step int json s (.receive datagram now) = some s') :
    Inv int json mappers reducers (as ++ [.receive datagram now]) s' := by
  simp only [step, alive, Bool.false_eq_true, if_false] at stepped
  split at stepped
  · rename_i receiving
    have calm : ¬ Puzzled int json mappers reducers as := by
      rw [← inv.died, receiving]
      rintro ⟨⟩
    cases result : received int json s.workers datagram now with
    | none =>
      -- the thread has raised, so that the datagram said nothing that counts
      have strange := (received_eq_none_iff inv.enters).mp result
      rw [result] at stepped
      cases stepped
      refine ⟨inv.enters, fun i below => ?_, inv.exiting, inv.phase, inv.queue, by rintro p ⟨⟩, ?_,
        sending_mono inv.sending rfl rfl alive.symm id⟩
      · rw [heard_snoc, inv.done i below]
        refine (or_iff_left ?_).symm
        rintro ⟨other, later, message, member, isRead, type, source⟩
        cases List.mem_singleton.mp member
        refine strange ⟨message, isRead, ?_⟩
        unfold Understood
        rw [type]
        exact ⟨i, below, source⟩
      · rw [puzzled_snoc, puzzled_receive]
        exact iff_of_true rfl (.inr strange)
    | some outcome =>
      obtain ⟨told, newPhase⟩ := outcome
      obtain ⟨message, isRead, spec⟩ := received_eq_some inv.enters result
      have clear : ¬ Puzzled int json mappers reducers (as ++ [.receive datagram now]) := by
        rw [puzzled_snoc, puzzled_receive]
        exact not_or.mpr ⟨calm, not_not.mpr ⟨message, isRead, spec.understood⟩⟩
      have done : ∀ i < mappers, Done told i ↔
          Heard json (as ++ [.receive datagram now]) (SaysDone i) := by
        intro i below
        rw [heard_snoc, heard_receive isRead, spec.done i below, inv.done i below]
      rw [result] at stepped
      rcases spec.phase with rfl | rfl
      · cases stepped
        refine ⟨spec.enters, done, ?_, inv.phase, inv.queue, inv.putting, ?_,
          sending_mono inv.sending rfl rfl alive.symm id⟩
        · rw [inv.exiting]
          constructor
          · intro all i below
            exact (spec.done i below).mpr (.inl (all i below))
          · intro all i below
            refine ((spec.done i below).mp (all i below)).resolve_right fun saying => ?_
            cases spec.exiting.mpr ⟨⟨i, below, saying⟩, all⟩
        · exact iff_of_false (fun died => calm (inv.died.mp died)) clear
      · cases stepped
        refine ⟨spec.enters, done, ?_, .inr rfl, fun p member => ?_, ?_, ?_,
          sending_mono inv.sending rfl rfl alive.symm fun _ => rfl⟩
        · exact iff_of_true rfl (spec.exiting.mp rfl).2
        · exact (inv.queue p member).imp_right fun last => ⟨last.1, rfl⟩
        · rintro p ⟨⟩
          exact ⟨rfl, rfl⟩
        · exact iff_of_false (by rintro ⟨⟩) clear
  · cases stepped

theorem inv_put (inv : Inv int json mappers reducers as s) (alive : s.killed = false)
    (stepped : step int json s .put = some s') : Inv int json mappers reducers (as ++ [.put]) s' := by
  simp only [step, alive, Bool.false_eq_true, if_false] at stepped
  split at stepped
  · rename_i newPhase here
    cases stepped
    refine inv_of_same inv (by rintro datagram now ⟨⟩) rfl rfl (fun p member => ?_)
      (by rintro p ⟨⟩) (iff_of_false (by rintro ⟨⟩) (by rw [here]; rintro ⟨⟩))
      (sending_mono inv.sending rfl rfl alive.symm id)
    rcases List.mem_append.mp member with before | last
    · exact .inl before
    · exact .inr (List.mem_singleton.mp last ▸ inv.putting newPhase here)
  · cases stepped

/-- `SendThread` takes a phase from the queue. No assertion fails, as the only phase that is
ever put there is the last one. -/
theorem inv_poll (inv : Inv int json mappers reducers as s) (alive : s.killed = false)
    (stepped : step int json s .poll = some s') :
    Inv int json mappers reducers (as ++ [.poll]) s' := by
  simp only [step, alive, Bool.false_eq_true, if_false] at stepped
  split at stepped
  · rename_i currentPhase rest polling queue
    have idle := inv.sending
    unfold Sending at idle
    rw [polling] at idle
    have fewer : ∀ p ∈ rest, p ∈ s.phaseQueue ∨ p = .exiting ∧ s.phase = .exiting := by
      intro p member
      rw [queue]
      exact .inl (List.mem_cons_of_mem _ member)
    cases stepped
    rcases inv.queue currentPhase (queue ▸ List.mem_cons_self) with rfl | ⟨rfl, exiting⟩
    · exact inv_of_same inv (by rintro datagram now ⟨⟩) rfl rfl fewer (fun p => id) Iff.rfl
        (sending_mono inv.sending rfl rfl alive.symm id)
    · have taken : turn { s with phaseQueue := rest, killed := false } .exiting =
          { s with
            phaseQueue := rest, killed := false, send := .exitPhase s.workers.values } := by
        unfold turn
        exact if_pos exiting
      have ports : s.workers.values.map Worker.port =
          (freshWorkers mappers reducers).map Worker.port := by
        have roles := congrArg (List.map fun e : String × String × Bool × Nat => e.2.2.2) inv.enters
        rw [List.map_map, List.map_map] at roles
        rw [Dict.values, List.map_map]
        exact roles
      rw [taken]
      refine inv_of_same inv (by rintro datagram now ⟨⟩) rfl rfl fewer (fun p => id) Iff.rfl ?_
      refine ⟨exiting, [], ?_, ?_, fun _ => idle.1, by rintro ⟨⟩⟩
      · rw [List.nil_append, ports]
      · rw [show s.sent = [] from idle.1]
        exact List.nil_sublist _
  · cases stepped

theorem exitDatagrams_concat (past : List Nat) (port : Nat) :
    exitDatagrams json (past ++ [port]) =
      exitDatagrams json past ++ (exitMsg json).toList.map fun bytes => (port, bytes) := by
  unfold exitDatagrams
  rw [List.flatMap_append, List.flatMap_singleton]

theorem inv_exit {raised : Bool} (inv : Inv int json mappers reducers as s)
    (alive : s.killed = false) (stepped : step int json s (.exit raised) = some s') :
    Inv int json mappers reducers (as ++ [.exit raised]) s' := by
  have before := inv.sending
  unfold Sending at before
  simp only [step, alive, Bool.false_eq_true, if_false] at stepped
  split at stepped
  · rename_i ws others here
    rw [here] at before
    obtain ⟨exiting, past, ports, some_, all, _⟩ := before
    cases stepped
    refine inv_of_same inv (by rintro datagram now ⟨⟩) rfl rfl (fun p => .inl) (fun p => id)
      Iff.rfl ⟨exiting, past ++ [ws.port], ?_, ?_, fun none => ?_, by rintro ⟨⟩⟩
    · rw [ports, List.append_assoc]
      rfl
    · rw [exitDatagrams_concat]
      refine some_.append ?_
      cases raised with
      | true => exact List.nil_sublist _
      | false => exact List.Sublist.refl _
    · rw [exitDatagrams_concat]
      cases raised with
      | true => exact absurd (List.mem_append_right _ (List.mem_singleton_self _)) none
      | false =>
        rw [all fun earlier => none (List.mem_append_left _ earlier)]
        rfl
  · rename_i here
    rw [here] at before
    obtain ⟨exiting, past, ports, some_, all, _⟩ := before
    cases stepped
    refine inv_of_same inv (by rintro datagram now ⟨⟩) rfl rfl (fun p => .inl) (fun p => id)
      Iff.rfl ?_
    unfold Sending
    rw [show s.send = .exitPhase [] from here]
    exact ⟨exiting, past, ports, some_,
      fun none => all fun earlier => none (List.mem_append_left _ earlier), fun _ => rfl⟩
  · cases stepped

theorem inv_step (inv : Inv int json mappers reducers as s)
    (stepped : step int json s a = some s') : Inv int json mappers reducers (as ++ [a]) s' := by
  have alive : s.killed = false := by
    by_contra killed
    unfold step at stepped
    rw [if_pos (Bool.not_eq_false _ ▸ killed)] at stepped
    cases stepped
  cases a with
  | receive datagram now => exact inv_receive inv alive stepped
  | put => exact inv_put inv alive stepped
  | poll => exact inv_poll inv alive stepped
  | exit raised => exact inv_exit inv alive stepped

theorem inv_run (some_ : 0 < mappers) (run : (system int json mappers reducers).Run as s) :
    Inv int json mappers reducers as s :=
  System.run_induction (P := Inv int json mappers reducers) (inv_init some_)
    (fun _ _ _ _ _ inv stepped => inv_step inv stepped) run

end Runs

/-- Whatever datagrams come in, and however the two threads take turns: `RecvThread` ends exactly
with the first datagram that it does not understand; no assertion of `SendThread` fails; the last
phase begins exactly when every mapper has said that it is done; nothing is sent before, and then
every worker is told to exit at most once, and exactly once unless sending raises. -/
theorem exits_once (int : Json → Option Int) (json : JsonModule) {mappers reducers : Nat}
    (some_ : 0 < mappers) {as : List Action} {s : CoordinatorState}
    (run : (system int json mappers reducers).Run as s) :
    (s.recv = .died ↔ Puzzled int json mappers reducers as) ∧ s.send ≠ .died ∧
      (s.phase = .exiting ↔ ∀ i < mappers, Heard json as (SaysDone i)) ∧
      (s.sent ≠ [] ∨ s.killed = true → s.phase = .exiting) ∧
      s.sent.Sublist (exitDatagrams json ((freshWorkers mappers reducers).map Worker.port)) ∧
      ((freshWorkers mappers reducers).map Worker.port).Nodup ∧
      (s.killed = true → Action.exit true ∉ as →
        s.sent = exitDatagrams json ((freshWorkers mappers reducers).map Worker.port)) := by
  have inv := inv_run some_ run
  have exiting : s.phase = .exiting ↔ ∀ i < mappers, Heard json as (SaysDone i) :=
    inv.exiting.trans (forall₂_congr inv.done)
  have sending := inv.sending
  unfold Sending at sending
  refine ⟨inv.died, ?_, exiting, ?_⟩
  · intro died
    rw [died] at sending
    exact sending
  · split at sending
    · obtain ⟨nothing, alive⟩ := sending
      rw [nothing, alive]
      refine ⟨fun begun => ?_, List.nil_sublist _, nodup_ports mappers reducers, by rintro ⟨⟩⟩
      exact begun.elim (absurd rfl) fun killed => absurd killed Bool.false_ne_true
    · obtain ⟨last, past, ports, some_, all, none⟩ := sending
      refine ⟨fun _ => last, ?_, nodup_ports mappers reducers, fun killed unraised => ?_⟩
      · rw [ports]
        unfold exitDatagrams at some_ ⊢
        rw [List.flatMap_append]
        exact some_.trans (List.sublist_append_left _ _)
      · rw [none killed, List.map_nil, List.append_nil] at ports
        rw [ports]
        exact all unraised
    · exact sending.elim

/-- A datagram of a worker without named values. -/
def datagramOf (msgType : MT) (source : String) : List UInt8 :=
  ((Message.init msgType source Dict.empty).bind (Message.serialize Json.objectModule)).getD []

/-- The reducer is alive, the mapper is done, and both are told to exit. -/
theorem exits_once_single :
    ∃ s, (system (fun | .int n => some n | _ => none) Json.objectModule 1 1).Run
        [.receive (datagramOf .heartbeat "Reducer_0") 1700000000, .poll,
          .receive (datagramOf .done "Mapper_0") 1700000000, .put, .poll, .exit false,
          .exit false, .exit false] s ∧
      s.recv ≠ .died ∧ s.sent.map Prod.fst = [12901, 12902] := by
  have goes : ((system (fun | .int n => some n | _ => none) Json.objectModule 1 1).runFrom
      (system (fun | .int n => some n | _ => none) Json.objectModule 1 1).init
        [.receive (datagramOf .heartbeat "Reducer_0") 1700000000, .poll,
          .receive (datagramOf .done "Mapper_0") 1700000000, .put, .poll, .exit false,
          .exit false, .exit false]).any (fun s => s.killed && s.recv == .receiving) = true := by
    decide +kernel
  obtain ⟨s, run, ended⟩ := (Option.any_eq_true _ _).mp goes
  obtain ⟨killed, receiving⟩ := Bool.and_eq_true_iff.mp ended
  have spec := exits_once _ Json.objectModule Nat.one_pos run
  refine ⟨s, run, ?_, ?_⟩
  · rw [beq_iff_eq.mp receiving]
    rintro ⟨⟩
  · rw [spec.2.2.2.2.2.2 killed (by decide +kernel)]
    decide +kernel

end Phases

end Col733.Lab2.Coordinator

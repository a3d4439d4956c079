import Col733.Lab2.Coordinator
import Col733.Lab2.Message
import Col733.Misc.System

/-!
# `coordinator.py`: the phases and the end of the job

`RecvThread` reads the datagrams of the workers. It has no handler for exceptions, so that the
first datagram that it does not understand ends it. A new phase is put into `phase_queue`, from
which `SendThread` takes it; in the last one it tells every worker to exit, and kills the
process. The two threads run side by side, and what comes in is anything.
-/

namespace Col733.Lab2.Coordinator

/-- `PHASE`. -/
inductive Phase where
  | cp
  | recoverReducer
  | recoverMapper
  | lastCp
  | exiting
  deriving DecidableEq, Repr

/-- `COORDINATOR_PORT`. -/
def coordinatorPort : Nat := 12900

/-- `MAPPER_PORTS`. -/
def mapperPorts (mappers : Nat) : List Nat :=
  (List.range mappers).map fun i => coordinatorPort + i + 1

/-- `REDUCER_PORTS`: they begin after the port of the last mapper. -/
def reducerPorts (mappers reducers : Nat) : List Nat :=
  (List.range reducers).map fun i =>
    (mapperPorts mappers).getLast?.getD coordinatorPort + i + 1

/-- A `WorkerState` with its address, and whether the worker has said that it is done. -/
structure Worker extends WorkerState where
  port : Nat
  isDone : Bool := false
  deriving DecidableEq

/-- The workers as `Coordinator.__init__` makes them. -/
def freshWorkers (mappers reducers : Nat) : List Worker :=
  (mapperPorts mappers).zipIdx.map (fun e => { idx := e.2, isMapper := true, port := e.1 }) ++
    (reducerPorts mappers reducers).zipIdx.map fun e =>
      { idx := e.2, isMapper := false, port := e.1 }

/-- The `id` of a mapper. -/
def mapperName (i : Nat) : String := WorkerState.id { idx := i, isMapper := true }

/-- The `id` of a reducer. -/
def reducerName (i : Nat) : String := WorkerState.id { idx := i, isMapper := false }

/-! ## Messages that are received -/

/-- A `RcvMsg`. -/
inductive RcvMsg where
  | heartbeat
  | ckptAck (checkpointId : Int)
  | lastCkptAck
  | recoveryAck (recoveryId : Json)
  | done

/-- `state.workers[source]`, `none` when it raises. -/
def worker (workers : Dict String Worker) : Json → Option Worker
  | .str source => workers.get? source
  | _ => none

/-- An assignment to a field of `state.workers[source]`. -/
def change (workers : Dict String Worker) (source : Json) (f : Worker → Worker) :
    Option (Dict String Worker) :=
  match source with
  | .str id => (workers.get? id).map fun ws => workers.set id (f ws)
  | _ => none

/-- `update`: the workers after it, and the new phase if there is one; `none` when it raises.
The clock reads `now`. -/
def RcvMsg.update (workers : Dict String Worker) (source : Json) (now : Int) :
    RcvMsg → Option (Dict String Worker × Option Phase)
  | .heartbeat => do
    let heard ← change workers source fun ws => { ws with lastHbRecvd := now }
    return (heard, none)
  | .done => do
    let ws ← worker workers source
    if ws.isMapper then
      let told ← change workers source fun ws => { ws with isDone := true }
      let areAllMappersDone := told.values.all fun ws => !ws.isMapper || ws.isDone
      return (told, if areAllMappersDone then some .exiting else none)
    else none
  | .ckptAck _ | .lastCkptAck | .recoveryAck _ => some (workers, none)

section Threads

-- `int(x)` for a value that `json.loads` returns, `none` when it raises
variable (int : Json → Option Int)

/-- `msg_factory`, with the constructors it calls. -/
def msgFactory (message : Message) : Option RcvMsg :=
  match message.msgType with
  | .heartbeat => some .heartbeat
  | .checkpointAck => do
    let checkpointId ← message.kwargs.get? "checkpoint_id"
    return .ckptAck (← int checkpointId)
  | .done => some .done
  | .lastCheckpointAck => do
    let checkpointId ← message.kwargs.get? "checkpoint_id"
    if (← int checkpointId) = 0 then return .lastCkptAck else none
  | .recoveryAck => do
    let recoveryId ← message.kwargs.get? "recovery_id"
    return .recoveryAck recoveryId
  | _ => none

/-- Where `RecvThread` stands: at `recvfrom`, or between `state.phase = new_phase` and `put`. -/
inductive RecvThread where
  | receiving
  | putting (newPhase : Phase)
  | died
  deriving DecidableEq

/-- Where `SendThread` stands: at the loop over the queue, or in that of `exit_phase`. -/
inductive SendThread where
  | polling
  | exitPhase (workers : List Worker)
  | died
  deriving DecidableEq

/-- The coordinator: the `CoordinatorState`, the queue, the threads and what has been sent. -/
structure CoordinatorState where
  phase : Phase := .cp
  workers : Dict String Worker
  phaseQueue : List Phase := [.cp]
  recv : RecvThread := .receiving
  send : SendThread := .polling
  sent : List (Nat × List UInt8) := []
  killed : Bool := false

namespace Phases

inductive Action where
  | receive (datagram : List UInt8) (now : Int)
  | put
  | poll
  | exit (raised : Bool)
  deriving DecidableEq

/-- `ExitMsg().encode()`. -/
def exitMsg (json : JsonModule) : Option (List UInt8) :=
  (Message.init .exit "Coordinator" Dict.empty).bind (Message.serialize json)

/-- The message that `recvfrom(1024)` and `deserialize` make of a datagram. -/
def read (json : JsonModule) (datagram : List UInt8) : Option Message :=
  Message.deserialize json (datagram.take 1024)

/-- What `RecvThread` makes of a datagram. -/
def received (json : JsonModule) (workers : Dict String Worker) (datagram : List UInt8)
    (now : Int) : Option (Dict String Worker × Option Phase) := do
  let message ← read json datagram
  let msg ← msgFactory int message
  msg.update workers message.source now

/-- What `SendThread` does with a phase. Outside of the phase that they are for, the methods
raise, `cp_phase` apart; all but `exit_phase` do nothing more yet. -/
def turn (s : CoordinatorState) (currentPhase : Phase) : CoordinatorState :=
  match currentPhase with
  | .cp => s
  | .exiting =>
    if s.phase = .exiting then { s with send := .exitPhase s.workers.values }
    else { s with send := .died }
  | .recoverReducer | .recoverMapper | .lastCp =>
    if s.phase = currentPhase then s else { s with send := .died }

def step (json : JsonModule) (s : CoordinatorState) (a : Action) : Option CoordinatorState :=
  if s.killed then none
  else
    match a with
    | .receive datagram now =>
      if s.recv = .receiving then
        match received int json s.workers datagram now with
        | none => some { s with recv := .died }
        | some (workers, none) => some { s with workers }
        | some (workers, some newPhase) =>
          some { s with workers, phase := newPhase, recv := .putting newPhase }
      else none
    | .put =>
      match s.recv with
      | .putting newPhase =>
        some { s with phaseQueue := s.phaseQueue ++ [newPhase], recv := .receiving }
      | _ => none
    | .poll =>
      match s.send, s.phaseQueue with
      | .polling, currentPhase :: rest => some (turn { s with phaseQueue := rest } currentPhase)
      | _, _ => none
    | .exit raised =>
      match s.send with
      | .exitPhase (ws :: others) =>
        -- what `encode` or `sendto` raises is caught
        let datagram := if raised then none else exitMsg json
        some { s with
          send := .exitPhase others
          sent := s.sent ++ datagram.toList.map fun bytes => (ws.port, bytes) }
      | .exitPhase [] => some { s with killed := true }
      | _ => none

def system (json : JsonModule) (mappers reducers : Nat) : System CoordinatorState Action where
  init := { workers := Dict.ofList ((freshWorkers mappers reducers).map fun ws => (ws.id, ws)) }
  step := step int json

/-- A message says that the mapper is done. -/
def SaysDone (i : Nat) (message : Message) : Prop :=
  message.msgType = .done ∧ message.source = .str (mapperName i)

/-- A message that `RecvThread` can handle: it has what its type asks for. -/
def Understood (mappers reducers : Nat) (message : Message) : Prop :=
  match message.msgType with
  | .heartbeat => ∃ ws ∈ freshWorkers mappers reducers, message.source = .str ws.id
  | .done => ∃ i < mappers, message.source = .str (mapperName i)
  | .checkpointAck => ∃ v n, message.kwargs.get? "checkpoint_id" = some v ∧ int v = some n
  | .lastCheckpointAck => ∃ v, message.kwargs.get? "checkpoint_id" = some v ∧ int v = some 0
  | .recoveryAck => ∃ v, message.kwargs.get? "recovery_id" = some v
  | _ => False

/-- The datagrams by which the workers at these ports are told to exit. -/
def exitDatagrams (json : JsonModule) (ports : List Nat) : List (Nat × List UInt8) :=
  ports.flatMap fun port => (exitMsg json).toList.map fun bytes => (port, bytes)

end Phases

end Threads

/-! ## The workers stay who they are -/

/-- What never changes of a worker. -/
def Worker.role (ws : Worker) : String × Bool × Nat := (ws.id, ws.isMapper, ws.port)

/-- The dictionary holds the workers that were made, each under its own id. -/
def Enters (mappers reducers : Nat) (workers : Dict String Worker) : Prop :=
  workers.entries.map (fun e => (e.1, e.2.role)) =
    (freshWorkers mappers reducers).map fun ws => (ws.id, ws.role)

/-- The coordinator has been told that a mapper is done. -/
def Done (workers : Dict String Worker) (i : Nat) : Prop :=
  ∃ ws, workers.get? (mapperName i) = some ws ∧ ws.isDone = true

section Roles

variable {mappers reducers : Nat} {workers : Dict String Worker} {ws : Worker} {key : String}

theorem toString_injective {i j : Nat} (same : toString i = toString j) : i = j := by
  have digits : Json.intText (Int.ofNat i) = Json.intText (Int.ofNat j) :=
    String.ofList_injective same
  have read := congrArg Json.intOf digits
  rw [Json.intOf_intText, Json.intOf_intText] at read
  exact Int.ofNat.inj (Option.some.inj read)

/-- An id says which worker it is. -/
theorem id_inj {ws other : WorkerState} (same : ws.id = other.id) :
    ws.isMapper = other.isMapper ∧ ws.idx = other.idx := by
  have chars := congrArg String.toList same
  unfold WorkerState.id at chars
  rw [String.toList_append, String.toList_append, String.toList_append, String.toList_append,
    List.append_assoc, List.append_assoc] at chars
  have apart : ∀ front back : List Char, "Mapper".toList ++ front ≠ "Reducer".toList ++ back := by
    intro front back equal
    have first : 'M' = 'R' := (List.cons.inj equal).1
    exact absurd first (by decide)
  cases mapper : ws.isMapper <;> cases mapper' : other.isMapper <;>
    rw [mapper, mapper'] at chars
  · exact ⟨rfl, toString_injective (String.toList_injective
      (List.append_cancel_left (List.append_cancel_left chars)))⟩
  · exact absurd chars.symm (apart _ _)
  · exact absurd chars (apart _ _)
  · exact ⟨rfl, toString_injective (String.toList_injective
      (List.append_cancel_left (List.append_cancel_left chars)))⟩

theorem ids_freshWorkers (mappers reducers : Nat) :
    (freshWorkers mappers reducers).map (fun ws => ws.id) =
      (List.range mappers).map mapperName ++ (List.range reducers).map reducerName := by
  have indices (ports : List Nat) (name : Nat → String) :
      ports.zipIdx.map (fun e => name e.2) = (List.range ports.length).map name := by
    rw [List.range_eq_range', ← List.zipIdx_map_snd 0 ports, List.map_map]
    rfl
  have mapperLength : (mapperPorts mappers).length = mappers := by
    rw [mapperPorts, List.length_map, List.length_range]
  have reducerLength : (reducerPorts mappers reducers).length = reducers := by
    rw [reducerPorts, List.length_map, List.length_range]
  unfold freshWorkers
  rw [List.map_append, List.map_map, List.map_map]
  show (mapperPorts mappers).zipIdx.map (fun e => mapperName e.2) ++
    (reducerPorts mappers reducers).zipIdx.map (fun e => reducerName e.2) = _
  rw [indices, indices, mapperLength, reducerLength]

theorem nodup_ids (mappers reducers : Nat) :
    ((freshWorkers mappers reducers).map fun ws => ws.id).Nodup := by
  rw [ids_freshWorkers]
  refine List.nodup_append.mpr ⟨?_, ?_, ?_⟩
  · exact List.nodup_range.map fun i j same => (id_inj same).2
  · exact List.nodup_range.map fun i j same => (id_inj same).2
  · intro a isMapper b isReducer same
    obtain ⟨i, _, rfl⟩ := List.mem_map.mp isMapper
    obtain ⟨j, _, rfl⟩ := List.mem_map.mp isReducer
    cases (id_inj same).1

/-- The ports of the workers. -/
theorem ports_freshWorkers (mappers reducers : Nat) :
    (freshWorkers mappers reducers).map Worker.port =
      mapperPorts mappers ++ reducerPorts mappers reducers := by
  unfold freshWorkers
  rw [List.map_append, List.map_map, List.map_map]
  show (mapperPorts mappers).zipIdx.map Prod.fst ++
    (reducerPorts mappers reducers).zipIdx.map Prod.fst = _
  rw [List.zipIdx_map_fst, List.zipIdx_map_fst]

/-- No two workers have the same port. -/
theorem nodup_ports (mappers reducers : Nat) :
    ((freshWorkers mappers reducers).map Worker.port).Nodup := by
  rw [ports_freshWorkers]
  refine List.nodup_append.mpr ⟨?_, ?_, ?_⟩
  · exact List.nodup_range.map fun i j same => by omega
  · exact List.nodup_range.map fun i j same => by omega
  · intro a ofMapper b ofReducer same
    obtain ⟨i, inside, rfl⟩ := List.mem_map.mp ofMapper
    obtain ⟨j, _, rfl⟩ := List.mem_map.mp ofReducer
    have last : (mapperPorts mappers).getLast?.getD coordinatorPort = coordinatorPort + mappers := by
      cases mappers with
      | zero => cases List.mem_range.mp inside
      | succ n =>
        rw [mapperPorts, List.range_succ, List.map_append, List.map_singleton,
          List.getLast?_append, List.getLast?_singleton]
        rfl
    have below := List.mem_range.mp inside
    rw [last] at same
    omega

theorem enters_init (mappers reducers : Nat) :
    Enters mappers reducers
      (Dict.ofList ((freshWorkers mappers reducers).map fun ws => (ws.id, ws))) := by
  have entries : (Dict.ofList ((freshWorkers mappers reducers).map fun ws =>
      (ws.id, ws))).entries = (freshWorkers mappers reducers).map fun ws => (ws.id, ws) := by
    apply Dict.entries_foldl_set
    show (((freshWorkers mappers reducers).map fun ws => (ws.id, ws)).map Prod.fst).Nodup
    rw [List.map_map]
    exact nodup_ids mappers reducers
  unfold Enters
  rw [entries, List.map_map]
  rfl

/-- Whoever is found is one of the workers that were made. -/
theorem Enters.of_get? (enters : Enters mappers reducers workers)
    (found : workers.get? key = some ws) :
    ws.id = key ∧ ∃ made ∈ freshWorkers mappers reducers, made.role = ws.role := by
  have member : (key, ws.role) ∈ (freshWorkers mappers reducers).map fun ws => (ws.id, ws.role) := by
    rw [← enters]
    exact List.mem_map.mpr ⟨_, Dict.mem_of_get? found, rfl⟩
  obtain ⟨made, inside, same⟩ := List.mem_map.mp member
  obtain ⟨sameKey, sameRole⟩ := Prod.mk.inj same
  refine ⟨?_, made, inside, sameRole⟩
  rw [← sameKey]
  exact (congrArg Prod.fst sameRole).symm

/-- Whoever was made is found. -/
theorem Enters.get?_of_mem (enters : Enters mappers reducers workers)
    (made : ws ∈ freshWorkers mappers reducers) :
    ∃ now, workers.get? ws.id = some now ∧ now.role = ws.role := by
  have member : (ws.id, ws.role) ∈ workers.entries.map fun e => (e.1, e.2.role) := by
    rw [enters]
    exact List.mem_map.mpr ⟨ws, made, rfl⟩
  obtain ⟨⟨key, now⟩, inside, same⟩ := List.mem_map.mp member
  obtain ⟨sameKey, sameRole⟩ := Prod.mk.inj same
  refine ⟨now, ?_, sameRole⟩
  rw [← sameKey]
  exact Dict.get?_of_mem inside

/-- A change that leaves every worker who it is. -/
theorem Enters.set (enters : Enters mappers reducers workers) (found : workers.get? key = some ws)
    {now : Worker} (same : now.role = ws.role) : Enters mappers reducers (workers.set key now) := by
  unfold Enters
  rw [← enters]
  exact Dict.map_entries_set found (congrArg (Prod.mk key) same)

theorem mem_freshWorkers_of_mapper (enters : Enters mappers reducers workers)
    (found : workers.get? key = some ws) (isMapper : ws.isMapper = true) :
    ∃ i < mappers, key = mapperName i := by
  obtain ⟨own, made, inside, role⟩ := enters.of_get? found
  have listed : made.id ∈ (freshWorkers mappers reducers).map fun ws => ws.id :=
    List.mem_map_of_mem inside
  have sameId : made.id = key := (congrArg Prod.fst role).trans own
  have mapper : made.isMapper = true := (congrArg (fun r => r.2.1) role).trans isMapper
  rw [ids_freshWorkers] at listed
  rcases List.mem_append.mp listed with isName | isName
  · obtain ⟨i, below, named⟩ := List.mem_map.mp isName
    exact ⟨i, List.mem_range.mp below, sameId.symm.trans named.symm⟩
  · obtain ⟨i, _, named⟩ := List.mem_map.mp isName
    have reducer := (id_inj named).1
    rw [mapper] at reducer
    cases reducer

theorem exists_mapper (enters : Enters mappers reducers workers) {i : Nat} (below : i < mappers) :
    ∃ ws, workers.get? (mapperName i) = some ws ∧ ws.isMapper = true := by
  have listed : mapperName i ∈ (freshWorkers mappers reducers).map fun ws => ws.id := by
    rw [ids_freshWorkers]
    exact List.mem_append_left _ (List.mem_map_of_mem (List.mem_range.mpr below))
  obtain ⟨made, inside, named⟩ := List.mem_map.mp listed
  obtain ⟨now, found, role⟩ := enters.get?_of_mem inside
  refine ⟨now, named ▸ found, ?_⟩
  have sameKind : now.isMapper = made.isMapper := congrArg (fun r => r.2.1) role
  exact sameKind.trans (id_inj named).1

/-- `are_all_mappers_done`. -/
theorem all_done_iff (enters : Enters mappers reducers workers) :
    (workers.values.all fun ws => !ws.isMapper || ws.isDone) = true ↔
      ∀ i < mappers, Done workers i := by
  rw [List.all_eq_true]
  constructor
  · intro all i below
    obtain ⟨ws, found, isMapper⟩ := exists_mapper enters below
    have told := all ws (List.mem_map.mpr ⟨_, Dict.mem_of_get? found, rfl⟩)
    rw [isMapper] at told
    exact ⟨ws, found, told⟩
  · intro done ws member
    obtain ⟨⟨key, held⟩, inside, rfl⟩ := List.mem_map.mp member
    have found := Dict.get?_of_mem inside
    cases mapper : held.isMapper with
    | false => rfl
    | true =>
      obtain ⟨i, below, rfl⟩ := mem_freshWorkers_of_mapper enters found mapper
      obtain ⟨same, found', told⟩ := done i below
      cases found.symm.trans found'
      exact told

end Roles

end Col733.Lab2.Coordinator

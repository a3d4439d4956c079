import Col733.Misc.Dict
import Mathlib.Order.Bounds.Defs

/-!
# `coordinator.py`: the workers and the recovery point

What the coordinator keeps of every worker, how it starts one, and the checkpoint all of them
go back to: the oldest of those that they have made last, as far as the seed of the loop goes.
-/

namespace Col733.Lab2.Coordinator

/-- `HEARTBEAT_TIMEOUT`, in seconds. -/
def heartbeatTimeout : Int := 1

/-- What `start_worker` runs for a worker. -/
inductive Process where
  | mapper (idx : Nat)
  | reducer (idx : Nat)
  deriving DecidableEq, Repr

/-- `WorkerState`: what the health check and the recovery point depend on. Before the first
`start_worker` there is no process. -/
structure WorkerState where
  idx : Nat
  isMapper : Bool
  lastHbRecvd : Int := 0
  lastCpId : Nat := 0
  process : Option Process := none
  deriving DecidableEq, Repr

/-- `WorkerState.id` -/
def WorkerState.id (ws : WorkerState) : String :=
  (if ws.isMapper then "Mapper" else "Reducer") ++ "_" ++ toString ws.idx

/-- `WorkerState.start_worker`. To restart a worker is to kill its process first; this raises
where there is none. The time of the last heartbeat stays as it is. -/
def WorkerState.startWorker (ws : WorkerState) (restart : Bool) : Option WorkerState :=
  if restart && ws.process.isNone then none
  else some { ws with process := some (if ws.isMapper then .mapper ws.idx else .reducer ws.idx) }

/-- The workers as `Coordinator.__init__` enters them: the mappers, then the reducers. -/
def initWorkers (mappers reducers : Nat) : Dict String WorkerState :=
  let fresh := (List.range mappers).map (fun idx => { idx, isMapper := true : WorkerState }) ++
    (List.range reducers).map fun idx => { idx, isMapper := false }
  Dict.ofList (fresh.map fun ws => (ws.id, ws))

/-! ## The recovery point -/

/-- `CoordinatorState.last_completed_checkpoint_id` -/
def lastCompletedCheckpointId (workers : Dict String WorkerState) : Int :=
  let checkpointId := workers.values.foldl
    (fun least ws => if least > ws.lastCpId then ws.lastCpId else least) 1000000
  if checkpointId = 0 then -1 else checkpointId

/-- The checkpoints that the workers have made last. -/
def checkpoints (workers : Dict String WorkerState) : Set Nat :=
  { id | ∃ ws ∈ workers.values, ws.lastCpId = id }

/-- The recovery point is the oldest of the last checkpoints, and -1 where that is none. -/
def RecoversOldest (workers : Dict String WorkerState) : Prop :=
  ∃ oldest, IsLeast (checkpoints workers) oldest ∧
    lastCompletedCheckpointId workers = if oldest = 0 then -1 else (oldest : Int)

/-- The loop computes the least of the seed and the values. -/
theorem foldl_least (values : List WorkerState) (seed : Nat) :
    IsLeast { id | id = seed ∨ ∃ ws ∈ values, ws.lastCpId = id }
      (values.foldl (fun least ws => if least > ws.lastCpId then ws.lastCpId else least) seed) := by
  induction values generalizing seed with
  | nil =>
    refine ⟨.inl rfl, ?_⟩
    rintro id (rfl | ⟨_, member, _⟩)
    · exact Nat.le_refl _
    · cases member
  | cons ws values ih =>
    have loop := ih (if seed > ws.lastCpId then ws.lastCpId else seed)
    rw [List.foldl_cons]
    generalize List.foldl _ _ values = found at loop ⊢
    obtain ⟨reached, least⟩ := loop
    constructor
    · rcases reached with isSeed | ⟨other, member, same⟩
      · rw [isSeed]
        split
        · exact .inr ⟨ws, List.mem_cons_self, rfl⟩
        · exact .inl rfl
      · exact .inr ⟨other, List.mem_cons_of_mem ws member, same⟩
    · have bound := least (.inl rfl)
      rintro id (rfl | ⟨other, member, rfl⟩)
      · split at bound <;> omega
      · rcases List.mem_cons.mp member with rfl | later
        · split at bound <;> omega
        · exact least (.inr ⟨other, later, rfl⟩)

/-- The recovery point is right exactly if some worker's last checkpoint is at most the seed of
the loop. -/
theorem recovers_oldest_iff (workers : Dict String WorkerState) :
    RecoversOldest workers ↔ ∃ ws ∈ workers.values, ws.lastCpId ≤ 1000000 := by
  have loop := foldl_least workers.values 1000000
  simp only [RecoversOldest, lastCompletedCheckpointId]
  generalize workers.values.foldl _ 1000000 = found at loop ⊢
  obtain ⟨reached, least⟩ := loop
  have small : found ≤ 1000000 := least (.inl rfl)
  constructor
  · rintro ⟨oldest, ⟨⟨ws, member, same⟩, _⟩, answer⟩
    refine ⟨ws, member, ?_⟩
    split at answer <;> split at answer <;> omega
  · rintro ⟨ws, member, low⟩
    have made : found ∈ checkpoints workers := by
      rcases reached with isSeed | reached
      · have bound := least (.inr ⟨ws, member, rfl⟩)
        exact ⟨ws, member, by omega⟩
      · exact reached
    exact ⟨found, ⟨made, fun id other => least (.inr other)⟩, rfl⟩

/-- All workers have gone past the seed. -/
theorem not_recovers_oldest :
    ¬ ∀ workers : Dict String WorkerState, workers.values ≠ [] → RecoversOldest workers := by
  intro recovers
  let late : WorkerState := { idx := 0, isMapper := true, lastCpId := 1000001 }
  obtain ⟨oldest, ⟨⟨ws, member, same⟩, _⟩, answer⟩ :=
    recovers (Dict.empty.set late.id late) (List.cons_ne_nil late [])
  have only : ws = late := List.mem_singleton.mp member
  subst only
  subst same
  revert answer
  decide

end Col733.Lab2.Coordinator

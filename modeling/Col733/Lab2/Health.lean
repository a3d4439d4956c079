import Col733.Lab2.Coordinator
import Col733.Misc.System
import Mathlib.Data.Rat.Floor

/-!
# `coordinator.py`: the health of the workers

A worker is judged by the second in which its last heartbeat came in. That second is 0 at first
and only a heartbeat writes it, so that it says nothing about a process that `start_worker`
has just started.
-/

namespace Col733.Lab2.Coordinator

/-- `int(time.time())`; the clock reads no time before the epoch. -/
def seconds (time : ℚ) : Int := ⌊time⌋

/-- A restart by `monitor_health`: the time the clock read, when the worker was last heard of
before, and when `start_worker` ran for it last. -/
structure Restart where
  worker : String
  cur : ℚ
  heard : Option ℚ
  started : Option ℚ

/-- The coordinator. `scan` holds the workers that the calls of `monitor_health` under way have
still to look at; `heard`, `started` and `restarts` are the history of the run. -/
structure State where
  workers : Dict String WorkerState
  now : ℚ := 0
  scan : List String := []
  heard : String → Option ℚ := fun _ => none
  started : String → Option ℚ := fun _ => none
  restarts : List Restart := []

/-- What happens, with the times the clock reads. An alarm calls `monitor_health`, also while a
call is under way; the loop of the innermost call makes the next `visit`. -/
inductive Action where
  | start (name : String) (time : ℚ)
  | heartbeat (source : String) (time : ℚ)
  | alarm
  | visit (cur done : ℚ)

/-- `start_worker()`, called for a worker at `time`. -/
def State.start (s : State) (name : String) (time : ℚ) : Option State := do
  let ws ← s.workers.get? name
  let running ← ws.startWorker false
  some { s with
    workers := s.workers.set name running
    now := time
    started := Function.update s.started name (some time) }

/-- `HBRecvMsg.update` at `time`. -/
def State.update (s : State) (source : String) (time : ℚ) : Option State := do
  let ws ← s.workers.get? source
  some { s with
    workers := s.workers.set source { ws with lastHbRecvd := seconds time }
    now := time
    heard := Function.update s.heard source (some time) }

/-- The body of the loop of `monitor_health`, for the worker `name`: the clock reads `cur`, and
a restart is over at `done`. A restart that raises ends every call under way. -/
def State.visit (s : State) (name : String) (rest : List String) (cur done : ℚ) :
    Option State := do
  let ws ← s.workers.get? name
  let diff := seconds cur - ws.lastHbRecvd
  if diff > heartbeatTimeout then
    match ws.startWorker true with
    | none => some { s with now := cur, scan := [] }
    | some running => some { s with
        workers := s.workers.set name running
        now := done
        scan := rest
        started := Function.update s.started name (some done)
        restarts := s.restarts ++ [⟨name, cur, s.heard name, s.started name⟩] }
  else some { s with now := cur, scan := rest }

/-- One step of the coordinator; the clock does not go back. -/
def step (s : State) : Action → Option State
  | .start name time => if time < s.now then none else s.start name time
  | .heartbeat source time => if time < s.now then none else s.update source time
  | .alarm => some { s with scan := s.workers.keys ++ s.scan }
  | .visit cur done =>
    match s.scan with
    | [] => none
    | name :: rest => if cur < s.now ∨ done < cur then none else s.visit name rest cur done

/-- The coordinator of `mappers` mappers and `reducers` reducers, none of them started. -/
def coordinator (mappers reducers : Nat) : System State Action :=
  ⟨{ workers := initWorkers mappers reducers }, step⟩

/-- The worker had its time: more than `HEARTBEAT_TIMEOUT` has passed since it was last heard
of, and since it was last started. -/
def Restart.Due (r : Restart) : Prop :=
  (∀ t, r.heard = some t → heartbeatTimeout < r.cur - t) ∧
    ∀ t, r.started = some t → heartbeatTimeout < r.cur - t

/-- A worker that is looked at when the clock reads `cur` was started more than
`HEARTBEAT_TIMEOUT` ago, or was heard of since, or has its last heartbeat before (the epoch, if
there was none) at most `HEARTBEAT_TIMEOUT` whole seconds back. -/
def Settled (cur : ℚ) (heard started : Option ℚ) : Prop :=
  ∀ t, started = some t →
    heartbeatTimeout < cur - t ∨ (∃ h, heard = some h ∧ t ≤ h) ∨
      seconds cur - seconds (heard.getD 0) ≤ heartbeatTimeout

/-- The alarms find settled workers only. -/
def Calm (s : State) : Action → Prop
  | .visit cur _ => ∀ name, s.scan.head? = some name → Settled cur (s.heard name) (s.started name)
  | _ => True

instance (cur : ℚ) (heard started : Option ℚ) : Decidable (Settled cur heard started) :=
  inferInstanceAs (Decidable (∀ t ∈ started, heartbeatTimeout < cur - t ∨
    (∃ h ∈ heard, t ≤ h) ∨ seconds cur - seconds (heard.getD 0) ≤ heartbeatTimeout))

instance (s : State) (a : Action) : Decidable (Calm s a) :=
  match a with
  | .visit cur _ => inferInstanceAs (Decidable (∀ name ∈ s.scan.head?,
      Settled cur (s.heard name) (s.started name)))
  | .start _ _ | .heartbeat _ _ | .alarm => isTrue trivial

/-- What the state keeps of a worker agrees with the history. -/
def WorkerState.Records (ws : WorkerState) (heard started : Option ℚ) : Prop :=
  ws.lastHbRecvd = seconds (heard.getD 0) ∧ ws.process.isSome = started.isSome

/-- The invariant of the runs: every worker records its own history. -/
def Recorded (s : State) : Prop :=
  ∀ name ws, s.workers.get? name = some ws → ws.Records (s.heard name) (s.started name)

section Steps

variable {s s' : State} {name : String} {ws running : WorkerState} {restart : Bool}

/-- A start gives the worker a process, and leaves the time of its last heartbeat. -/
theorem startWorker_eq_some (called : ws.startWorker restart = some running) :
    running.lastHbRecvd = ws.lastHbRecvd ∧ running.process.isSome = true := by
  unfold WorkerState.startWorker at called
  split at called
  · cases called
  · cases called
    exact ⟨rfl, rfl⟩

/-- Only a worker that was never started cannot be restarted. -/
theorem startWorker_eq_none (raised : ws.startWorker restart = none) : ws.process = none := by
  unfold WorkerState.startWorker at raised
  split at raised
  · rename_i refused
    exact Option.isNone_iff_eq_none.mp (Bool.and_eq_true_iff.mp refused).2
  · cases raised

/-- One worker is entered again; the history of the others stays. -/
theorem recorded_set (before : Recorded s) (entered : s'.workers = s.workers.set name running)
    (here : running.Records (s'.heard name) (s'.started name))
    (others : ∀ other, other ≠ name →
      s'.heard other = s.heard other ∧ s'.started other = s.started other) : Recorded s' := by
  intro other ws found
  rw [entered, Dict.get?_set] at found
  split at found
  · rename_i same
    subst same
    cases found
    exact here
  · rename_i differs
    rw [(others other differs).1, (others other differs).2]
    exact before other ws found

/-- A worker is entered again with a new process. -/
theorem recorded_running {time : ℚ} (before : Recorded s) (found : s.workers.get? name = some ws)
    (runs : ws.startWorker restart = some running)
    (entered : s'.workers = s.workers.set name running) (heard : s'.heard = s.heard)
    (started : s'.started = Function.update s.started name (some time)) : Recorded s' := by
  obtain ⟨kept, process⟩ := startWorker_eq_some runs
  refine recorded_set before entered ⟨?_, ?_⟩ fun other differs => ⟨?_, ?_⟩
  · rw [kept, heard]
    exact (before name ws found).1
  · rw [process, started, Function.update_self]
    rfl
  · rw [heard]
  · rw [started, Function.update_of_ne differs]

theorem recorded_start {time : ℚ} (before : Recorded s) (started : s.start name time = some s') :
    Recorded s' ∧ s'.restarts = s.restarts := by
  obtain ⟨ws, found, called⟩ := Option.bind_eq_some_iff.mp started
  obtain ⟨running, runs, entered⟩ := Option.bind_eq_some_iff.mp called
  cases entered
  exact ⟨recorded_running before found runs rfl rfl rfl, rfl⟩

theorem recorded_update {time : ℚ} (before : Recorded s)
    (updated : s.update name time = some s') : Recorded s' ∧ s'.restarts = s.restarts := by
  obtain ⟨ws, found, entered⟩ := Option.bind_eq_some_iff.mp updated
  cases entered
  refine ⟨recorded_set before rfl ⟨?_, ?_⟩ fun other differs => ⟨?_, rfl⟩, rfl⟩
  · exact congrArg (fun heard : Option ℚ => seconds (heard.getD 0))
      (Function.update_self name (some time) s.heard).symm
  · exact (before name ws found).2
  · exact Function.update_of_ne differs _ _

/-- Rounding to seconds is harmless: what is late in whole seconds is late. -/
theorem late_of_seconds {cur heard : ℚ}
    (late : heartbeatTimeout < seconds cur - seconds heard) : heartbeatTimeout < cur - heard := by
  have whole : heartbeatTimeout + seconds heard + 1 ≤ seconds cur := by omega
  have below : (seconds cur : ℚ) ≤ cur := Int.floor_le cur
  have above : heard < seconds heard + 1 := Int.lt_floor_add_one heard
  have cast : ((heartbeatTimeout + seconds heard + 1 : Int) : ℚ) ≤ seconds cur :=
    Int.cast_le.mpr whole
  push_cast at cast
  linarith

/-- A worker whose heartbeat is late had its time exactly if it is settled. -/
theorem due_iff {cur : ℚ} {heard started : Option ℚ}
    (late : heartbeatTimeout < seconds cur - seconds (heard.getD 0)) :
    Restart.Due ⟨name, cur, heard, started⟩ ↔ Settled cur heard started := by
  have silent : ∀ h, heard = some h → (heartbeatTimeout : ℚ) < cur - h := by
    rintro h rfl
    exact late_of_seconds late
  constructor
  · intro due t began
    exact .inl (due.2 t began)
  · intro settled
    refine ⟨silent, fun t began => ?_⟩
    rcases settled t began with long | ⟨h, isHeard, since⟩ | early
    · exact long
    · have gone := silent h isHeard
      show (heartbeatTimeout : ℚ) < cur - t
      linarith
    · exact absurd late (not_lt.mpr early)

/-- What one turn of the loop of `monitor_health` keeps, and when it restarts a worker that had
no time to report. -/
theorem recorded_visit {rest : List String} {cur done : ℚ} (before : Recorded s)
    (visited : s.visit name rest cur done = some s') :
    Recorded s' ∧ ((∀ r ∈ s'.restarts, r.Due) ↔
      (∀ r ∈ s.restarts, r.Due) ∧ Settled cur (s.heard name) (s.started name)) := by
  obtain ⟨ws, found, looked⟩ := Option.bind_eq_some_iff.mp visited
  obtain ⟨last, process⟩ := before name ws found
  simp only [last] at looked
  split at looked
  · rename_i late
    split at looked
    · -- no process to kill: the worker was never started
      rename_i raised
      cases looked
      rw [startWorker_eq_none raised] at process
      have never : s.started name = none := Option.not_isSome_iff_eq_none.mp (by simp [← process])
      refine ⟨before, (and_iff_left ?_).symm⟩
      rw [never]
      intro t began
      cases began
    · rename_i running runs
      cases looked
      refine ⟨recorded_running before found runs rfl rfl rfl, ?_⟩
      rw [List.forall_mem_append, List.forall_mem_singleton, due_iff late]
  · rename_i early
    cases looked
    refine ⟨before, (and_iff_left ?_).symm⟩
    exact fun t _ => .inr (.inr (not_lt.mp early))

/-- What one step keeps, and when it restarts a worker that had no time to report. -/
theorem recorded_step {a : Action} (before : Recorded s) (stepped : step s a = some s') :
    Recorded s' ∧ ((∀ r ∈ s'.restarts, r.Due) ↔ (∀ r ∈ s.restarts, r.Due) ∧ Calm s a) := by
  cases a with
  | start name time =>
    simp only [step] at stepped
    split at stepped
    · cases stepped
    · obtain ⟨after, same⟩ := recorded_start before stepped
      rw [same]
      exact ⟨after, (and_iff_left trivial).symm⟩
  | heartbeat source time =>
    simp only [step] at stepped
    split at stepped
    · cases stepped
    · obtain ⟨after, same⟩ := recorded_update before stepped
      rw [same]
      exact ⟨after, (and_iff_left trivial).symm⟩
  | alarm =>
    cases stepped
    exact ⟨before, (and_iff_left trivial).symm⟩
  | visit cur done =>
    simp only [step] at stepped
    split at stepped
    · cases stepped
    · rename_i name rest scanned
      split at stepped
      · cases stepped
      · obtain ⟨after, due⟩ := recorded_visit before stepped
        refine ⟨after, due.trans (and_congr_right fun _ => ?_)⟩
        simp only [Calm, scanned, List.head?_cons, Option.some.injEq, forall_eq']

end Steps

/-- Before the first step no worker has a history. -/
theorem recorded_init (mappers reducers : Nat) : Recorded (coordinator mappers reducers).init := by
  intro name ws found
  obtain ⟨fresh, member, entry⟩ :=
    List.mem_map.mp (Dict.mem_entries_ofList (Dict.mem_of_get? found))
  cases entry
  rcases List.mem_append.mp member with isMapper | isReducer
  · obtain ⟨idx, _, rfl⟩ := List.mem_map.mp isMapper
    exact ⟨Int.floor_zero.symm, rfl⟩
  · obtain ⟨idx, _, rfl⟩ := List.mem_map.mp isReducer
    exact ⟨Int.floor_zero.symm, rfl⟩

/-- Every restart of a run hits a worker that had its time to report, exactly if all alarms of
the run find settled workers only. -/
theorem restarts_due_iff (mappers reducers : Nat) {as : List Action} {s : State}
    (run : (coordinator mappers reducers).Run as s) :
    (∀ r ∈ s.restarts, r.Due) ↔ (coordinator mappers reducers).Meets Calm as := by
  have kept : Recorded s ∧
      ((∀ r ∈ s.restarts, r.Due) ↔ (coordinator mappers reducers).Meets Calm as) := by
    refine System.run_induction (P := fun as s => Recorded s ∧
      ((∀ r ∈ s.restarts, r.Due) ↔ (coordinator mappers reducers).Meets Calm as))
      ⟨recorded_init mappers reducers, ?_⟩ ?_ run
    · exact iff_of_true (List.forall_mem_nil _) trivial
    · intro as s a s' earlier ⟨recorded, due⟩ stepped
      obtain ⟨after, due'⟩ := recorded_step recorded stepped
      refine ⟨after, due'.trans ⟨fun ⟨before, calm⟩ => ?_, fun meets => ?_⟩⟩
      · exact (due.mp before).snoc earlier calm stepped
      · obtain ⟨before, calm⟩ := System.meets_snoc earlier meets
        exact ⟨due.mpr before, calm⟩
  exact kept.2

/-- A mapper that is heard of once. The first alarm leaves it alone, and the second one, three
seconds after the heartbeat, restarts it. -/
def silent : List Action :=
  [.start "Mapper_0" 1700000000, .heartbeat "Mapper_0" 1700000000.5, .alarm,
    .visit 1700000001 1700000001, .alarm, .visit 1700000003.5 1700000004]

theorem restarts_due_silent :
    ∃ s, (coordinator 1 0).Run silent s ∧ s.restarts.length = 1 ∧ ∀ r ∈ s.restarts, r.Due := by
  have goes : ((coordinator 1 0).runFrom (coordinator 1 0).init silent).any
      (fun s => s.restarts.length == 1) = true := by decide +kernel
  obtain ⟨s, run, once⟩ := (Option.any_eq_true _ _).mp goes
  exact ⟨s, run, beq_iff_eq.mp once, (restarts_due_iff 1 0 run).mpr (by decide +kernel)⟩

/-- A mapper is started, and half a second later the first alarm kills it. -/
def hasty : List Action :=
  [.start "Mapper_0" 1700000000, .alarm, .visit 1700000000.5 1700000000.5]

theorem not_restarts_due :
    ¬ ∀ mappers reducers as s, (coordinator mappers reducers).Run as s →
      ∀ r ∈ s.restarts, r.Due := by
  intro due
  have killed : ((coordinator 1 0).runFrom (coordinator 1 0).init hasty).any (fun s =>
      s.restarts.any fun r => r.started.any fun t => r.cur - t ≤ heartbeatTimeout) = true := by
    decide +kernel
  obtain ⟨s, run, restarted⟩ := (Option.any_eq_true _ _).mp killed
  obtain ⟨r, member, fresh⟩ := List.any_eq_true.mp restarted
  obtain ⟨t, began, soon⟩ := (Option.any_eq_true _ _).mp fresh
  exact not_lt.mpr (of_decide_eq_true soon) ((due 1 0 hasty s run r member).2 t began)

end Col733.Lab2.Coordinator

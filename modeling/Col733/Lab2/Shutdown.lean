import Col733.Lab2.Exits
import Col733.Lab2.WordCount

/-!
# Word count under its coordinator

The mappers and reducers of word count together with the coordinator. A mapper that finds its
stream empty sends DONE, and every worker may send a heartbeat at any time. A datagram that has
been sent reaches the coordinator at any later time, any number of times, or never. The alarm
calls `monitor_health` at any time, as long as it finds no worker late: it would restart the
worker, and what a restarted one does, whose recovery is left to the reader of the repository,
is not followed. A mapper that is restarted would read its stream again although the coordinator
has heard that it is done, so this is a premise.
-/

namespace Col733.Lab2

open Coordinator

variable {m : Nat}

/-- The processes, and the datagrams that have been sent to the coordinator. -/
structure Cluster (m : Nat) where
  program : State m
  toCoordinator : List (List UInt8)
  coordinator : CoordinatorState

namespace Cluster

inductive Action (m : Nat) where
  | program (a : Lab2.Action m)
  | heartbeat (source : Fin m ⊕ Fin 2)
  | coordinator (a : Phases.Action)
  /-- `monitor_health`, when the clock reads `cur`. -/
  | monitor (cur : Int)

/-- What the coordinator does in a step, if anything. -/
def Action.own : Action m → Option Phases.Action
  | .coordinator a => some a
  | _ => none

/-- The `id` of a worker. -/
def sourceId : Fin m ⊕ Fin 2 → String
  | .inl i => mapperId i
  | .inr r => reducerId r

/-- `Message(msg_type, source)` without named values. -/
def report (msgType : MT) (source : Fin m ⊕ Fin 2) : Message where
  msgType := msgType
  source := .str (sourceId source)
  kwargs := Dict.empty

/-- The datagram of a step of the program: DONE, by a mapper that finds its stream empty. -/
def done (json : JsonModule) (program : State m) : Lab2.Action m → List (List UInt8)
  | .read i =>
    if (program.mappers i).isWcDone then ((report .done (.inl i)).serialize json).toList else []
  | _ => []

/-- `monitor_health` restarts no worker when the clock reads `cur`. -/
def allOnTime (workers : Dict String Worker) (cur : Int) : Bool :=
  workers.values.all fun ws => decide (cur - ws.lastHbRecvd ≤ heartbeatTimeout)

def step (int : Json → Option Int) (json : JsonModule) (streams : Fin m → Stream)
    (c : Cluster m) : Action m → Option (Cluster m)
  | .program a =>
    (Lab2.step json streams c.program a).map fun program =>
      { c with program, toCoordinator := c.toCoordinator ++ done json program a }
  | .heartbeat source =>
    some { c with
      toCoordinator := c.toCoordinator ++ ((report .heartbeat source).serialize json).toList }
  | .coordinator a =>
    match a with
    | .receive datagram _ =>
      if datagram ∈ c.toCoordinator then
        (Phases.step int json c.coordinator a).map fun coordinator => { c with coordinator }
      else none
    | _ => (Phases.step int json c.coordinator a).map fun coordinator => { c with coordinator }
  | .monitor cur => if allOnTime c.coordinator.workers cur then some c else none

def system (int : Json → Option Int) (json : JsonModule) (streams : Fin m → Stream) :
    System (Cluster m) (Action m) where
  init :=
    { program := State.initial m, toCoordinator := []
      coordinator := (Phases.system int json m 2).init }
  step := step int json streams

/-- Heartbeats and DONE fit into a datagram. -/
def Reports (json : JsonModule) (m : Nat) : Prop :=
  ∀ msgType ∈ [MT.heartbeat, MT.done], ∀ source : Fin m ⊕ Fin 2,
    4 + ((report msgType source).body json).length ≤ bufferSize

/-- What a datagram to the coordinator is: a message that is understood, and if it says that a
mapper is done, this one is. -/
def Truthful (int : Json → Option Int) (json : JsonModule) (program : State m)
    (datagram : List UInt8) : Prop :=
  ∃ message, Phases.read json datagram = some message ∧ Phases.Understood int m 2 message ∧
    ∀ i : Fin m, Phases.SaysDone i message → (program.mappers i).isWcDone = true

/-- The invariant of the runs, with the actions of the coordinator among those of the run. -/
structure Inv (int : Json → Option Int) (json : JsonModule) (streams : Fin m → Stream)
    (as : List (Action m)) (c : Cluster m) : Prop where
  refines : ∃ t, Refines json streams c.program t
  truthful : ∀ d ∈ c.toCoordinator, Truthful int json c.program d
  told : ∀ i : Fin m, (c.program.mappers i).isWcDone = true →
    ∃ d ∈ c.toCoordinator, ∃ message, Phases.read json d = some message ∧ Phases.SaysDone i message
  coordinator : Phases.Inv int json m 2 (as.filterMap Action.own) c.coordinator
  sent : ∀ d now, Action.coordinator (.receive d now) ∈ as → d ∈ c.toCoordinator

section Reports

variable {int : Json → Option Int} {json : JsonModule} {streams : Fin m → Stream}

theorem sourceId_eq (source : Fin m ⊕ Fin 2) :
    sourceId source = match source with
      | .inl i => mapperName i
      | .inr r => reducerName r := by
  cases source with
  | inl i => exact congrArg (· ++ toString i.val) (by decide : "Mapper_" = "Mapper" ++ "_")
  | inr r => exact congrArg (· ++ toString r.val) (by decide : "Reducer_" = "Reducer" ++ "_")

/-- A report arrives as it was sent. -/
theorem read_report (reports : Reports json m) {msgType : MT}
    (sent : msgType ∈ [MT.heartbeat, MT.done]) (source : Fin m ⊕ Fin 2) :
    ∃ frame, (report msgType source).serialize json = some frame ∧
      Phases.read json frame = some (report msgType source) := by
  have fits := reports msgType sent source
  unfold bufferSize at fits
  have small : ((report msgType source).body json).length < 4294967296 := by omega
  obtain ⟨frame, serialized⟩ := Message.serialize_of_lt small
  refine ⟨frame, serialized, ?_⟩
  have whole := Message.deserialize_whole serialized (n := 1020) (by omega)
  unfold Phases.read
  rw [whole]
  cases msgType <;> rfl

theorem understood_heartbeat (source : Fin m ⊕ Fin 2) :
    Phases.Understood int m 2 (report .heartbeat source) := by
  have listed : sourceId source ∈ (freshWorkers m 2).map fun ws => ws.id := by
    rw [ids_freshWorkers, sourceId_eq]
    cases source with
    | inl i => exact List.mem_append_left _ (List.mem_map_of_mem (List.mem_range.mpr i.isLt))
    | inr r => exact List.mem_append_right _ (List.mem_map_of_mem (List.mem_range.mpr r.isLt))
  obtain ⟨ws, made, same⟩ := List.mem_map.mp listed
  exact ⟨ws, made, congrArg Json.str same.symm⟩

theorem understood_done (i : Fin m) : Phases.Understood int m 2 (report .done (.inl i)) :=
  ⟨i, i.isLt, congrArg Json.str (sourceId_eq (.inl i))⟩

theorem saysDone_report {i : Fin m} {j : Nat} :
    Phases.SaysDone j (report .done (.inl i)) ↔ j = i := by
  unfold Phases.SaysDone report
  rw [sourceId_eq]
  constructor
  · rintro ⟨_, same⟩
    exact (Phases.mapperName_injective (Json.str.inj same)).symm
  · rintro rfl
    exact ⟨rfl, rfl⟩

end Reports

section Steps

variable {int : Json → Option Int} {json : JsonModule} {streams : Fin m → Stream}
  {as : List (Action m)} {c c' : Cluster m} {s s' : State m}

/-- Only `read` finds that a mapper is done, and only for one that was not. -/
theorem isWcDone_step {a : Lab2.Action m} (stepped : Lab2.step json streams s a = some s') (i : Fin m) :
    (s'.mappers i).isWcDone = (s.mappers i).isWcDone ∨
      a = .read i ∧ (s.mappers i).isWcDone = false := by
  have moves (j : Fin m) (st : MapperState) (kept : st.isWcDone = (s.mappers j).isWcDone) :
      (Function.update s.mappers j st i).isWcDone = (s.mappers i).isWcDone := by
    by_cases here : i = j
    · subst here
      rw [Function.update_self, kept]
    · rw [Function.update_of_ne here]
  cases a with
  | read j =>
    obtain ⟨st, isRead, rfl⟩ := Option.map_eq_some_iff.mp stepped
    by_cases here : i = j
    · subst here
      unfold MapperState.read at isRead
      split at isRead
      · cases isRead
      · rename_i idle
        exact .inr ⟨rfl, eq_false_of_ne_true (not_or.mp idle).1⟩
    · refine .inl (congrArg MapperState.isWcDone ?_)
      exact Function.update_of_ne here st s.mappers
  | send j =>
    obtain ⟨item, _, rfl⟩ := Option.map_eq_some_iff.mp stepped
    split
    · exact .inl (moves j _ rfl)
    · exact .inl (moves j _ rfl)
  | finish j =>
    obtain ⟨st, finished, rfl⟩ := Option.map_eq_some_iff.mp stepped
    obtain ⟨job, _, ended⟩ := Option.bind_eq_some_iff.mp finished
    split at ended
    · cases ended
      exact .inl (moves j _ rfl)
    · cases ended
  | deliver j r k =>
    simp only [Lab2.step] at stepped
    split at stepped
    · cases stepped
      exact .inl rfl
    · cases stepped
  | enqueue j r =>
    simp only [Lab2.step] at stepped
    split at stepped
    · split at stepped <;> cases stepped <;> exact .inl rfl
    · cases stepped
  | handle r =>
    simp only [Lab2.step] at stepped
    split at stepped
    · cases stepped
    · obtain ⟨state, _, rfl⟩ := Option.map_eq_some_iff.mp stepped
      exact .inl rfl

theorem isWcDone_kept {a : Lab2.Action m} (stepped : Lab2.step json streams s a = some s') (i : Fin m)
    (isDone : (s.mappers i).isWcDone = true) : (s'.mappers i).isWcDone = true := by
  rcases isWcDone_step stepped i with same | ⟨_, before⟩
  · rw [same, isDone]
  · rw [isDone] at before
    cases before

theorem Truthful.mono {d : List UInt8} (truthful : Truthful int json s d)
    (kept : ∀ i, (s.mappers i).isWcDone = true → (s'.mappers i).isWcDone = true) :
    Truthful int json s' d := by
  obtain ⟨message, isRead, understood, isDone⟩ := truthful
  exact ⟨message, isRead, understood, fun i saying => kept i (isDone i saying)⟩

/-- The datagram of a step tells what the step has done. -/
theorem truthful_done (reports : Reports json m) {a : Lab2.Action m} {d : List UInt8}
    (sent : d ∈ done json s a) : Truthful int json s d := by
  unfold done at sent
  split at sent
  · rename_i i
    split at sent
    · rename_i isDone
      obtain ⟨frame, serialized, isRead⟩ := read_report reports
        (by decide : MT.done ∈ [MT.heartbeat, MT.done]) (.inl i)
      rw [serialized, Option.toList_some, List.mem_singleton] at sent
      subst sent
      refine ⟨_, isRead, understood_done i, fun j saying => ?_⟩
      rw [Fin.ext (saysDone_report.mp saying)]
      exact isDone
    · cases sent
  · cases sent

/-- Whoever becomes done says so. -/
theorem exists_done (reports : Reports json m) {a : Lab2.Action m} {i : Fin m}
    (stepped : Lab2.step json streams s a = some s') (before : (s.mappers i).isWcDone = false)
    (isDone : (s'.mappers i).isWcDone = true) :
    ∃ d ∈ done json s' a, ∃ message, Phases.read json d = some message ∧
      Phases.SaysDone i message := by
  rcases isWcDone_step stepped i with same | ⟨rfl, _⟩
  · rw [same, before] at isDone
    cases isDone
  · obtain ⟨frame, serialized, isRead⟩ := read_report reports
      (by decide : MT.done ∈ [MT.heartbeat, MT.done]) (.inl i)
    refine ⟨frame, ?_, _, isRead, saysDone_report.mpr rfl⟩
    simp only [done, isDone, if_true, serialized, Option.toList_some, List.mem_singleton]

theorem inv_init (some_ : 0 < m) : Inv int json streams [] (system int json streams).init where
  refines := ⟨_, refines_initial⟩
  truthful := by rintro d ⟨⟩
  told := by rintro i ⟨⟩
  coordinator := Phases.inv_init some_
  sent := by rintro d now ⟨⟩

/-- More datagrams have been sent, and the coordinator stands where it stood. -/
theorem inv_of_sent {a : Action m} (inv : Inv int json streams as c)
    (other : ∀ b, a ≠ .coordinator b) {program : State m} {more : List (List UInt8)}
    (refines : ∃ t, Refines json streams program t)
    (kept : ∀ i, (c.program.mappers i).isWcDone = true → (program.mappers i).isWcDone = true)
    (truthful : ∀ d ∈ more, Truthful int json program d)
    (told : ∀ i : Fin m, (program.mappers i).isWcDone = true →
      (c.program.mappers i).isWcDone = true ∨
        ∃ d ∈ more, ∃ message, Phases.read json d = some message ∧ Phases.SaysDone i message) :
    Inv int json streams (as ++ [a])
      { c with program, toCoordinator := c.toCoordinator ++ more } where
  refines := refines
  truthful d member := by
    rcases List.mem_append.mp member with before | new
    · exact (inv.truthful d before).mono kept
    · exact truthful d new
  told i isDone := by
    rcases told i isDone with before | ⟨d, new, saying⟩
    · obtain ⟨d, sent, saying⟩ := inv.told i before
      exact ⟨d, List.mem_append_left _ sent, saying⟩
    · exact ⟨d, List.mem_append_right _ new, saying⟩
  coordinator := by
    rw [List.filterMap_append]
    cases a with
    | program a =>
      rw [List.filterMap_cons_none rfl, List.filterMap_nil, List.append_nil]
      exact inv.coordinator
    | heartbeat source =>
      rw [List.filterMap_cons_none rfl, List.filterMap_nil, List.append_nil]
      exact inv.coordinator
    | monitor cur =>
      rw [List.filterMap_cons_none rfl, List.filterMap_nil, List.append_nil]
      exact inv.coordinator
    | coordinator b => exact absurd rfl (other b)
  sent d now member := by
    rcases List.mem_append.mp member with before | last
    · exact List.mem_append_left _ (inv.sent d now before)
    · exact absurd (List.mem_singleton.mp last).symm (other _)

/-- The coordinator moves, on a datagram that has been sent if it receives one. -/
theorem inv_of_coordinator {b : Phases.Action} (inv : Inv int json streams as c)
    {coordinator : CoordinatorState}
    (stepped : Phases.step int json c.coordinator b = some coordinator)
    (sent : ∀ d now, b = .receive d now → d ∈ c.toCoordinator) :
    Inv int json streams (as ++ [.coordinator b]) { c with coordinator } where
  refines := inv.refines
  truthful := inv.truthful
  told := inv.told
  coordinator := by
    rw [List.filterMap_append]
    exact Phases.inv_step inv.coordinator stepped
  sent d now member := by
    rcases List.mem_append.mp member with before | last
    · exact inv.sent d now before
    · exact sent d now (Action.coordinator.inj (List.mem_singleton.mp last)).symm

theorem inv_step (short : Short json streams) (reports : Reports json m) {a : Action m}
    (inv : Inv int json streams as c) (stepped : step int json streams c a = some c') :
    Inv int json streams (as ++ [a]) c' := by
  cases a with
  | program a =>
    obtain ⟨program, moved, rfl⟩ := Option.map_eq_some_iff.mp stepped
    obtain ⟨t, refines⟩ := inv.refines
    obtain ⟨t', _, refines', _⟩ := (simulation short).step refines moved
    refine inv_of_sent inv (by rintro b ⟨⟩) ⟨t', refines'⟩ (isWcDone_kept moved)
      (fun d sent => truthful_done reports sent) fun i isDone => ?_
    cases before : (c.program.mappers i).isWcDone with
    | true => exact .inl rfl
    | false => exact .inr (exists_done reports moved before isDone)
  | heartbeat source =>
    cases stepped
    obtain ⟨frame, serialized, isRead⟩ := read_report reports
      (by decide : MT.heartbeat ∈ [MT.heartbeat, MT.done]) source
    rw [serialized]
    refine inv_of_sent inv (by rintro b ⟨⟩) inv.refines (fun _ => id) ?_ fun _ => .inl
    intro d sent
    rw [List.mem_singleton.mp sent]
    refine ⟨_, isRead, understood_heartbeat source, fun i saying => ?_⟩
    cases saying.1
  | coordinator b =>
    cases b with
    | receive datagram now =>
      simp only [step] at stepped
      split at stepped
      · rename_i sent
        obtain ⟨coordinator, moved, rfl⟩ := Option.map_eq_some_iff.mp stepped
        refine inv_of_coordinator inv moved ?_
        rintro d now ⟨⟩
        exact sent
      · cases stepped
    | put | poll | exit raised =>
      obtain ⟨coordinator, moved, rfl⟩ := Option.map_eq_some_iff.mp stepped
      exact inv_of_coordinator inv moved (by rintro d now ⟨⟩)
  | monitor cur =>
    simp only [step] at stepped
    split at stepped
    · cases stepped
      have nothing : ∀ d ∈ ([] : List (List UInt8)), Truthful int json c.program d :=
        List.forall_mem_nil _
      have other : ∀ b, (Action.monitor cur : Action m) ≠ .coordinator b := by rintro b ⟨⟩
      have kept := inv_of_sent inv other inv.refines (fun _ => id) nothing fun _ => .inl
      rwa [List.append_nil] at kept
    · cases stepped

theorem inv_run (some_ : 0 < m) (short : Short json streams) (reports : Reports json m)
    (run : (system int json streams).Run as c) : Inv int json streams as c :=
  System.run_induction (P := Inv int json streams) (inv_init some_)
    (fun _ _ _ _ _ inv stepped => inv_step short reports inv stepped) run

theorem of_mem_own {b : Phases.Action} (member : b ∈ as.filterMap Action.own) :
    Action.coordinator b ∈ as := by
  obtain ⟨a, inside, same⟩ := List.mem_filterMap.mp member
  unfold Action.own at same
  split at same
  · cases same
    exact inside
  · cases same

/-- Only understood datagrams are ever received. -/
theorem Inv.not_puzzled (inv : Inv int json streams as c) :
    ¬ Phases.Puzzled int json m 2 (as.filterMap Action.own) := by
  rintro ⟨d, now, member, strange⟩
  obtain ⟨message, isRead, understood, _⟩ := inv.truthful d (inv.sent d now (of_mem_own member))
  exact strange ⟨message, isRead, understood⟩

/-- A DONE that has been received is true. -/
theorem Inv.isWcDone_of_heard (inv : Inv int json streams as c) (i : Fin m)
    (heard : Phases.Heard json (as.filterMap Action.own)
      (Phases.SaysDone i)) : (c.program.mappers i).isWcDone = true := by
  obtain ⟨d, now, message, member, isRead, saying⟩ := heard
  obtain ⟨message', isRead', _, isDone⟩ := inv.truthful d (inv.sent d now (of_mem_own member))
  cases isRead.symm.trans isRead'
  exact isDone i saying

end Steps

/-- In every run of the mappers, the reducers and the coordinator, with every order of datagrams,
as long as no worker is restarted: both threads of the coordinator stay alive; from the moment
on that the last phase begins or an EXIT is sent, all mappers have read their streams to the end
and have sent all their counts; and when all are done and each datagram has been received once,
the last phase has begun. -/
theorem exits_after_all_read (int : Json → Option Int) (json : JsonModule) (streams : Fin m → Stream)
    (some_ : 0 < m) (short : Short json streams) (reports : Reports json m) {as : List (Action m)}
    {c : Cluster m} (run : (system int json streams).Run as c) :
    c.coordinator.recv ≠ .died ∧ c.coordinator.send ≠ .died ∧
      (c.coordinator.phase = .exiting ∨ c.coordinator.sent ≠ [] ∨ c.coordinator.killed = true →
        ∀ i, (c.program.mappers i).isWcDone = true ∧
          ∀ w, (c.program.mappers i).sent (streams i) w = (streams i).occurrences w) ∧
      ((∀ i, (c.program.mappers i).isWcDone = true) →
        (∀ d ∈ c.toCoordinator, ∃ now, Action.coordinator (.receive d now) ∈ as) →
          c.coordinator.phase = .exiting) := by
  have inv := inv_run some_ short reports run
  have sending := inv.coordinator.sending
  unfold Phases.Sending at sending
  refine ⟨?_, ?_, fun begun => ?_, fun all received => ?_⟩
  · intro died
    exact inv.not_puzzled (inv.coordinator.died.mp died)
  · intro died
    rw [died] at sending
    exact sending
  · have exiting : c.coordinator.phase = .exiting := by
      rcases begun with last | begun
      · exact last
      · split at sending
        · rw [sending.1, sending.2] at begun
          exact begun.elim (absurd rfl) fun killed => absurd killed Bool.false_ne_true
        · exact sending.1
        · exact sending.elim
    intro i
    have heard := (inv.coordinator.done i i.isLt).mp (inv.coordinator.exiting.mp exiting i i.isLt)
    have isDone := inv.isWcDone_of_heard i heard
    obtain ⟨t, refines⟩ := inv.refines
    have valid := refines.inv.mappers i
    rw [← refines.mappers] at valid
    exact ⟨isDone, Words.sent_of_done valid isDone⟩
  · rw [inv.coordinator.exiting]
    intro i below
    rw [inv.coordinator.done i below]
    obtain ⟨d, sent, message, isRead, saying⟩ := inv.told ⟨i, below⟩ (all ⟨i, below⟩)
    obtain ⟨now, member⟩ := received d sent
    exact ⟨d, now, message, List.mem_filterMap.mpr ⟨_, member, rfl⟩, isRead, saying⟩

/-- Two mappers read their streams, and both say so before the words have arrived. -/
def early : List (Action 2) :=
  let first : Fin 2 := ⟨0, Nat.zero_lt_two⟩
  let second : Fin 2 := ⟨1, Nat.one_lt_two⟩
  [.program (.read first), .program (.read second), .program (.send first), .program (.send second),
    .program (.send first), .program (.finish first), .program (.read first), .heartbeat (.inr first),
    .program (.finish second), .program (.read second), .monitor 1,
    .coordinator (.receive (Phases.datagramOf .done "Mapper_1") 1),
    .coordinator (.receive (Phases.datagramOf .done "Mapper_0") 1)]

theorem exits_after_all_read_early :
    ∃ c, (system (fun | .int n => some n | _ => none) Json.objectModule twoStreams).Run early c ∧
      c.coordinator.phase = .exiting ∧
      ∀ i w, (c.program.mappers i).sent (twoStreams i) w = (twoStreams i).occurrences w := by
  have goes : ((system (fun | .int n => some n | _ => none) Json.objectModule twoStreams).runFrom
      (system (fun | .int n => some n | _ => none) Json.objectModule twoStreams).init early).any
        (fun c => c.coordinator.phase == .exiting) = true := by decide +kernel
  obtain ⟨c, run, exiting⟩ := (Option.any_eq_true _ _).mp goes
  have short : Short Json.objectModule twoStreams := by
    unfold Short
    decide +kernel
  have reports : Reports Json.objectModule 2 := by
    rintro msgType sent (i | r)
    · revert msgType i
      decide +kernel
    · revert msgType r
      decide +kernel
  have last := beq_iff_eq.mp exiting
  have spec := exits_after_all_read _ Json.objectModule twoStreams Nat.two_pos short reports run
  exact ⟨c, run, last, fun i w => (spec.2.2.1 (.inl last) i).2 w⟩

end Cluster

end Col733.Lab2

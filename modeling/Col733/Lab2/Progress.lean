import Col733.Lab2.WordCount
import Col733.Misc.Progress

/-!
# Word count comes to its end

Nothing in the program waits for what cannot come: as long as a stream has entries or bytes
are under way, some thread can move. Every item costs one `sendall`, at most 1024 calls of
`recv`, one frame and one command, and every file is read and done once, so the number of
steps is bounded. Only a word without a socket would keep a mapper at its file for ever.
-/

namespace Col733.Lab2

open scoped BigOperators

variable {m : Nat}

/-- Every word of the streams has a socket: no file has an empty token. -/
def Routable (streams : Fin m → Stream) : Prop :=
  ∀ i, ∀ e ∈ (streams i).entries, ∀ item ∈ e.counts, word2Socket item.1 ≠ none

/-- The steps that an entry takes at most: it is read and done, and each item is sent,
received byte by byte, queued and handled. -/
def Entry.work (e : Entry) : Nat := 1027 * e.counts.length + 2

/-- The steps for the entries after an id. -/
def Stream.workAfter (stream : Stream) (lastId : Nat) : Nat :=
  ((stream.entries.filter fun e => lastId < e.id).map Entry.work).sum

/-- The steps for what a mapper has not sent yet. -/
def MapperState.ahead (stream : Stream) (st : MapperState) : Nat :=
  (if st.isWcDone then 0 else 1) +
    st.job.elim (stream.workAfter st.lastStreamId) fun job =>
      stream.workAfter job.entry.id + (1027 * (job.entry.counts.length - job.next) + 1)

/-- The steps for what is under way on a connection. -/
def Conn.ahead (conn : Conn) : Nat :=
  conn.wire.length + 2 * ((conn.got.length + conn.wire.length) / 1024)

/-- The steps that the program still takes at most. -/
def State.ahead (streams : Fin m → Stream) (s : State m) : Nat :=
  ∑ i, (s.mappers i).ahead (streams i) + ∑ c, (s.conns c).ahead +
    ∑ r, (s.reducers r).cmdQ.length

/-- The steps for all files, and one for the end of each stream. -/
def totalWork (streams : Fin m → Stream) : Nat :=
  ∑ i, (1 + ((streams i).entries.map Entry.work).sum)

/-- What holds in every state that is reached: it stands for one over channels of words, and
no mapper is beyond the items of its file. -/
structure Sound (json : JsonModule) (streams : Fin m → Stream) (s : State m) : Prop where
  refines : ∃ t, Refines json streams s t
  within : ∀ i job, (s.mappers i).job = some job → job.next ≤ job.entry.counts.length

namespace Stream

variable {stream : Stream} {lastId : Nat} {e : Entry}

theorem filter_after_of_find? {entries : List Entry}
    (increasing : (entries.map Entry.id).Pairwise (· < ·))
    (read : (entries.find? fun e => lastId < e.id) = some e) :
    (entries.filter fun x => lastId < x.id) = e :: entries.filter fun x => e.id < x.id := by
  induction entries with
  | nil => cases read
  | cons first entries ih =>
    rw [List.map_cons, List.pairwise_cons] at increasing
    by_cases next : lastId < first.id
    · rw [List.find?_cons_of_pos (by simpa using next)] at read
      cases read
      have later : ∀ x ∈ entries, e.id < x.id := fun x member =>
        increasing.1 x.id (List.mem_map_of_mem member)
      have all (bound : Nat) (small : bound ≤ e.id) :
          (entries.filter fun x => bound < x.id) = entries := by
        rw [List.filter_eq_self]
        intro x member
        exact decide_eq_true (Nat.lt_of_le_of_lt small (later x member))
      rw [List.filter_cons_of_pos (by simpa using next), List.filter_cons_of_neg (by simp),
        all lastId (Nat.le_of_lt next), all e.id (Nat.le_refl _)]
    · rw [List.find?_cons_of_neg (by simpa using next)] at read
      have after := List.find?_some read
      simp only [decide_eq_true_eq] at after
      rw [List.filter_cons_of_neg (by simpa using next),
        List.filter_cons_of_neg (by simp only [decide_eq_true_eq]; omega),
        ih increasing.2 read]

/-- The entry that is read is the first of those after the id. -/
theorem workAfter_xread (read : stream.xread lastId = some e) :
    stream.workAfter lastId = e.work + stream.workAfter e.id := by
  have after := List.find?_some read
  simp only [decide_eq_true_eq] at after
  unfold workAfter
  rw [filter_after_of_find? stream.increasing read, List.map_cons, List.sum_cons]

theorem workAfter_zero : stream.workAfter 0 = (stream.entries.map Entry.work).sum := by
  have all : (stream.entries.filter fun e => 0 < e.id) = stream.entries := by
    rw [List.filter_eq_self]
    intro e member
    exact decide_eq_true (stream.positive e member)
  rw [workAfter, all]

end Stream

section Steps

variable {json : JsonModule} {streams : Fin m → Stream} {s s' : State m} {i : Fin m} {r : Fin 2}
  {st : MapperState} {a : Action m}

/-- A mapper moves. -/
theorem ahead_setMapper (less : st.ahead (streams i) + 1 ≤ (s.mappers i).ahead (streams i)) :
    (s.setMapper i st).ahead streams + 1 ≤ s.ahead streams := by
  have total := natSum_update (fun i st => MapperState.ahead (streams i) st) s.mappers i st
  unfold State.ahead State.setMapper
  dsimp only
  omega

theorem ahead_read (read : (s.mappers i).read (streams i) = some st) :
    st.ahead (streams i) + 1 ≤ (s.mappers i).ahead (streams i) := by
  unfold MapperState.read at read
  split at read
  · cases read
  · rename_i idle
    obtain ⟨busy, free⟩ := not_or.mp idle
    rw [Bool.not_eq_true, Option.isSome_eq_false_iff, Option.isNone_iff_eq_none] at free
    split at read
    · cases read
      unfold MapperState.ahead
      rw [free, if_pos rfl, if_neg busy]
      dsimp only [Option.elim_none]
      omega
    · rename_i entry found
      cases read
      unfold MapperState.ahead
      rw [free, if_neg busy]
      dsimp only [Option.elim_none, Option.elim_some]
      rw [Stream.workAfter_xread found, Entry.work]
      omega

theorem ahead_finish (finished : (s.mappers i).finish = some st) :
    st.ahead (streams i) + 1 ≤ (s.mappers i).ahead (streams i) := by
  obtain ⟨job, running, ended⟩ := Option.bind_eq_some_iff.mp finished
  split at ended
  · cases ended
    unfold MapperState.ahead
    rw [running]
    dsimp only [Option.elim_none, Option.elim_some]
    omega
  · cases ended

/-- Another item is sent, but no file is done before all of its items are. -/
theorem ahead_advance {item : String × Int} (standing : (s.mappers i).item? = some item) :
    (s.mappers i).advance.ahead (streams i) + 1027 = (s.mappers i).ahead (streams i) := by
  obtain ⟨job, running, here⟩ := MapperState.item?_eq_some standing
  obtain ⟨inside, _⟩ := List.getElem?_eq_some_iff.mp here
  unfold MapperState.ahead MapperState.advance
  rw [running]
  dsimp only [Option.map_some, Option.elim_some]
  omega

/-- A message of 1024 bytes is sent. -/
theorem ahead_send {item : String × Int} {frame : List UInt8}
    (standing : (s.mappers i).item? = some item) (whole : frame.length = 1024) :
    (((s.setMapper i (s.mappers i).advance).setConn i r
      { s.conns (i, r) with wire := (s.conns (i, r)).wire ++ frame }).ahead streams) + 1 ≤
        s.ahead streams := by
  have mappers := natSum_update (fun i st => MapperState.ahead (streams i) st) s.mappers i
    (s.mappers i).advance
  have conns := natSum_update (fun _ conn => Conn.ahead conn) s.conns (i, r)
    { s.conns (i, r) with wire := (s.conns (i, r)).wire ++ frame }
  have item : (s.mappers i).advance.ahead (streams i) + 1027 = (s.mappers i).ahead (streams i) :=
    ahead_advance standing
  have room : ((s.conns (i, r)).got.length + ((s.conns (i, r)).wire.length + 1024)) / 1024 =
      ((s.conns (i, r)).got.length + (s.conns (i, r)).wire.length) / 1024 + 1 := by omega
  unfold Conn.ahead at conns
  rw [List.length_append, whole, room] at conns
  unfold State.ahead State.setMapper State.setConn Conn.ahead
  dsimp only at conns ⊢
  omega

/-- Some bytes arrive. -/
theorem ahead_deliver {k : Nat} (some_ : 0 < k) (available : k ≤ (s.conns (i, r)).wire.length) :
    (s.setConn i r { s.conns (i, r) with
      wire := (s.conns (i, r)).wire.drop k
      got := (s.conns (i, r)).got ++ (s.conns (i, r)).wire.take k }).ahead streams + 1 ≤
        s.ahead streams := by
  have conns := natSum_update (fun _ conn => Conn.ahead conn) s.conns (i, r)
    { s.conns (i, r) with
      wire := (s.conns (i, r)).wire.drop k
      got := (s.conns (i, r)).got ++ (s.conns (i, r)).wire.take k }
  have all : ((s.conns (i, r)).got.length + k) + ((s.conns (i, r)).wire.length - k) =
      (s.conns (i, r)).got.length + (s.conns (i, r)).wire.length := by omega
  unfold Conn.ahead at conns
  rw [List.length_append, List.length_drop, List.length_take_of_le available, all] at conns
  unfold State.ahead State.setConn Conn.ahead
  dsimp only at conns ⊢
  omega

/-- A message is taken from the connection, and its command is queued. -/
theorem ahead_enqueue {command : WC} (received : (s.conns (i, r)).got.length = 1024) :
    ((s.setConn i r { s.conns (i, r) with got := [] }).setReducer r
      { s.reducers r with cmdQ := (s.reducers r).cmdQ ++ [command] }).ahead streams + 1 ≤
        s.ahead streams := by
  have conns := natSum_update (fun _ conn => Conn.ahead conn) s.conns (i, r)
    { s.conns (i, r) with got := [] }
  have queues := natSum_update (fun _ (reducer : Reducer) => reducer.cmdQ.length) s.reducers r
    { s.reducers r with cmdQ := (s.reducers r).cmdQ ++ [command] }
  have room : (1024 + (s.conns (i, r)).wire.length) / 1024 =
      (s.conns (i, r)).wire.length / 1024 + 1 := by omega
  unfold Conn.ahead at conns
  rw [received, room, List.length_nil, Nat.zero_add] at conns
  rw [List.length_append, List.length_singleton] at queues
  unfold State.ahead State.setConn State.setReducer Conn.ahead
  dsimp only at conns queues ⊢
  omega

/-- A command is handled. -/
theorem ahead_handle {wc : WC} {rest : List WC} {state : ReducerState}
    (waiting : (s.reducers r).cmdQ = wc :: rest) :
    (s.setReducer r { state, cmdQ := rest }).ahead streams + 1 ≤ s.ahead streams := by
  have queues := natSum_update (fun _ (reducer : Reducer) => reducer.cmdQ.length) s.reducers r
    { state, cmdQ := rest }
  rw [waiting, List.length_cons] at queues
  unfold State.ahead State.setReducer
  dsimp only at queues ⊢
  omega

/-- Every step brings the program nearer to its end. -/
theorem ahead_step (short : Short json streams) (routable : Routable streams)
    (sound : Sound json streams s) (moved : step json streams s a = some s') :
    s'.ahead streams + 1 ≤ s.ahead streams := by
  obtain ⟨t, refines⟩ := sound.refines
  cases a with
  | read i =>
    obtain ⟨st, read, rfl⟩ := Option.map_eq_some_iff.mp moved
    exact ahead_setMapper (ahead_read read)
  | send i =>
    obtain ⟨item, standing, rfl⟩ := Option.map_eq_some_iff.mp moved
    have there : (t.mappers i).item? = some item := by rw [← refines.mappers, standing]
    obtain ⟨e, next, counted⟩ := MapperState.mem_of_item? there (refines.inv.mappers i)
    obtain ⟨r, routed⟩ := Option.ne_none_iff_exists'.mp
      (routable i e (Stream.mem_of_xread next) item counted)
    obtain ⟨frame, transmitted, serialized, fits⟩ := transmit_of_routed short refines there routed
    rw [transmitted]
    exact ahead_send standing (length_of_fits serialized fits)
  | finish i =>
    obtain ⟨st, finished, rfl⟩ := Option.map_eq_some_iff.mp moved
    exact ahead_setMapper (ahead_finish finished)
  | deliver i r k =>
    simp only [step] at moved
    split at moved
    · rename_i guard
      cases moved
      exact ahead_deliver guard.2.1 guard.2.2.1
    · cases moved
  | enqueue i r =>
    simp only [step] at moved
    split at moved
    · rename_i guard
      obtain ⟨item, rest, _, read, _⟩ := (refines.conns (i, r)).whole guard.2
      rw [read] at moved
      cases moved
      exact ahead_enqueue guard.2
    · cases moved
  | handle r =>
    simp only [step] at moved
    split at moved
    · cases moved
    · rename_i wc rest waiting
      obtain ⟨state, handled, rfl⟩ := Option.map_eq_some_iff.mp moved
      exact ahead_handle waiting

end Steps

section Runs

variable {json : JsonModule} {streams : Fin m → Stream} {s s' : State m} {a : Action m}

theorem sound_initial : Sound json streams (State.initial m) where
  refines := ⟨_, refines_initial⟩
  within := by rintro i job ⟨⟩

/-- A mapper that moves stays within its file. -/
theorem within_setMapper (within : ∀ i job, (s.mappers i).job = some job →
      job.next ≤ job.entry.counts.length) {i : Fin m} {st : MapperState}
    (here : ∀ job, st.job = some job → job.next ≤ job.entry.counts.length) (j : Fin m) (job : Job)
    (running : ((s.setMapper i st).mappers j).job = some job) :
    job.next ≤ job.entry.counts.length := by
  exact System.holds_update (P := fun (_ : Fin m) (st : MapperState) => ∀ job, st.job = some job →
    job.next ≤ job.entry.counts.length) within here j job running

theorem within_read {stream : Stream} {st st' : MapperState} (read : st.read stream = some st')
    (job : Job) (running : st'.job = some job) : job.next ≤ job.entry.counts.length := by
  unfold MapperState.read at read
  split at read
  · cases read
  · rename_i idle
    split at read
    · cases read
      exact absurd (Option.isSome_iff_exists.mpr ⟨job, running⟩) (not_or.mp idle).2
    · cases read
      cases running
      exact Nat.zero_le _

theorem within_advance {st : MapperState} {item : String × Int} (standing : st.item? = some item)
    (job : Job) (running : st.advance.job = some job) : job.next ≤ job.entry.counts.length := by
  obtain ⟨before, ran, here⟩ := MapperState.item?_eq_some standing
  rw [MapperState.advance, ran] at running
  cases running
  exact (List.getElem?_eq_some_iff.mp here).1

theorem within_finish {st st' : MapperState} (finished : st.finish = some st') (job : Job)
    (running : st'.job = some job) : job.next ≤ job.entry.counts.length := by
  obtain ⟨before, _, ended⟩ := Option.bind_eq_some_iff.mp finished
  split at ended
  · cases ended
    cases running
  · cases ended

theorem within_step (sound : Sound json streams s) (moved : step json streams s a = some s')
    (i : Fin m) (job : Job) (running : (s'.mappers i).job = some job) :
    job.next ≤ job.entry.counts.length := by
  cases a with
  | read j =>
    obtain ⟨st, read, rfl⟩ := Option.map_eq_some_iff.mp moved
    exact within_setMapper sound.within (within_read read) i job running
  | send j =>
    obtain ⟨item, standing, rfl⟩ := Option.map_eq_some_iff.mp moved
    revert running
    split
    · exact within_setMapper sound.within (within_advance standing) i job
    · apply within_setMapper sound.within _ i job
      rintro job ⟨⟩
  | finish j =>
    obtain ⟨st, finished, rfl⟩ := Option.map_eq_some_iff.mp moved
    exact within_setMapper sound.within (within_finish finished) i job running
  | deliver j r k =>
    simp only [step] at moved
    split at moved
    · cases moved
      exact sound.within i job running
    · cases moved
  | enqueue j r =>
    simp only [step] at moved
    split at moved
    · split at moved
      · cases moved
        exact sound.within i job running
      · cases moved
        exact sound.within i job running
    · cases moved
  | handle r =>
    simp only [step] at moved
    split at moved
    · cases moved
    · obtain ⟨state, _, rfl⟩ := Option.map_eq_some_iff.mp moved
      exact sound.within i job running

theorem sound_step (short : Short json streams) (sound : Sound json streams s)
    (moved : step json streams s a = some s') : Sound json streams s' where
  refines := by
    obtain ⟨t, refines⟩ := sound.refines
    obtain ⟨t', _, refines', _⟩ := (simulation short).step refines moved
    exact ⟨t', refines'⟩
  within := within_step sound moved

theorem sound_run (short : Short json streams) {as : List (Action m)}
    (run : (system json streams).Run as s) : Sound json streams s :=
  System.run_invariant (S := system json streams) sound_initial
    (fun _ _ _ sound moved => sound_step short sound moved) run

/-- A mapper that is not done can go on. -/
theorem exists_step_of_not_done (sound : Sound json streams s) {i : Fin m}
    (busy : (s.mappers i).isWcDone = false) : ∃ a s', step json streams s a = some s' := by
  cases running : (s.mappers i).job with
  | none =>
    have idle : ¬ ((s.mappers i).isWcDone = true ∨ (s.mappers i).job.isSome = true) := by
      rw [busy, running]
      decide
    refine ⟨.read i, ?_⟩
    simp only [step, MapperState.read, if_neg idle]
    cases (streams i).xread (s.mappers i).lastStreamId with
    | none => exact ⟨_, rfl⟩
    | some entry => exact ⟨_, rfl⟩
  | some job =>
    rcases Nat.lt_or_eq_of_le (sound.within i job running) with inside | ended
    · have standing : (s.mappers i).item? = some (job.entry.counts[job.next]) := by
        unfold MapperState.item?
        rw [running]
        exact List.getElem?_eq_getElem inside
      exact ⟨.send i, _, Option.map_eq_some_iff.mpr ⟨_, standing, rfl⟩⟩
    · have finished : (s.mappers i).finish =
          some { s.mappers i with lastStreamId := job.entry.id, job := none } := by
        unfold MapperState.finish
        rw [running]
        exact if_pos ended
      exact ⟨.finish i, _, Option.map_eq_some_iff.mpr ⟨_, finished, rfl⟩⟩

/-- The bytes on a connection are whole messages. -/
theorem Conn.Carries.length_eq {source : String} {conn : Conn} {items : List (String × Int)}
    (carries : conn.Carries json source items) :
    conn.got.length + conn.wire.length = 1024 * items.length := by
  obtain ⟨_, _, stream, fits⟩ := carries
  rw [← List.length_append]
  generalize conn.got ++ conn.wire = bytes at stream
  induction items generalizing bytes with
  | nil =>
    cases stream
    rfl
  | cons item rest ih =>
    obtain ⟨frame, more, serialized, later, rfl⟩ := sendAll_cons stream
    rw [List.length_append, length_of_fits serialized (fits item List.mem_cons_self),
      ih (fun other member => fits other (List.mem_cons_of_mem _ member)) more later,
      List.length_cons]
    omega

/-- A connection that is not drained has bytes to deliver, or a message to take. -/
theorem exists_step_of_conn (sound : Sound json streams s) {c : Fin m × Fin 2}
    (more : ¬ ((s.conns c).wire = [] ∧ (s.conns c).got = [])) :
    ∃ a s', step json streams s a = some s' := by
  obtain ⟨t, refines⟩ := sound.refines
  obtain ⟨i, r⟩ := c
  have carries := refines.conns (i, r)
  have length := carries.length_eq
  have piece := carries.piece
  by_cases received : (s.conns (i, r)).got.length = 1024
  · obtain ⟨item, rest, _, read, _⟩ := carries.whole received
    refine ⟨.enqueue i r, Option.isSome_iff_exists.mp ?_⟩
    simp only [step]
    rw [if_pos ⟨carries.isOpen, received⟩, read]
    rfl
  · have waiting : 0 < (s.conns (i, r)).wire.length := by
      rw [← List.length_eq_zero_iff, ← List.length_eq_zero_iff] at more
      omega
    refine ⟨.deliver i r 1, Option.isSome_iff_exists.mp ?_⟩
    simp only [step]
    rw [if_pos ⟨carries.isOpen, Nat.zero_lt_one, waiting, by omega⟩]
    rfl

/-- A command that is queued is handled. -/
theorem exists_step_of_queue (sound : Sound json streams s) {r : Fin 2}
    (waiting : (s.reducers r).cmdQ.length ≠ 0) : ∃ a s', step json streams s a = some s' := by
  obtain ⟨t, refines⟩ := sound.refines
  have queue : (s.reducers r).cmdQ = _ := refines.queue r
  have state : (s.reducers r).state = _ := refines.state r
  cases items : t.queue r with
  | nil =>
    rw [queue, items] at waiting
    exact absurd rfl waiting
  | cons item rest =>
    rw [items, List.map_cons] at queue
    refine ⟨.handle r, Option.isSome_iff_exists.mp ?_⟩
    simp only [step]
    rw [queue, state]
    rfl

/-- Only when everything is done and drained, nothing can be done. -/
theorem exists_step (sound : Sound json streams s) (busy : ¬ s.Quiet) :
    ∃ a s', step json streams s a = some s' := by
  by_cases done : ∀ i, (s.mappers i).isWcDone = true
  · by_cases conns : ∀ c, (s.conns c).wire = [] ∧ (s.conns c).got = []
    · obtain ⟨r, waiting⟩ := not_forall.mp fun queue => busy ⟨done, conns, queue⟩
      exact exists_step_of_queue sound waiting
    · obtain ⟨c, more⟩ := not_forall.mp conns
      exact exists_step_of_conn sound more
  · obtain ⟨i, working⟩ := not_forall.mp done
    exact exists_step_of_not_done sound (eq_false_of_ne_true working)

/-- A mapper that is done has no file open. -/
theorem job_of_done (sound : Sound json streams s) {i : Fin m}
    (done : (s.mappers i).isWcDone = true) : (s.mappers i).job = none := by
  obtain ⟨t, refines⟩ := sound.refines
  have valid := refines.inv.mappers i
  rw [← refines.mappers] at valid
  cases running : (s.mappers i).job with
  | none => rfl
  | some job =>
    have next := valid.next job running
    rw [valid.done done] at next
    cases next

theorem step_of_quiet (sound : Sound json streams s) (quiet : s.Quiet) :
    step json streams s a = none := by
  cases a with
  | read i =>
    simp only [step, MapperState.read, quiet.done i, true_or, if_true, Option.map_none]
  | send i =>
    simp only [step, MapperState.item?, job_of_done sound (quiet.done i), Option.bind_none,
      Option.map_none]
  | finish i =>
    simp only [step, MapperState.finish, job_of_done sound (quiet.done i), Option.bind_none,
      Option.map_none]
  | deliver i r k =>
    simp only [step]
    rw [(quiet.conns (i, r)).1, List.length_nil, if_neg (by omega)]
  | enqueue i r =>
    simp only [step]
    rw [(quiet.conns (i, r)).2, if_neg (by simp)]
  | handle r =>
    simp only [step]
    rw [List.eq_nil_of_length_eq_zero (quiet.queue r)]

/-- The steps that are left, as a potential that every step lowers. -/
def workPotential (short : Short json streams) (routable : Routable streams) :
    (system json streams).Potential (Sound json streams) fun _ => true where
  value := State.ahead streams
  falls sound moved := ahead_step short routable sound moved

theorem ahead_initial : (State.initial m).ahead streams = totalWork streams := by
  have mappers (i : Fin m) : (({} : MapperState).ahead (streams i)) =
      1 + ((streams i).entries.map Entry.work).sum := by
    rw [← Stream.workAfter_zero]
    rfl
  unfold State.ahead State.initial totalWork
  simp only [mappers]
  simp [Conn.ahead]

end Runs

section Ends

variable {json : JsonModule} {streams : Fin m → Stream} {as : List (Action m)} {s : State m}

/-- A run takes no more steps than there is work. -/
theorem length_le_totalWork (short : Short json streams) (routable : Routable streams)
    (run : (system json streams).Run as s) : as.length ≤ totalWork streams := by
  have bound := (workPotential short routable).countP_le
    (fun sound moved => sound_step short sound moved) sound_initial run
  have all : as.countP (fun _ => true) = as.length := congrFun List.countP_true as
  have start : (workPotential short routable).value (State.initial m) = totalWork streams :=
    ahead_initial
  rw [← all, ← start]
  exact Nat.le_of_add_right_le bound

/-- Where no step is possible, everything is done and drained. -/
theorem quiet_of_stuck (short : Short json streams) (run : (system json streams).Run as s)
    (stuck : ∀ a, step json streams s a = none) : s.Quiet := by
  by_contra busy
  obtain ⟨a, s', moved⟩ := exists_step (sound_run short run) busy
  rw [stuck a] at moved
  cases moved

/-- Everything can be done and drained, from every state that is reached. -/
theorem exists_quiet (short : Short json streams) (routable : Routable streams)
    (run : (system json streams).Run as s) :
    ∃ bs s', (system json streams).Run (as ++ bs) s' ∧ s'.Quiet := by
  obtain ⟨bs, s', _, _, more, _, quiet⟩ := (workPotential short routable).finishes
    (fun sound _ moved => sound_step short sound moved)
    (fun s sound busy => by
      obtain ⟨a, s', moved⟩ := exists_step sound busy
      exact ⟨a, s', rfl, moved⟩) (sound_run short run)
  refine ⟨bs, s', ?_, quiet⟩
  rw [System.Run, System.runFrom_append, run]
  exact more

end Ends

/-- When every word has a socket and fits into its message, word count comes to its end in any
order of steps: no run is longer than the work for the files; the program stops exactly when
all mappers are done and everything is drained; and this is reached from every state. -/
theorem word_count_finishes (json : JsonModule) (streams : Fin m → Stream)
    (short : Short json streams) (routable : Routable streams) {as : List (Action m)}
    {s : State m} (run : (system json streams).Run as s) :
    as.length ≤ totalWork streams ∧ (s.Quiet ↔ ∀ a, step json streams s a = none) ∧
      ∃ bs s', (system json streams).Run (as ++ bs) s' ∧ s'.Quiet := by
  refine ⟨length_le_totalWork short routable run, ⟨?_, quiet_of_stuck short run⟩,
    exists_quiet short routable run⟩
  intro quiet a
  exact step_of_quiet (sound_run short run) quiet

theorem word_count_finishes_twoStreams :
    ∃ as s, (system Json.objectModule twoStreams).Run as s ∧ s.Quiet ∧ as.length ≤ 3087 := by
  have short : Short Json.objectModule twoStreams := by
    unfold Short
    decide +kernel
  have routable : Routable twoStreams := by
    unfold Routable
    decide +kernel
  obtain ⟨_, _, bs, s, run, quiet⟩ := word_count_finishes Json.objectModule twoStreams short routable
    (System.run_nil _)
  have work : totalWork twoStreams = 3087 := by decide +kernel
  have bound := (word_count_finishes Json.objectModule twoStreams short routable run).1
  exact ⟨[] ++ bs, s, run, quiet, by omega⟩

end Col733.Lab2

import Col733.Lab2.Reducer
import Col733.Lab2.Words

/-!
# Word count

The program of lab 2 in runs without a crash, a checkpoint or a recovery: mappers with a
stream each, two reducers, and a connection from every mapper to each of them. A step is one
of a mapper's `word_count`, a `recv` of a thread of `handle_mappers` and what it does with
1024 bytes, or one turn of a reducer's command thread. The bytes of a connection come in
order, any number at a time. This system is simulated by the one over channels of words.
-/

namespace Col733.Lab2

variable {m : Nat}

/-- A connection: the bytes under way, and the `data` of `recvall` at the reducer. -/
structure Conn where
  wire : List UInt8 := []
  got : List UInt8 := []
  closed : Bool := false

structure Reducer where
  state : ReducerState := {}
  cmdQ : List WC := []

inductive Action (m : Nat) where
  | read (i : Fin m)
  | send (i : Fin m)
  | finish (i : Fin m)
  | deliver (i : Fin m) (r : Fin 2) (k : Nat)
  | enqueue (i : Fin m) (r : Fin 2)
  | handle (r : Fin 2)

structure State (m : Nat) where
  mappers : Fin m → MapperState
  conns : Fin m × Fin 2 → Conn
  reducers : Fin 2 → Reducer

/-- The `id` of a `Mapper`. -/
def mapperId (i : Fin m) : String := "Mapper_" ++ toString i.val

namespace State

def initial (m : Nat) : State m where
  mappers := fun _ => {}
  conns := fun _ => {}
  reducers := fun _ => {}

def setMapper (s : State m) (i : Fin m) (st : MapperState) : State m :=
  { s with mappers := Function.update s.mappers i st }

def setConn (s : State m) (i : Fin m) (r : Fin 2) (conn : Conn) : State m :=
  { s with conns := Function.update s.conns (i, r) conn }

def setReducer (s : State m) (r : Fin 2) (reducer : Reducer) : State m :=
  { s with reducers := Function.update s.reducers r reducer }

@[simp] theorem setConn_conns (s : State m) (i : Fin m) (r : Fin 2) (conn : Conn) :
    (s.setConn i r conn).conns = Function.update s.conns (i, r) conn := rfl

@[simp] theorem setConn_reducers (s : State m) (i : Fin m) (r : Fin 2) (conn : Conn) :
    (s.setConn i r conn).reducers = s.reducers := rfl

@[simp] theorem setReducer_reducers (s : State m) (r : Fin 2) (reducer : Reducer) :
    (s.setReducer r reducer).reducers = Function.update s.reducers r reducer := rfl

@[simp] theorem setReducer_conns (s : State m) (r : Fin 2) (reducer : Reducer) :
    (s.setReducer r reducer).conns = s.conns := rfl

/-- The body of the loop over `word_counts.items()`: the reducer to which a word goes and the
bytes for it, `none` when `word_2_socket`, `serialize` or `sendall` raises. -/
def transmit (json : JsonModule) (s : State m) (i : Fin m) (item : String × Int) :
    Option (Fin 2 × List UInt8) := do
  let r ← word2Socket item.1
  let wc : WordCount :=
    { word := item.1, count := item.2, recoveryId := (s.mappers i).lastRecoveryId }
  let frame ← (wc.message (mapperId i)).serialize json
  if (s.conns (i, r)).closed then none else some (r, frame)

/-- All mappers have found their streams empty, and channels and queues are drained. -/
structure Quiet (s : State m) : Prop where
  done : ∀ i, (s.mappers i).isWcDone = true
  conns : ∀ c, (s.conns c).wire = [] ∧ (s.conns c).got = []
  queue : ∀ r, (s.reducers r).cmdQ.length = 0

instance (s : State m) : Decidable s.Quiet :=
  decidable_of_iff ((∀ i, (s.mappers i).isWcDone = true) ∧
      (∀ c, (s.conns c).wire = [] ∧ (s.conns c).got = []) ∧
        ∀ r, (s.reducers r).cmdQ.length = 0)
    ⟨fun ⟨done, conns, queue⟩ => ⟨done, conns, queue⟩, fun quiet => ⟨quiet.done, quiet.conns,
      quiet.queue⟩⟩

/-- `r1 | r2` of `checker.py`. -/
def merged (s : State m) : Dict String Int :=
  (s.reducers ⟨0, Nat.zero_lt_two⟩).state.wc.merge (s.reducers ⟨1, Nat.one_lt_two⟩).state.wc

end State

def step (json : JsonModule) (streams : Fin m → Stream) (s : State m) :
    Action m → Option (State m)
  | .read i => ((s.mappers i).read (streams i)).map (s.setMapper i)
  | .send i =>
    (s.mappers i).item?.map fun item =>
      match s.transmit json i item with
      | some (r, frame) =>
        let conn := s.conns (i, r)
        (s.setMapper i (s.mappers i).advance).setConn i r { conn with wire := conn.wire ++ frame }
      | none => s.setMapper i (s.mappers i).abandon
  | .finish i => (s.mappers i).finish.map (s.setMapper i)
  | .deliver i r k =>
    let conn := s.conns (i, r)
    -- `recv` returns at least one byte, and not more than are missing
    if conn.closed = false ∧ 0 < k ∧ k ≤ conn.wire.length ∧ conn.got.length + k ≤ 1024 then
      some (s.setConn i r
        { conn with wire := conn.wire.drop k, got := conn.got ++ conn.wire.take k })
    else none
  | .enqueue i r =>
    let conn := s.conns (i, r)
    if conn.closed = false ∧ conn.got.length = 1024 then
      match (Message.deserialize json conn.got).bind Message.commands with
      | some commands =>
        let reducer := s.reducers r
        some ((s.setConn i r { conn with got := [] }).setReducer r
          { reducer with cmdQ := reducer.cmdQ ++ commands })
      | none => some (s.setConn i r { conn with closed := true })
    else none
  | .handle r =>
    match (s.reducers r).cmdQ with
    | [] => none
    | wc :: rest =>
      (wc.handle (s.reducers r).state).map fun state => s.setReducer r { state, cmdQ := rest }

def system (json : JsonModule) (streams : Fin m → Stream) : System (State m) (Action m) where
  init := State.initial m
  step := step json streams

/-- The words of the streams are short enough for a message of 1024 bytes. -/
def Short (json : JsonModule) (streams : Fin m → Stream) : Prop :=
  ∀ i, ∀ e ∈ (streams i).entries, ∀ item ∈ e.counts,
    WordCount.Fits json (mapperId i) { word := item.1, count := item.2, recoveryId := 0 }

/-! ## Simulation by the words -/

/-- What is sent for an item when nothing has been recovered. -/
def wordCount (item : String × Int) : WordCount :=
  { word := item.1, count := item.2, recoveryId := 0 }

/-- The bytes of the connection, read and unread, are those of the messages for the items. -/
structure Conn.Carries (json : JsonModule) (source : String) (conn : Conn)
    (items : List (String × Int)) : Prop where
  isOpen : conn.closed = false
  piece : conn.got.length ≤ 1024
  stream : sendAll json source (items.map wordCount) = some (conn.got ++ conn.wire)
  fits : ∀ item ∈ items, (wordCount item).Fits json source

/-- The commands in the queue are those of the items. -/
def Reducer.Queues (reducer : Reducer) (items : List (String × Int)) : Prop :=
  reducer.cmdQ = items.map fun item => (wordCount item).command

/-- The reducer has the counts `wc`, and has not recovered. -/
def Reducer.Counts (reducer : Reducer) (wc : Dict String Int) : Prop :=
  reducer.state = { wc, lastRecoveryId := 0 }

/-- A state of the program, and the one over channels of words that it stands for. -/
structure Refines (json : JsonModule) (streams : Fin m → Stream) (s : State m)
    (t : Words.State m) : Prop where
  inv : Words.Inv streams t
  mappers : s.mappers = t.mappers
  conns : ∀ c, (s.conns c).Carries json (mapperId c.1) (t.channel c)
  queue : ∀ r, (s.reducers r).Queues (t.queue r)
  state : ∀ r, (s.reducers r).Counts (t.wc r)

/-- The steps over words that a step of the program stands for. -/
def Action.words : Action m → List (Words.Action m)
  | .read i => [.read i]
  | .send i => [.send i]
  | .finish i => [.finish i]
  | .deliver _ _ _ => []
  | .enqueue i r => [.enqueue i r]
  | .handle r => [.handle r]

section Carries

variable {json : JsonModule} {source : String} {conn : Conn} {item : String × Int}
  {items : List (String × Int)}

theorem carries_initial : Conn.Carries json source {} [] where
  isOpen := rfl
  piece := Nat.zero_le 1024
  stream := rfl
  fits := by rintro item ⟨⟩

/-- An item that fits is sent. -/
theorem Conn.Carries.write (carries : conn.Carries json source items)
    (fits : (wordCount item).Fits json source) {frame : List UInt8}
    (serialized : ((wordCount item).message source).serialize json = some frame) :
    Conn.Carries json source { conn with wire := conn.wire ++ frame } (items ++ [item]) where
  isOpen := carries.isOpen
  piece := carries.piece
  stream := by
    rw [List.map_append, ← List.append_assoc]
    exact sendAll_concat carries.stream serialized
  fits := by
    intro other member
    rcases List.mem_append.mp member with before | last
    · exact carries.fits other before
    · exact List.mem_singleton.mp last ▸ fits

/-- Some bytes are delivered. -/
theorem Conn.Carries.deliver (carries : conn.Carries json source items) {k : Nat}
    (available : k ≤ conn.wire.length) (room : conn.got.length + k ≤ 1024) :
    Conn.Carries json source
      { conn with wire := conn.wire.drop k, got := conn.got ++ conn.wire.take k } items where
  isOpen := carries.isOpen
  piece := by
    rw [List.length_append, List.length_take_of_le available]
    exact room
  stream := by
    rw [List.append_assoc, List.take_append_drop]
    exact carries.stream
  fits := carries.fits

/-- 1024 bytes are the first message. -/
theorem Conn.Carries.whole (carries : conn.Carries json source items)
    (received : conn.got.length = 1024) :
    ∃ item rest, items = item :: rest ∧
      (Message.deserialize json conn.got).bind Message.commands =
        some [(wordCount item).command] ∧
      Conn.Carries json source { conn with got := [] } rest := by
  cases items with
  | nil =>
    have nothing := congrArg List.length (Option.some.inj carries.stream)
    rw [List.length_nil, List.length_append] at nothing
    omega
  | cons item rest =>
    obtain ⟨frame, more, serialized, later, stream⟩ := sendAll_cons carries.stream
    have fits := carries.fits item List.mem_cons_self
    obtain ⟨same, left⟩ := List.append_inj stream
      (by rw [received, length_of_fits serialized fits])
    refine ⟨item, rest, rfl, ?_, carries.isOpen, Nat.zero_le 1024, ?_, ?_⟩
    · rw [same]
      exact commands_of_fits serialized fits
    · rw [left]
      exact later
    · intro other member
      exact carries.fits other (List.mem_cons_of_mem _ member)

end Carries

section Refinement

variable {json : JsonModule} {streams : Fin m → Stream} {s s' : State m} {t : Words.State m}
  {i : Fin m} {r : Fin 2}

theorem refines_initial : Refines json streams (State.initial m) (Words.State.initial m) where
  inv := Words.inv_initial
  mappers := rfl
  conns _ := carries_initial
  queue _ := rfl
  state _ := rfl

/-- A mapper moves, and the connections are as before. -/
theorem refines_setMapper (refines : Refines json streams s t) (i : Fin m) (st : MapperState)
    (inv : Words.Inv streams (t.setMapper i st)) :
    Refines json streams (s.setMapper i st) (t.setMapper i st) where
  inv := inv
  mappers := by
    show Function.update s.mappers i st = Function.update t.mappers i st
    rw [refines.mappers]
  conns := refines.conns
  queue := refines.queue
  state := refines.state

theorem refines_read (refines : Refines json streams s t)
    (moved : step json streams s (.read i) = some s') :
    ∃ t', Words.step streams t (.read i) = some t' ∧ Refines json streams s' t' := by
  obtain ⟨st, read, rfl⟩ := Option.map_eq_some_iff.mp moved
  rw [refines.mappers] at read
  have matched : Words.step streams t (.read i) = some (t.setMapper i st) :=
    Option.map_eq_some_iff.mpr ⟨st, read, rfl⟩
  exact ⟨_, matched, refines_setMapper refines i st (Words.inv_step refines.inv matched)⟩

theorem refines_finish (refines : Refines json streams s t)
    (moved : step json streams s (.finish i) = some s') :
    ∃ t', Words.step streams t (.finish i) = some t' ∧ Refines json streams s' t' := by
  obtain ⟨st, finished, rfl⟩ := Option.map_eq_some_iff.mp moved
  rw [refines.mappers] at finished
  have matched : Words.step streams t (.finish i) = some (t.setMapper i st) :=
    Option.map_eq_some_iff.mpr ⟨st, finished, rfl⟩
  exact ⟨_, matched, refines_setMapper refines i st (Words.inv_step refines.inv matched)⟩

/-- As long as the words are short, a word that has a socket is sent. -/
theorem transmit_of_routed (short : Short json streams) (refines : Refines json streams s t)
    {item : String × Int} (standing : (t.mappers i).item? = some item)
    (routed : word2Socket item.1 = some r) :
    ∃ frame, s.transmit json i item = some (r, frame) ∧
      ((wordCount item).message (mapperId i)).serialize json = some frame ∧
      (wordCount item).Fits json (mapperId i) := by
  obtain ⟨e, next, counted⟩ := MapperState.mem_of_item? standing (refines.inv.mappers i)
  have fits := short i e (Stream.mem_of_xread next) item counted
  obtain ⟨frame, serialized⟩ : ∃ frame,
      ((wordCount item).message (mapperId i)).serialize json = some frame := by
    apply Message.serialize_of_lt
    unfold WordCount.Fits bufferSize at fits
    exact Nat.lt_of_le_of_lt (Nat.le_of_add_left_le fits) (by decide)
  refine ⟨frame, ?_, serialized, fits⟩
  have recoveryId : (s.mappers i).lastRecoveryId = 0 := by
    rw [refines.mappers]
    exact (refines.inv.mappers i).recoveryId
  unfold wordCount at serialized
  unfold State.transmit
  simp only [routed, recoveryId, serialized, (refines.conns (i, r)).isOpen, Option.bind_eq_bind,
    Option.bind_some, Bool.false_eq_true, if_false]

theorem refines_send (short : Short json streams) (refines : Refines json streams s t)
    (moved : step json streams s (.send i) = some s') :
    ∃ t', Words.step streams t (.send i) = some t' ∧ Refines json streams s' t' := by
  obtain ⟨item, standing, same⟩ := Option.map_eq_some_iff.mp moved
  rw [refines.mappers] at standing
  cases socket : word2Socket item.1 with
  | none =>
    have raised : s.transmit json i item = none := by
      unfold State.transmit
      rw [socket]
      rfl
    rw [raised] at same
    have matched : Words.step streams t (.send i) =
        some (t.setMapper i (t.mappers i).abandon) := by
      simp only [Words.step, standing, Option.map_some, socket]
    rw [← same, refines.mappers]
    exact ⟨_, matched, refines_setMapper refines i _ (Words.inv_step refines.inv matched)⟩
  | some r =>
    obtain ⟨frame, transmitted, serialized, fits⟩ :=
      transmit_of_routed short refines standing socket
    rw [transmitted] at same
    have matched : Words.step streams t (.send i) =
        some ((t.setMapper i (t.mappers i).advance).put i r item) := by
      simp only [Words.step, standing, Option.map_some, socket]
    refine ⟨_, matched, Words.inv_step refines.inv matched, ?_, ?_, ?_, ?_⟩
    · rw [← same, refines.mappers]
      exact congrArg (fun mappers => Function.update mappers i (t.mappers i).advance) refines.mappers
    · rw [← same]
      simp only [State.setConn_conns]
      exact System.related_update (R := fun (c : Fin m × Fin 2) => Conn.Carries json (mapperId c.1)) refines.conns
        ((refines.conns (i, r)).write fits serialized)
    · rw [← same]
      exact refines.queue
    · rw [← same]
      exact refines.state

/-- Over words, nothing happens when bytes are delivered. -/
theorem refines_deliver (refines : Refines json streams s t) {k : Nat}
    (moved : step json streams s (.deliver i r k) = some s') : Refines json streams s' t := by
  simp only [step] at moved
  split at moved
  · rename_i guard
    obtain ⟨_, _, available, room⟩ := guard
    cases moved
    refine ⟨refines.inv, refines.mappers, ?_, refines.queue, refines.state⟩
    simp only [State.setConn_conns]
    exact System.holds_update (P := fun (c : Fin m × Fin 2) conn => Conn.Carries json (mapperId c.1) conn
      (t.channel c)) refines.conns ((refines.conns (i, r)).deliver available room)
  · cases moved

theorem refines_enqueue (refines : Refines json streams s t)
    (moved : step json streams s (.enqueue i r) = some s') :
    ∃ t', Words.step streams t (.enqueue i r) = some t' ∧ Refines json streams s' t' := by
  simp only [step] at moved
  split at moved
  · rename_i guard
    obtain ⟨item, rest, waiting, read, carries⟩ := (refines.conns (i, r)).whole guard.2
    rw [read] at moved
    cases moved
    have matched : Words.step streams t (.enqueue i r) = some { t with
        channel := Function.update t.channel (i, r) rest
        queue := Function.update t.queue r (t.queue r ++ [item]) } := by
      simp only [Words.step, waiting]
    refine ⟨_, matched, Words.inv_step refines.inv matched, refines.mappers, ?_, ?_, ?_⟩
    · simp only [State.setReducer_conns, State.setConn_conns]
      exact System.related_update (R := fun (c : Fin m × Fin 2) => Conn.Carries json (mapperId c.1)) refines.conns
        carries
    · simp only [State.setReducer_reducers, State.setConn_reducers]
      apply System.related_update (R := fun _ => Reducer.Queues) refines.queue
      unfold Reducer.Queues
      rw [List.map_append, ← refines.queue r]
      rfl
    · simp only [State.setReducer_reducers, State.setConn_reducers]
      exact System.holds_update (P := fun r' reducer => Reducer.Counts reducer (t.wc r'))
        refines.state (refines.state r)
  · cases moved

theorem refines_handle (refines : Refines json streams s t)
    (moved : step json streams s (.handle r) = some s') :
    ∃ t', Words.step streams t (.handle r) = some t' ∧ Refines json streams s' t' := by
  have queue : (s.reducers r).cmdQ = _ := refines.queue r
  have state : (s.reducers r).state = _ := refines.state r
  simp only [step] at moved
  cases waiting : t.queue r with
  | nil =>
    rw [waiting] at queue
    rw [queue] at moved
    cases moved
  | cons item rest =>
    rw [waiting] at queue
    rw [queue, state] at moved
    cases moved
    have matched : Words.step streams t (.handle r) = some { t with
        queue := Function.update t.queue r rest
        wc := Function.update t.wc r ((t.wc r).add item.1 item.2) } := by
      simp only [Words.step, waiting]
    refine ⟨_, matched, Words.inv_step refines.inv matched, refines.mappers, refines.conns, ?_, ?_⟩
    · simp only [State.setReducer_reducers]
      exact System.related_update (R := fun _ => Reducer.Queues) refines.queue rfl
    · simp only [State.setReducer_reducers]
      exact System.related_update (R := fun _ => Reducer.Counts) refines.state rfl

/-- The program is simulated by the word count over channels of words. -/
def simulation (short : Short json streams) :
    System.Simulation (system json streams) (Words.system streams)
      (fun _ _ => ([] : List Unit)) (fun _ _ => []) where
  rel := Refines json streams
  abs _ a := a.words
  init := refines_initial
  step {s t a s'} refines moved := by
    -- neither system shows anything, so that only the steps are to be matched
    have one {b : Words.Action m} (matched : ∃ t', Words.step streams t b = some t' ∧
        Refines json streams s' t') : ∃ t', (Words.system streams).runFrom t [b] = some t' ∧
          Refines json streams s' t' ∧
            (Words.system streams).observeFrom (fun _ _ => ([] : List Unit)) t [b] = [] := by
      obtain ⟨t', stepped, refines'⟩ := matched
      exact ⟨t', (System.runFrom_singleton _ t b).trans stepped, refines',
        System.observeFrom_singleton _ stepped⟩
    cases a with
    | read i => exact one (refines_read refines moved)
    | send i => exact one (refines_send short refines moved)
    | finish i => exact one (refines_finish refines moved)
    | deliver i r k => exact ⟨t, rfl, refines_deliver refines moved, rfl⟩
    | enqueue i r => exact one (refines_enqueue refines moved)
    | handle r => exact one (refines_handle refines moved)

/-- Drained connections and queues stand for empty channels. -/
theorem quiet_words (refines : Refines json streams s t) (quiet : s.Quiet) : t.Quiet where
  done i := by
    rw [← refines.mappers]
    exact quiet.done i
  channel c := by
    have stream := (refines.conns c).stream
    rw [(quiet.conns c).1, (quiet.conns c).2] at stream
    cases items : t.channel c with
    | nil => rfl
    | cons item rest =>
      rw [items] at stream
      obtain ⟨frame, more, serialized, _, empty⟩ := sendAll_cons stream
      have fits := (refines.conns c).fits item (items ▸ List.mem_cons_self)
      have length := length_of_fits serialized fits
      rw [(List.append_eq_nil_iff.mp empty.symm).1] at length
      cases length
  queue r := by
    have queue : (s.reducers r).cmdQ = _ := refines.queue r
    have length := congrArg List.length queue
    rw [quiet.queue r, List.length_map] at length
    exact List.eq_nil_of_length_eq_zero length.symm

end Refinement

/-- Whatever the streams are, for any number of mappers and in any order of steps: when all
mappers are done and everything is drained, the merge of the two dictionaries has exactly the
words of all files with their counts, and no word is a key of both. -/
theorem counts_each_word_once (json : JsonModule) (streams : Fin m → Stream)
    (short : Short json streams) {as : List (Action m)} {s : State m}
    (run : (system json streams).Run as s) (quiet : s.Quiet) :
    (∀ w, s.merged.get? w =
      if ∑ i, (streams i).occurrences w = 0 then none
      else some ((∑ i, (streams i).occurrences w : Nat) : Int)) ∧
    ∀ w, ¬ (w ∈ (s.reducers 0).state.wc.keys ∧ w ∈ (s.reducers 1).state.wc.keys) := by
  obtain ⟨_, t, _, refines, _⟩ := (simulation short).run run
  have wc (r : Fin 2) : (s.reducers r).state.wc = t.wc r :=
    congrArg ReducerState.wc (show (s.reducers r).state = _ from refines.state r)
  have merged : s.merged = (t.wc 0).merge (t.wc 1) := by
    rw [← wc 0, ← wc 1]
    rfl
  rw [merged, wc 0, wc 1]
  constructor
  · exact Words.get?_merge_of_quiet refines.inv (quiet_words refines quiet)
  · intro w
    rw [← Dict.contains_iff_mem_keys, ← Dict.contains_iff_mem_keys]
    exact Words.not_contains_both refines.inv w

/-- A file of two words for the first mapper, and one of one word for the second. -/
def twoStreams : Fin 2 → Stream
  | 0 => ⟨[⟨1, ["cloud song"]⟩], by decide, by decide⟩
  | 1 => ⟨[⟨2, ["song"]⟩], by decide, by decide⟩

theorem counts_each_word_once_twoStreams :
    ∃ as s, (system Json.objectModule twoStreams).Run as s ∧ s.Quiet ∧
      s.merged.get? "song" = some 2 ∧ s.merged.get? "cloud" = some 1 := by
  -- the second reducer gets the word of the second mapper in two pieces, and the other one of
  -- the first mapper between them
  have drained : ((system Json.objectModule twoStreams).runFrom
      (system Json.objectModule twoStreams).init
        [.read 0, .read 1, .send 0, .send 1, .send 0, .finish 0, .read 0, .finish 1, .read 1,
          .deliver 1 1 1000, .deliver 0 0 1024, .deliver 0 1 1024, .enqueue 0 1, .handle 1,
          .deliver 1 1 24, .enqueue 1 1, .enqueue 0 0, .handle 1, .handle 0]).any
        (fun s => decide s.Quiet) = true := by decide +kernel
  obtain ⟨s, run, quiet⟩ := (Option.any_eq_true _ _).mp drained
  have short : Short Json.objectModule twoStreams := by
    unfold Short
    decide +kernel
  have songs : ∑ i, (twoStreams i).occurrences "song" = 2 := by decide +kernel
  have clouds : ∑ i, (twoStreams i).occurrences "cloud" = 1 := by decide +kernel
  have merged := (counts_each_word_once Json.objectModule twoStreams short run
    (of_decide_eq_true quiet)).1
  refine ⟨_, s, run, of_decide_eq_true quiet, ?_, ?_⟩
  · rw [merged "song", songs]
    rfl
  · rw [merged "cloud", clouds]
    rfl

end Col733.Lab2

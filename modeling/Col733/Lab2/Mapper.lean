import Col733.Misc.Counter
import Mathlib.Algebra.BigOperators.Ring.Finset

/-!
# `mapper.py`: reading a stream and counting words

`CmdHandler.word_count` takes the entry after the last one that it has done, counts the words
of its file and sends each count to one of the two reducers; only then is the entry done. An
exception on the way leaves the entry to be read again. Markers of the coordinator are not
part of the model: `Checkpoint.handle` and `Recover.handle` do nothing yet, and nothing is
recovered in the runs that are studied.
-/

namespace Col733.Lab2

/-- An entry of a stream in Redis, with the column `text` of the file that it names. The id
`1234-0` is a number, its two parts in one. -/
structure Entry where
  id : Nat
  rows : List String

/-- The words of a file: `' '.join(rows).split(' ')`. -/
def words (rows : List String) : List String :=
  ((List.intercalate [' '] (rows.map String.toList)).splitOn ' ').map String.ofList

/-- `Counter(tokens).items()`. -/
def Entry.counts (e : Entry) : List (String × Int) := (Dict.counter (words e.rows)).entries

/-- A stream: Redis adds an entry only with a greater id than the last, and never with id 0. -/
structure Stream where
  entries : List Entry
  increasing : (entries.map Entry.id).Pairwise (· < ·)
  positive : ∀ e ∈ entries, 0 < e.id

namespace Stream

/-- `xread({stream: last_id}, count=1)`: the next entry after that id. -/
def xread (stream : Stream) (lastId : Nat) : Option Entry :=
  stream.entries.find? fun e => lastId < e.id

/-- What the entries up to an id come to for one word. -/
def amountUpTo (stream : Stream) (lastId : Nat) (w : String) : Int :=
  ((stream.entries.filter fun e => e.id ≤ lastId).map fun e => amount w e.counts).sum

/-- How often a word stands in the files of the stream. -/
def occurrences (stream : Stream) (w : String) : Nat :=
  (stream.entries.map fun e => (words e.rows).count w).sum

variable {stream : Stream} {lastId : Nat} {e : Entry}

theorem mem_of_xread (read : stream.xread lastId = some e) : e ∈ stream.entries :=
  List.mem_of_find?_eq_some read

theorem filter_entries_of_find? {entries : List Entry}
    (increasing : (entries.map Entry.id).Pairwise (· < ·))
    (read : (entries.find? fun e => lastId < e.id) = some e) :
    (entries.filter fun x => x.id ≤ e.id) = (entries.filter fun x => x.id ≤ lastId) ++ [e] := by
  induction entries with
  | nil => cases read
  | cons first entries ih =>
    rw [List.map_cons, List.pairwise_cons] at increasing
    by_cases done : first.id ≤ lastId
    · rw [List.find?_cons_of_neg (by simpa using done)] at read
      have after := List.find?_some read
      simp only [decide_eq_true_eq] at after
      rw [List.filter_cons_of_pos (by simp only [decide_eq_true_eq]; omega),
        List.filter_cons_of_pos (by simpa using done), ih increasing.2 read]
      rfl
    · rw [List.find?_cons_of_pos (by simp only [decide_eq_true_eq]; omega)] at read
      cases read
      have later : ∀ x ∈ entries, e.id < x.id := fun x member =>
        increasing.1 x.id (List.mem_map_of_mem member)
      have none (bound : Nat) (small : bound ≤ e.id) :
          (entries.filter fun x => x.id ≤ bound) = [] := by
        rw [List.filter_eq_nil_iff]
        intro x member
        have := later x member
        simp only [decide_eq_true_eq]
        omega
      rw [List.filter_cons_of_pos (by simp), List.filter_cons_of_neg (by simpa using done),
        none e.id (Nat.le_refl _), none lastId (by omega)]
      rfl

/-- When the next entry is done, its words are counted as well. -/
theorem amountUpTo_xread (read : stream.xread lastId = some e) (w : String) :
    stream.amountUpTo e.id w = stream.amountUpTo lastId w + amount w e.counts := by
  unfold amountUpTo
  rw [filter_entries_of_find? stream.increasing read, List.map_append, List.sum_append]
  simp

theorem amountUpTo_zero (w : String) : stream.amountUpTo 0 w = 0 := by
  unfold amountUpTo
  have none : (stream.entries.filter fun e => e.id ≤ 0) = [] := by
    rw [List.filter_eq_nil_iff]
    intro e member
    have := stream.positive e member
    simp only [decide_eq_true_eq]
    omega
  rw [none]
  rfl

/-- At the end of the stream all its words are counted. -/
theorem amountUpTo_of_xread_none (read : stream.xread lastId = none) (w : String) :
    stream.amountUpTo lastId w = stream.occurrences w := by
  unfold amountUpTo occurrences
  have all : (stream.entries.filter fun e => e.id ≤ lastId) = stream.entries := by
    rw [List.filter_eq_self]
    intro e member
    have := List.find?_eq_none.mp read e member
    simpa using this
  rw [all, Nat.cast_list_sum, List.map_map]
  congr 1
  apply List.map_congr_left
  intro e _
  show amount w (Dict.counter (words e.rows)).entries = _
  rw [Dict.amount_entries, Dict.tally_counter]
  rfl

end Stream

/-- `word_2_socket`: which of `reducer_sockets` is returned, by `word[0] < 'm'`; `none` when the
word is empty, which has no first character. -/
def word2Socket (word : String) : Option (Fin 2) :=
  match word.toList with
  | [] => none
  | c :: _ => if c < 'm' then some 0 else some 1

/-- The loop of `word_count` over the items of `word_counts`, and the item at which it stands. -/
structure Job where
  entry : Entry
  next : Nat

/-- The `MapperState`, and the call of `word_count` that is under way. -/
structure MapperState where
  lastStreamId : Nat := 0
  lastRecoveryId : Int := 0
  isWcDone : Bool := false
  job : Option Job := none

namespace MapperState

/-- The beginning of `word_count`: the next entry, or the end of the stream. -/
def read (stream : Stream) (st : MapperState) : Option MapperState :=
  if st.isWcDone ∨ st.job.isSome then none
  else
    match stream.xread st.lastStreamId with
    | none => some { st with isWcDone := true }
    | some entry => some { st with job := some { entry, next := 0 } }

/-- The item that is to be sent. -/
def item? (st : MapperState) : Option (String × Int) :=
  st.job.bind fun job => job.entry.counts[job.next]?

/-- The item has been sent. -/
def advance (st : MapperState) : MapperState :=
  { st with job := st.job.map fun job => { job with next := job.next + 1 } }

/-- An exception has been caught: `word_count` returns, and the entry is not done. -/
def abandon (st : MapperState) : MapperState := { st with job := none }

/-- The end of `word_count`, after the last item. -/
def finish (st : MapperState) : Option MapperState :=
  st.job.bind fun job =>
    if job.next = job.entry.counts.length then
      some { st with lastStreamId := job.entry.id, job := none }
    else none

/-- What the mapper has sent for a word: the entries that are done, and the items of the loop
that are. -/
def sent (stream : Stream) (w : String) (st : MapperState) : Int :=
  stream.amountUpTo st.lastStreamId w +
    (st.job.elim 0 fun job => amount w (job.entry.counts.take job.next))

/-- The next file has a word for which there is no socket. -/
def Blocked (stream : Stream) (st : MapperState) : Prop :=
  ∃ e, stream.xread st.lastStreamId = some e ∧ ∃ item ∈ e.counts, word2Socket item.1 = none

/-- The loop is over the next entry, and what it has sent had a socket; the mapper is done
only at the end of the stream. -/
structure Valid (stream : Stream) (st : MapperState) : Prop where
  next : ∀ job, st.job = some job → stream.xread st.lastStreamId = some job.entry
  routed : ∀ job, st.job = some job →
    ∀ item ∈ job.entry.counts.take job.next, word2Socket item.1 ≠ none
  done : st.isWcDone = true → stream.xread st.lastStreamId = none
  recoveryId : st.lastRecoveryId = 0

variable {stream : Stream} {st st' : MapperState} {item : String × Int}

theorem valid_initial : Valid stream {} where
  next := by rintro job ⟨⟩
  routed := by rintro job ⟨⟩
  done := by rintro ⟨⟩
  recoveryId := rfl

theorem sent_initial (w : String) : sent stream w {} = 0 := by
  show stream.amountUpTo 0 w + 0 = 0
  rw [Stream.amountUpTo_zero, Int.add_zero]

/-- Reading an entry sends nothing. -/
theorem read_spec (read : st.read stream = some st') (valid : st.Valid stream) :
    st'.Valid stream ∧ (∀ w, st'.sent stream w = st.sent stream w) ∧
      st'.lastStreamId = st.lastStreamId := by
  unfold MapperState.read at read
  split at read
  · cases read
  · rename_i idle
    obtain ⟨_, free⟩ := not_or.mp idle
    rw [Bool.not_eq_true, Option.isSome_eq_false_iff, Option.isNone_iff_eq_none] at free
    split at read
    · rename_i ended
      cases read
      exact ⟨⟨valid.next, valid.routed, fun _ => ended, valid.recoveryId⟩, fun _ => rfl, rfl⟩
    · rename_i entry found
      cases read
      refine ⟨⟨?_, ?_, ?_, valid.recoveryId⟩, ?_, rfl⟩
      · rintro job ⟨⟩
        exact found
      · rintro job ⟨⟩ item member
        cases member
      · intro done
        exact valid.done done
      · intro w
        unfold sent
        rw [free]
        rfl

theorem item?_eq_some (standing : st.item? = some item) :
    ∃ job, st.job = some job ∧ job.entry.counts[job.next]? = some item :=
  Option.bind_eq_some_iff.mp standing

/-- The item that is sent is one of the counts of the next entry. -/
theorem mem_of_item? (standing : st.item? = some item) (valid : st.Valid stream) :
    ∃ e, stream.xread st.lastStreamId = some e ∧ item ∈ e.counts := by
  obtain ⟨job, running, here⟩ := item?_eq_some standing
  exact ⟨job.entry, valid.next job running, List.mem_of_getElem? here⟩

/-- Sending an item adds it to what was sent. -/
theorem advance_spec (standing : st.item? = some item) (routed : word2Socket item.1 ≠ none)
    (valid : st.Valid stream) :
    st.advance.Valid stream ∧ (∀ w, st.advance.sent stream w =
      st.sent stream w + if item.1 = w then item.2 else 0) := by
  obtain ⟨job, running, here⟩ := item?_eq_some standing
  have front : job.entry.counts.take (job.next + 1) = job.entry.counts.take job.next ++ [item] := by
    rw [List.take_add_one, here]
    rfl
  refine ⟨⟨?_, ?_, valid.done, valid.recoveryId⟩, ?_⟩
  · intro later advanced
    rw [advance, running] at advanced
    cases advanced
    exact valid.next job running
  · intro later advanced
    rw [advance, running] at advanced
    cases advanced
    rw [front]
    intro other member
    rcases List.mem_append.mp member with before | last
    · exact valid.routed job running other before
    · exact List.mem_singleton.mp last ▸ routed
  · intro w
    unfold sent advance
    rw [running]
    simp only [Option.map_some, Option.elim_some, front, amount_append, amount_cons, amount_nil]
    omega

theorem abandon_valid (valid : st.Valid stream) : st.abandon.Valid stream where
  next := by rintro job ⟨⟩
  routed := by rintro job ⟨⟩
  done := valid.done
  recoveryId := valid.recoveryId

/-- At the end of the loop everything that was sent belongs to entries that are done. -/
theorem finish_spec (finished : st.finish = some st') (valid : st.Valid stream) :
    st'.Valid stream ∧ (∀ w, st'.sent stream w = st.sent stream w) ∧ ¬ st.Blocked stream := by
  obtain ⟨job, running, ended⟩ := Option.bind_eq_some_iff.mp finished
  split at ended
  · rename_i last
    cases ended
    have found := valid.next job running
    refine ⟨⟨?_, ?_, ?_, valid.recoveryId⟩, ?_, ?_⟩
    · rintro job ⟨⟩
    · rintro job ⟨⟩
    · intro done
      rw [valid.done done] at found
      cases found
    · intro w
      unfold sent
      rw [running]
      simp only [Option.elim_some, Option.elim_none, last, List.take_length,
        Stream.amountUpTo_xread found, Int.add_zero]
    · rintro ⟨e, same, item, member, unrouted⟩
      rw [found] at same
      cases same
      apply valid.routed job running item _ unrouted
      rw [last, List.take_length]
      exact member
  · cases ended

end MapperState

end Col733.Lab2

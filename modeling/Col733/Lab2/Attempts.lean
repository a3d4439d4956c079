import Col733.Lab2.Mapper
import Col733.Lab2.Reducer
import Col733.Misc.System

/-!
# The calls of `word_count`

One mapper that calls `word_count` again and again, with what it has sent in each call. The
counts of a file are sent one by one inside the `try`, and the cursor moves after the last one;
an exception at any of them leaves what was sent before it sent, and the entry is read again in
the next call.
-/

namespace Col733.Lab2

/-- The messages for the words of a file, in the order in which they are sent. -/
def Entry.wordCounts (e : Entry) (recoveryId : Int) : List WordCount :=
  e.counts.map fun item => { word := item.1, count := item.2, recoveryId }

namespace Attempts

/-- What a call depends on: whether the file can be read, and which of its calls of `sendall`
return. -/
structure Call where
  opens : Bool
  sends : Nat → Bool

/-- What a call that found an entry has done. -/
structure Attempt where
  entry : Entry
  sent : List WordCount
  /-- It has come to its `except` branch. -/
  raised : Bool
  /-- The cursor after it. -/
  lastStreamId : Nat

/-- The state of the mapper, and its attempts so far. -/
structure State where
  st : MapperState := {}
  attempts : List Attempt := []

/-- The body of the loop over `word_counts.items()`, `none` when it raises. -/
def transmit (json : JsonModule) (source : String) (sends : Bool) (wc : WordCount) :
    Option (Fin 2 × List UInt8) := do
  let r ← word2Socket wc.word
  let frame ← (wc.message source).serialize json
  if sends then some (r, frame) else none

/-- The loop, from its `k`-th item on: what it sends, and whether it comes to its end. -/
def sendCounts (json : JsonModule) (source : String) (sends : Nat → Bool) :
    Nat → List WordCount → List WordCount × Bool
  | _, [] => ([], true)
  | k, wc :: wcs =>
    match transmit json source (sends k) wc with
    | none => ([], false)
    | some _ =>
      let rest := sendCounts json source sends (k + 1) wcs
      (wc :: rest.1, rest.2)

/-- The `try` of `word_count` for an entry. -/
def attempt (json : JsonModule) (source : String) (call : Call) (st : MapperState)
    (entry : Entry) : Attempt :=
  let result := if call.opens then
      sendCounts json source call.sends 0 (entry.wordCounts st.lastRecoveryId)
    else ([], false)
  { entry := entry
    sent := result.1
    raised := !result.2
    lastStreamId := if result.2 then entry.id else st.lastStreamId }

/-- A call of `word_count`. Once the word count is done, there are no more. -/
def step (json : JsonModule) (source : String) (stream : Stream) (s : State) (call : Call) :
    Option State :=
  if s.st.isWcDone then none
  else
    match stream.xread s.st.lastStreamId with
    | none => some { s with st := { s.st with isWcDone := true } }
    | some entry =>
      let a := attempt json source call s.st entry
      some { st := { s.st with lastStreamId := a.lastStreamId }, attempts := s.attempts ++ [a] }

def system (json : JsonModule) (source : String) (stream : Stream) : System State Call where
  init := {}
  step := step json source stream

/-- The attempt has sent one message for each word of the file and moved the cursor to the
entry, or it has ended in the `except` branch with nothing sent. -/
def Attempt.AllOrNothing (recoveryId : Int) (a : Attempt) : Prop :=
  (a.raised = false ∧ a.sent = a.entry.wordCounts recoveryId ∧ a.lastStreamId = a.entry.id) ∨
    (a.raised = true ∧ a.sent = [])

/-- The counts that were sent, over all attempts: the entry and the word of each. -/
def State.sentWords (s : State) : List (Nat × String) :=
  s.attempts.flatMap fun a => a.sent.map fun wc => (a.entry.id, wc.word)

/-- The `k`-th word can be sent. -/
def sendable (json : JsonModule) (source : String) (call : Call) (k : Nat) (wc : WordCount) :
    Bool :=
  (transmit json source (call.sends k) wc).isSome

/-- If the call finds an entry and can read its file: all its words can be sent, or the first
one cannot. -/
def Whole (json : JsonModule) (source : String) (stream : Stream) (s : State) (call : Call) :
    Prop :=
  ∀ entry, stream.xread s.st.lastStreamId = some entry → call.opens = true →
    (∀ k wc, (entry.wordCounts s.st.lastRecoveryId)[k]? = some wc →
      sendable json source call k wc = true) ∨
    ∀ wc, (entry.wordCounts s.st.lastRecoveryId)[0]? = some wc →
      sendable json source call 0 wc = false

section Step

variable {json : JsonModule} {source : String} {stream : Stream} {sends : Nat → Bool}
  {call : Call} {s s' : State} {e : Entry} {wcs : List WordCount} {k : Nat}

/-- The loop comes to its end exactly if every item can be sent, and then all are. -/
theorem sendCounts_done (json : JsonModule) (source : String) (call : Call) (k : Nat)
    (wcs : List WordCount) :
    ((sendCounts json source call.sends k wcs).2 = true ↔
      ∀ i wc, wcs[i]? = some wc → sendable json source call (k + i) wc = true) ∧
    ((sendCounts json source call.sends k wcs).2 = true →
      (sendCounts json source call.sends k wcs).1 = wcs) := by
  induction wcs generalizing k with
  | nil => exact ⟨⟨fun _ i wc here => (by cases here), fun _ => rfl⟩, fun _ => rfl⟩
  | cons wc wcs ih =>
    obtain ⟨rest, whole⟩ := ih (k + 1)
    rw [sendCounts]
    cases first : transmit json source (call.sends k) wc with
    | none =>
      refine ⟨⟨fun done => absurd done Bool.false_ne_true, ?_⟩,
        fun done => absurd done Bool.false_ne_true⟩
      intro all
      have here := all 0 wc rfl
      rw [sendable, Nat.add_zero, first] at here
      cases here
    | some sent =>
      refine ⟨?_, fun done => congrArg (wc :: ·) (whole done)⟩
      show (sendCounts json source call.sends (k + 1) wcs).2 = true ↔ _
      rw [rest]
      constructor
      · intro later i wc' here
        cases i with
        | zero =>
          cases here
          rw [sendable, Nat.add_zero, first]
          rfl
        | succ i =>
          have := later i wc' here
          rwa [Nat.add_assoc, Nat.add_comm 1] at this
      · intro all i wc' here
        have := all (i + 1) wc' here
        rwa [Nat.add_assoc, Nat.add_comm 1]

/-- Nothing is sent exactly if there is nothing or the first item cannot be sent. -/
theorem sendCounts_eq_nil_iff :
    (sendCounts json source call.sends k wcs).1 = [] ↔
      ∀ wc, wcs[0]? = some wc → sendable json source call k wc = false := by
  cases wcs with
  | nil => exact ⟨fun _ wc none => (by cases none), fun _ => rfl⟩
  | cons wc wcs =>
    rw [sendCounts]
    cases first : transmit json source (call.sends k) wc with
    | none =>
      refine ⟨fun _ wc' here => ?_, fun _ => rfl⟩
      cases here
      rw [sendable, first]
      rfl
    | some sent =>
      constructor
      · intro none
        cases none
      · intro none
        have here := none wc rfl
        rw [sendable, first] at here
        cases here

/-- Words are counted once. -/
theorem nodup_wordCounts (e : Entry) (recoveryId : Int) :
    ((e.wordCounts recoveryId).map WordCount.word).Nodup := by
  rw [Entry.wordCounts, List.map_map]
  exact (Dict.counter (words e.rows)).nodup

/-- The attempt is all or nothing exactly if the call meets the condition. -/
theorem attempt_allOrNothing_iff :
    (attempt json source call s.st e).AllOrNothing s.st.lastRecoveryId ↔
      (call.opens = true →
        (∀ k wc, (e.wordCounts s.st.lastRecoveryId)[k]? = some wc →
          sendable json source call k wc = true) ∨
        ∀ wc, (e.wordCounts s.st.lastRecoveryId)[0]? = some wc →
          sendable json source call 0 wc = false) := by
  cases opens : call.opens with
  | false =>
    have nothing : (attempt json source call s.st e).AllOrNothing s.st.lastRecoveryId := by
      refine .inr ⟨?_, ?_⟩
      · simp only [attempt, opens]
        rfl
      · simp only [attempt, opens]
        rfl
    exact ⟨fun _ impossible => absurd impossible Bool.false_ne_true, fun _ => nothing⟩
  | true =>
    obtain ⟨done, all⟩ := sendCounts_done json source call 0 (e.wordCounts s.st.lastRecoveryId)
    simp only [Nat.zero_add] at done
    rw [← done, ← sendCounts_eq_nil_iff]
    unfold Attempt.AllOrNothing attempt
    simp only [opens, if_true, forall_const, Bool.not_eq_false', Bool.not_eq_true']
    cases ended : (sendCounts json source call.sends 0 (e.wordCounts s.st.lastRecoveryId)).2 with
    | true => simp [all ended]
    | false => simp

theorem lastStreamId_of_raised (raised : (attempt json source call s.st e).raised = true) :
    (attempt json source call s.st e).lastStreamId = s.st.lastStreamId := by
  unfold attempt at raised ⊢
  simp only [Bool.not_eq_true'] at raised
  simp only [raised, Bool.false_eq_true, if_false]

/-- What a call does: it finds the end of the stream, or it makes an attempt at an entry. -/
theorem step_cases (stepped : step json source stream s call = some s') :
    (stream.xread s.st.lastStreamId = none ∧
      s' = { s with st := { s.st with isWcDone := true } }) ∨
    ∃ e, stream.xread s.st.lastStreamId = some e ∧
      s' = { st := { s.st with lastStreamId := (attempt json source call s.st e).lastStreamId }
             attempts := s.attempts ++ [attempt json source call s.st e] } := by
  unfold step at stepped
  split at stepped
  · cases stepped
  · split at stepped
    · rename_i ended
      cases stepped
      exact .inl ⟨ended, rfl⟩
    · rename_i e found
      cases stepped
      exact .inr ⟨e, found, rfl⟩

/-- Nothing is recovered, and the attempts are all or nothing exactly if the calls have met the
condition. -/
theorem allOrNothing_iff {cs : List Call} (run : (system json source stream).Run cs s) :
    s.st.lastRecoveryId = 0 ∧ ((∀ a ∈ s.attempts, a.AllOrNothing 0) ↔
      (system json source stream).Meets (Whole json source stream) cs) := by
  refine System.run_induction (S := system json source stream)
    (P := fun cs s => s.st.lastRecoveryId = 0 ∧ ((∀ a ∈ s.attempts, a.AllOrNothing 0) ↔
      (system json source stream).Meets (Whole json source stream) cs)) ?_ ?_ run
  · exact ⟨rfl, fun _ => trivial, fun _ a member => absurd member List.not_mem_nil⟩
  · intro cs s call s' earlier ih stepped
    obtain ⟨recoveryId, before⟩ := ih
    have meets_iff : (system json source stream).Meets (Whole json source stream) (cs ++ [call]) ↔
        (system json source stream).Meets (Whole json source stream) cs ∧
          Whole json source stream s call :=
      ⟨System.meets_snoc earlier, fun both => System.Meets.snoc earlier both.1 both.2 stepped⟩
    rw [meets_iff, ← before]
    rcases step_cases stepped with ⟨ended, rfl⟩ | ⟨e, found, rfl⟩
    · refine ⟨recoveryId, fun all => ⟨all, ?_⟩, And.left⟩
      intro e found
      rw [ended] at found
      cases found
    · have whole : Whole json source stream s call ↔
          (attempt json source call s.st e).AllOrNothing 0 := by
        have same : (attempt json source call s.st e).AllOrNothing s.st.lastRecoveryId ↔ _ :=
          attempt_allOrNothing_iff
        unfold Whole
        rw [found]
        rw [recoveryId] at same ⊢
        rw [same]
        constructor
        · exact fun each => each e rfl
        · intro here e' found'
          cases found'
          exact here
      refine ⟨recoveryId, ?_⟩
      rw [whole, List.forall_mem_append]
      exact and_congr_right fun _ => List.forall_mem_singleton

/-- As long as every attempt is all or nothing, no count is sent twice: the entries of which
counts were sent are done. -/
theorem sentWords_nodup {cs : List Call} (run : (system json source stream).Run cs s)
    (all : ∀ a ∈ s.attempts, a.AllOrNothing 0) :
    s.sentWords.Nodup ∧ ∀ sent ∈ s.sentWords, sent.1 ≤ s.st.lastStreamId := by
  refine System.run_invariant (S := system json source stream)
    (P := fun s => (∀ a ∈ s.attempts, a.AllOrNothing 0) →
      s.sentWords.Nodup ∧ ∀ sent ∈ s.sentWords, sent.1 ≤ s.st.lastStreamId) ?_ ?_ run all
  · exact fun _ => ⟨List.nodup_nil, fun _ member => absurd member List.not_mem_nil⟩
  · intro s call s' ih stepped all
    rcases step_cases stepped with ⟨_, rfl⟩ | ⟨e, found, rfl⟩
    · exact ih all
    · obtain ⟨before, last⟩ := List.forall_mem_append.mp all
      obtain ⟨distinct, done⟩ := ih before
      have later : s.st.lastStreamId < e.id := by
        simpa using List.find?_some found
      have split (a : Attempt) (st : MapperState) :
          State.sentWords { st := st, attempts := s.attempts ++ [a] } =
            s.sentWords ++ a.sent.map fun wc => (a.entry.id, wc.word) := by
        simp [State.sentWords]
      rw [split]
      rcases List.forall_mem_singleton.mp last with ⟨_, sent, moved⟩ | ⟨raised, nothing⟩
      · refine ⟨List.nodup_append.mpr ⟨distinct, ?_, ?_⟩, ?_⟩
        · have words := nodup_wordCounts e 0
          rw [sent]
          have keyed := words.map (f := fun w => (e.id, w)) fun _ _ same => (Prod.mk.inj same).2
          rwa [List.map_map] at keyed
        · intro old oldSent new newSent same
          obtain ⟨wc, _, rfl⟩ := List.mem_map.mp newSent
          have := done old oldSent
          rw [same] at this
          exact absurd later (Nat.not_lt_of_le this)
        · intro p member
          rcases List.mem_append.mp member with old | new
          · exact Nat.le_trans (done p old) (moved.symm ▸ Nat.le_of_lt later)
          · obtain ⟨wc, _, rfl⟩ := List.mem_map.mp new
            exact Nat.le_of_eq moved.symm
      · have stayed := lastStreamId_of_raised raised
        rw [nothing, List.map_nil, List.append_nil, stayed]
        exact ⟨distinct, done⟩

end Step

/-- In every run of a mapper: all its attempts are all or nothing, and no count of a file is
sent twice, if and only if in every call that reads a file all its words can be sent or the first
one cannot. -/
theorem word_count_all_or_nothing_iff (json : JsonModule) (source : String) (stream : Stream)
    {cs : List Call} {s : State} (run : (system json source stream).Run cs s) :
    ((∀ a ∈ s.attempts, a.AllOrNothing 0) ∧ s.sentWords.Nodup) ↔
      (system json source stream).Meets (Whole json source stream) cs := by
  rw [← (allOrNothing_iff run).2]
  exact ⟨And.left, fun all => ⟨all, (sentWords_nodup run all).1⟩⟩

/-- One file with one row. -/
def oneFile (row : String) : Stream where
  entries := [{ id := 1, rows := [row] }]
  increasing := List.pairwise_singleton _ _
  positive := by
    intro e member
    rw [List.mem_singleton.mp member]
    exact Nat.one_pos

/-- Nothing fails. -/
def Call.fine : Call where
  opens := true
  sends _ := true

/-- In the first call the file cannot be read, in the second all its words are sent. -/
theorem word_count_all_or_nothing_iff_retry :
    ∃ s, (system Json.objectModule "Mapper_0" (oneFile "a b")).Run
        [{ Call.fine with opens := false }, Call.fine] s ∧
      s.attempts.length = 2 ∧ (∀ a ∈ s.attempts, a.AllOrNothing 0) ∧ s.sentWords.Nodup := by
  have ran : ((system Json.objectModule "Mapper_0" (oneFile "a b")).runFrom
      (system Json.objectModule "Mapper_0" (oneFile "a b")).init
        [{ Call.fine with opens := false }, Call.fine]).any
          (fun s => decide (s.attempts.length = 2)) = true := by decide +kernel
  obtain ⟨s, run, two⟩ := (Option.any_eq_true _ _).mp ran
  refine ⟨s, run, of_decide_eq_true two, ?_⟩
  refine (word_count_all_or_nothing_iff Json.objectModule "Mapper_0" (oneFile "a b") run).mpr ?_
  refine ⟨fun e _ opens => absurd opens Bool.false_ne_true, ?_⟩
  intro next stepped
  refine ⟨?_, fun _ _ => trivial⟩
  cases stepped
  intro e found _
  have sends : (e.wordCounts 0).all (sendable Json.objectModule "Mapper_0" Call.fine 0) = true := by
    cases found
    decide +kernel
  exact .inl fun k wc here => List.all_eq_true.mp sends wc (List.mem_of_getElem? here)

/-- Two spaces in a row: the word between them is empty. The count of the word before them is
sent in the first call, and again in the second. -/
theorem not_word_count_all_or_nothing :
    ∃ s, (system Json.objectModule "Mapper_0" (oneFile "a  b")).Run [Call.fine, Call.fine] s ∧
      ¬ (∀ a ∈ s.attempts, a.AllOrNothing 0) ∧ ¬ s.sentWords.Nodup := by
  have ran : ((system Json.objectModule "Mapper_0" (oneFile "a  b")).runFrom
      (system Json.objectModule "Mapper_0" (oneFile "a  b")).init [Call.fine, Call.fine]).any
        (fun s => decide (s.sentWords = [(1, "a"), (1, "a")])) = true := by decide +kernel
  obtain ⟨s, run, twice⟩ := (Option.any_eq_true _ _).mp ran
  have sent := of_decide_eq_true twice
  have again : ¬ s.sentWords.Nodup := by
    rw [sent]
    decide
  exact ⟨s, run, fun all => again (sentWords_nodup run all).1, again⟩

end Attempts

end Col733.Lab2

import Col733.Lab2.Mapper
import Col733.Misc.System
import Mathlib.Algebra.BigOperators.Fin

/-!
# Word count over channels of words

What the word count of lab 2 is for, without the bytes: the mappers put the counts of their
files into channels, one for each mapper and reducer; the reducers move them to their command
queues, and from there into their `wc`. Every count that a mapper has sent is in exactly one
of these places, whatever the order of the steps. An entry that has a word without a socket
is sent again and again, but a mapper with such an entry never comes to the end of its stream.
-/

namespace Col733.Lab2.Words

variable {m : Nat}

inductive Action (m : Nat) where
  | read (i : Fin m)
  | send (i : Fin m)
  | finish (i : Fin m)
  | enqueue (i : Fin m) (r : Fin 2)
  | handle (r : Fin 2)

structure State (m : Nat) where
  mappers : Fin m → MapperState
  channel : Fin m × Fin 2 → List (String × Int)
  queue : Fin 2 → List (String × Int)
  wc : Fin 2 → Dict String Int

namespace State

def initial (m : Nat) : State m where
  mappers := fun _ => {}
  channel := fun _ => []
  queue := fun _ => []
  wc := fun _ => Dict.empty

/-- A mapper has moved, and has sent nothing. -/
def setMapper (s : State m) (i : Fin m) (st : MapperState) : State m :=
  { s with mappers := Function.update s.mappers i st }

/-- An item is put at the end of a channel. -/
def put (s : State m) (i : Fin m) (r : Fin 2) (item : String × Int) : State m :=
  { s with channel := Function.update s.channel (i, r) (s.channel (i, r) ++ [item]) }

/-- What the mappers have sent for a word. -/
def sent (streams : Fin m → Stream) (w : String) (s : State m) : Int :=
  ∑ i, (s.mappers i).sent (streams i) w

/-- What has been sent for a word and is in a channel, in a queue or counted. -/
def found (w : String) (s : State m) : Int :=
  ∑ c, amount w (s.channel c) + ∑ r, amount w (s.queue r) + ∑ r, (s.wc r).tally w

/-- Some mapper has an entry before it that it cannot send. -/
def Blocked (streams : Fin m → Stream) (s : State m) : Prop :=
  ∃ i, (s.mappers i).Blocked (streams i)

/-- Nothing is left to do. -/
structure Quiet (s : State m) : Prop where
  done : ∀ i, (s.mappers i).isWcDone = true
  channel : ∀ c, s.channel c = []
  queue : ∀ r, s.queue r = []

end State

def step (streams : Fin m → Stream) (s : State m) : Action m → Option (State m)
  | .read i => ((s.mappers i).read (streams i)).map (s.setMapper i)
  | .send i =>
    (s.mappers i).item?.map fun item =>
      match word2Socket item.1 with
      | some r => (s.setMapper i (s.mappers i).advance).put i r item
      | none => s.setMapper i (s.mappers i).abandon
  | .finish i => (s.mappers i).finish.map (s.setMapper i)
  | .enqueue i r =>
    match s.channel (i, r) with
    | [] => none
    | item :: rest =>
      some { s with
        channel := Function.update s.channel (i, r) rest
        queue := Function.update s.queue r (s.queue r ++ [item]) }
  | .handle r =>
    match s.queue r with
    | [] => none
    | item :: rest =>
      some { s with
        queue := Function.update s.queue r rest
        wc := Function.update s.wc r ((s.wc r).add item.1 item.2) }

def system (streams : Fin m → Stream) : System (State m) (Action m) where
  init := State.initial m
  step := step streams

/-- The items are counts, of words for the reducer `r`. -/
def Routed (r : Fin 2) (items : List (String × Int)) : Prop :=
  ∀ item ∈ items, word2Socket item.1 = some r ∧ 0 < item.2

/-- The reducer `r` counts only words that are sent to it. -/
def Counts (r : Fin 2) (wc : Dict String Int) : Prop :=
  wc.Positive ∧ ∀ w, wc.contains w = true → word2Socket w = some r

/-- What holds in every state that is reached. -/
structure Inv (streams : Fin m → Stream) (s : State m) : Prop where
  mappers : ∀ i, (s.mappers i).Valid (streams i)
  channel : ∀ c, Routed c.2 (s.channel c)
  queue : ∀ r, Routed r (s.queue r)
  wc : ∀ r, Counts r (s.wc r)
  account : s.Blocked streams ∨ ∀ w, s.sent streams w = s.found w

section Steps

variable {streams : Fin m → Stream} {s s' : State m} {i : Fin m} {r : Fin 2}
  {st : MapperState} {item : String × Int} {items : List (String × Int)}

theorem Routed.concat (routed : Routed r items) (socket : word2Socket item.1 = some r)
    (pos : 0 < item.2) : Routed r (items ++ [item]) := by
  intro other member
  rcases List.mem_append.mp member with before | last
  · exact routed other before
  · exact List.mem_singleton.mp last ▸ ⟨socket, pos⟩

theorem Routed.tail (routed : Routed r (item :: items)) : Routed r items :=
  fun other member => routed other (List.mem_cons_of_mem _ member)

theorem Counts.add {wc : Dict String Int} (counts : Counts r wc)
    (socket : word2Socket item.1 = some r) (pos : 0 < item.2) :
    Counts r (wc.add item.1 item.2) := by
  refine ⟨counts.1.add item.1 pos, fun w held => ?_⟩
  rw [Dict.add, Dict.contains_set, Bool.or_eq_true, decide_eq_true_eq] at held
  rcases held with rfl | before
  · exact socket
  · exact counts.2 w before

theorem inv_initial : Inv streams (State.initial m) where
  mappers _ := MapperState.valid_initial
  channel _ := by rintro item ⟨⟩
  queue _ := by rintro item ⟨⟩
  wc _ := ⟨Dict.positive_empty, by rintro w ⟨⟩⟩
  account := by
    refine .inr fun w => ?_
    unfold State.sent State.found State.initial
    simp only [MapperState.sent_initial, amount_nil, Dict.tally_empty, Finset.sum_const_zero]
    rfl

theorem sent_setMapper (w : String) :
    (s.setMapper i st).sent streams w =
      s.sent streams w + (st.sent (streams i) w - (s.mappers i).sent (streams i) w) :=
  sum_update (fun i st => MapperState.sent (streams i) w st) s.mappers i st

theorem found_put (w : String) :
    (s.put i r item).found w = s.found w + if item.1 = w then item.2 else 0 := by
  have channel := sum_update (fun _ items => amount w items) s.channel (i, r)
    (s.channel (i, r) ++ [item])
  rw [amount_append, amount_cons, amount_nil] at channel
  unfold State.put State.found
  dsimp only
  rw [channel]
  omega

theorem valid_setMapper (inv : Inv streams s) (valid : st.Valid (streams i)) :
    ∀ j, ((s.setMapper i st).mappers j).Valid (streams j) :=
  System.holds_update (P := fun j st => MapperState.Valid (streams j) st) inv.mappers valid

/-- A mapper that is blocked stays so as long as no entry is done. -/
theorem blocked_setMapper (kept : (s.mappers i).Blocked (streams i) → st.Blocked (streams i))
    (blocked : s.Blocked streams) : (s.setMapper i st).Blocked streams := by
  obtain ⟨j, stuck⟩ := blocked
  refine ⟨j, ?_⟩
  show (Function.update s.mappers i st j).Blocked (streams j)
  by_cases same : j = i
  · subst same
    rw [Function.update_self]
    exact kept stuck
  · rw [Function.update_of_ne same]
    exact stuck

/-- A mapper moves and sends nothing. -/
theorem inv_setMapper (inv : Inv streams s) (valid : st.Valid (streams i))
    (same : ∀ w, st.sent (streams i) w = (s.mappers i).sent (streams i) w)
    (kept : (s.mappers i).Blocked (streams i) → st.Blocked (streams i)) :
    Inv streams (s.setMapper i st) where
  mappers := valid_setMapper inv valid
  channel := inv.channel
  queue := inv.queue
  wc := inv.wc
  account := by
    refine inv.account.imp (blocked_setMapper kept) fun account w => ?_
    rw [sent_setMapper, same, Int.sub_self, Int.add_zero]
    exact account w

theorem inv_read (inv : Inv streams s)
    (moved : ((s.mappers i).read (streams i)).map (s.setMapper i) = some s') :
    Inv streams s' := by
  obtain ⟨st, read, rfl⟩ := Option.map_eq_some_iff.mp moved
  obtain ⟨valid, same, kept⟩ := MapperState.read_spec read (inv.mappers i)
  apply inv_setMapper inv valid same
  unfold MapperState.Blocked
  rw [kept]
  exact id

theorem inv_finish (inv : Inv streams s)
    (moved : (s.mappers i).finish.map (s.setMapper i) = some s') : Inv streams s' := by
  obtain ⟨st, finished, rfl⟩ := Option.map_eq_some_iff.mp moved
  obtain ⟨valid, same, free⟩ := MapperState.finish_spec finished (inv.mappers i)
  exact inv_setMapper inv valid same fun blocked => absurd blocked free

/-- The item goes from the file into the channel of its word. -/
theorem inv_put (inv : Inv streams s) (standing : (s.mappers i).item? = some item)
    (routed : word2Socket item.1 = some r) :
    Inv streams ((s.setMapper i (s.mappers i).advance).put i r item) := by
  obtain ⟨valid, added⟩ := MapperState.advance_spec standing
    (by rw [routed]; exact Option.some_ne_none r) (inv.mappers i)
  refine ⟨valid_setMapper inv valid, ?_, inv.queue, inv.wc, ?_⟩
  · have pos : 0 < item.2 := by
      obtain ⟨e, _, counted⟩ := MapperState.mem_of_item? standing (inv.mappers i)
      exact (Dict.positive_counter (words e.rows)).of_mem counted
    exact System.holds_update (P := fun (c : Fin m × Fin 2) => Routed c.2) inv.channel
      ((inv.channel (i, r)).concat routed pos)
  · refine inv.account.imp (blocked_setMapper id) fun account w => ?_
    show (s.setMapper i (s.mappers i).advance).sent streams w = _
    rw [sent_setMapper, added, found_put]
    have before : s.sent streams w = (s.setMapper i (s.mappers i).advance).found w := account w
    omega

/-- An item that cannot be sent: its entry is before the mapper, and stays there. -/
theorem inv_abandon (inv : Inv streams s) (standing : (s.mappers i).item? = some item)
    (unrouted : word2Socket item.1 = none) :
    Inv streams (s.setMapper i (s.mappers i).abandon) where
  mappers := valid_setMapper inv (MapperState.abandon_valid (inv.mappers i))
  channel := inv.channel
  queue := inv.queue
  wc := inv.wc
  account := by
    obtain ⟨e, next, counted⟩ := MapperState.mem_of_item? standing (inv.mappers i)
    refine .inl (blocked_setMapper id ⟨i, e, next, item, counted, unrouted⟩)

theorem inv_send (inv : Inv streams s) (moved : step streams s (.send i) = some s') :
    Inv streams s' := by
  obtain ⟨item, standing, same⟩ := Option.map_eq_some_iff.mp moved
  split at same
  · rename_i routed
    exact same ▸ inv_put inv standing routed
  · rename_i unrouted
    exact same ▸ inv_abandon inv standing unrouted

/-- An item goes from the channel into the queue. -/
theorem inv_enqueue (inv : Inv streams s) (moved : step streams s (.enqueue i r) = some s') :
    Inv streams s' := by
  simp only [step] at moved
  split at moved
  · cases moved
  · rename_i item rest waiting
    cases moved
    have routed := inv.channel (i, r)
    rw [waiting] at routed
    refine ⟨inv.mappers, ?_, ?_, inv.wc, inv.account.imp_right fun account w => ?_⟩
    · exact System.holds_update (P := fun (c : Fin m × Fin 2) => Routed c.2) inv.channel routed.tail
    · obtain ⟨socket, pos⟩ := routed item List.mem_cons_self
      exact System.holds_update (P := Routed) inv.queue ((inv.queue r).concat socket pos)
    · have channel := sum_update (fun _ items => amount w items) s.channel (i, r) rest
      have queue := sum_update (fun _ items => amount w items) s.queue r (s.queue r ++ [item])
      rw [waiting, amount_cons] at channel
      rw [amount_append, amount_cons, amount_nil] at queue
      have before : s.sent streams w = _ := account w
      unfold State.found at before ⊢
      dsimp only
      rw [channel, queue]
      show s.sent streams w = _
      omega

/-- The command of an item is handled: its count is added. -/
theorem inv_handle (inv : Inv streams s) (moved : step streams s (.handle r) = some s') :
    Inv streams s' := by
  simp only [step] at moved
  split at moved
  · cases moved
  · rename_i item rest waiting
    cases moved
    have routed := inv.queue r
    rw [waiting] at routed
    obtain ⟨socket, pos⟩ := routed item List.mem_cons_self
    refine ⟨inv.mappers, inv.channel, ?_, ?_, inv.account.imp_right fun account w => ?_⟩
    · exact System.holds_update (P := Routed) inv.queue routed.tail
    · exact System.holds_update (P := Counts) inv.wc ((inv.wc r).add socket pos)
    · have queue := sum_update (fun _ items => amount w items) s.queue r rest
      have wc := sum_update (fun _ d => d.tally w) s.wc r ((s.wc r).add item.1 item.2)
      rw [waiting, amount_cons] at queue
      rw [Dict.tally_add] at wc
      have before : s.sent streams w = _ := account w
      unfold State.found at before ⊢
      dsimp only
      rw [queue, wc]
      show s.sent streams w = _
      omega

theorem inv_step {s s' : State m} {a : Action m} (inv : Inv streams s)
    (moved : step streams s a = some s') : Inv streams s' := by
  cases a with
  | read i => exact inv_read inv moved
  | send i => exact inv_send inv moved
  | finish i => exact inv_finish inv moved
  | enqueue i r => exact inv_enqueue inv moved
  | handle r => exact inv_handle inv moved

theorem inv_run {as : List (Action m)} (run : (system streams).Run as s) : Inv streams s :=
  System.run_invariant (P := Inv streams) inv_initial (fun _ _ _ inv moved => inv_step inv moved)
    run

/-! ## When nothing is left to do -/

/-- A mapper at the end of its stream has sent every word of it. -/
theorem sent_of_done (valid : st.Valid (streams i)) (done : st.isWcDone = true) (w : String) :
    st.sent (streams i) w = (streams i).occurrences w := by
  have ended := valid.done done
  have idle : st.job = none := by
    cases running : st.job with
    | none => rfl
    | some job =>
      have next := valid.next job running
      rw [ended] at next
      cases next
  unfold MapperState.sent
  rw [idle, Stream.amountUpTo_of_xread_none ended]
  exact Int.add_zero _

theorem not_blocked_of_done (inv : Inv streams s) (done : ∀ i, (s.mappers i).isWcDone = true) :
    ¬ s.Blocked streams := by
  rintro ⟨i, e, next, _⟩
  rw [(inv.mappers i).done (done i)] at next
  cases next

/-- The two reducers have counted all words. -/
theorem counted (inv : Inv streams s) (quiet : s.Quiet) (w : String) :
    (s.wc 0).tally w + (s.wc 1).tally w = ((∑ i, (streams i).occurrences w : Nat) : Int) := by
  have account := inv.account.resolve_left (not_blocked_of_done inv quiet.done) w
  unfold State.sent State.found at account
  simp only [quiet.channel, quiet.queue, amount_nil, Finset.sum_const_zero, Int.zero_add,
    Fin.sum_univ_two] at account
  rw [← account, Nat.cast_sum]
  exact Finset.sum_congr rfl fun i _ => sent_of_done (inv.mappers i) (quiet.done i) w

/-- No word is with both reducers. -/
theorem not_contains_both (inv : Inv streams s) (w : String) :
    ¬ ((s.wc 0).contains w = true ∧ (s.wc 1).contains w = true) := by
  rintro ⟨first, second⟩
  have zero := (inv.wc 0).2 w first
  rw [(inv.wc 1).2 w second] at zero
  cases zero

/-- The merge of the two dictionaries has the words of the files, with their counts. -/
theorem get?_merge_of_quiet (inv : Inv streams s) (quiet : s.Quiet) (w : String) :
    ((s.wc 0).merge (s.wc 1)).get? w =
      if ∑ i, (streams i).occurrences w = 0 then none
      else some ((∑ i, (streams i).occurrences w : Nat) : Int) := by
  have total := counted inv quiet w
  rw [Dict.get?_merge]
  by_cases second : (s.wc 1).contains w = true
  · obtain ⟨n, held⟩ := Dict.contains_iff_get?.mp second
    have absent : (s.wc 0).get? w = none := by
      by_contra present
      exact not_contains_both inv w ⟨Option.isSome_iff_ne_none.mpr present, second⟩
    have pos := (inv.wc 1).1 w n held
    unfold Dict.tally at total
    rw [absent, held, Option.getD_none, Option.getD_some, Int.zero_add] at total
    rw [held, if_neg (by omega), ← total]
    rfl
  · have absent : (s.wc 1).get? w = none := by
      by_contra present
      exact second (Option.isSome_iff_ne_none.mpr present)
    have zero : (s.wc 1).tally w = 0 := by
      rw [Dict.tally, absent]
      rfl
    rw [zero, Int.add_zero] at total
    rw [absent, Option.none_or, (inv.wc 0).1.get?_eq, total]
    simp only [Int.natCast_eq_zero]

end Steps

end Col733.Lab2.Words

import Col733.Lab4.Storage
import Col733.Misc.SortedList

/-!
# The order of the tentative log

`LogicalTime.__lt__` compares the timestamps, and the names of the servers where the timestamps
are equal. This is a strict total order, so that the tentative log, which is sorted by it, does
not depend on the order in which the entries have arrived.
-/

namespace Col733.Lab4

namespace LogicalTime

/-- `__lt__` -/
def lt (self other : LogicalTime) : Bool :=
  if self.ts < other.ts then true
  else if self.ts > other.ts then false
  else decide (self.name < other.name)

/-- `__eq__`, for another `LogicalTime`. -/
def eq (self other : LogicalTime) : Bool := self.ts == other.ts && self.name == other.name

variable {a b c : LogicalTime}

theorem lt_iff : lt a b = true ↔ a.ts < b.ts ∨ a.ts = b.ts ∧ a.name < b.name := by
  unfold lt
  split
  · rename_i sooner
    exact iff_of_true rfl (.inl sooner)
  · split
    · rename_i notSooner later
      refine iff_of_false Bool.false_ne_true ?_
      rintro (sooner | ⟨same, _⟩) <;> omega
    · rename_i notSooner notLater
      have same : a.ts = b.ts := by omega
      simp [same]

theorem eq_iff : eq a b = true ↔ a = b := by
  rcases a with ⟨n, t⟩
  rcases b with ⟨m, u⟩
  simp [eq, and_comm]

/-- The comparison of the times is the one of the fields of a request, where those have the
annotated types. -/
theorem raw_before_raw : a.raw.before b.raw = lt a b := by
  rw [Bool.eq_iff_iff, RawTime.before_iff_lt, lt_iff]
  rfl

theorem strictTotal : StrictTotal lt eq where
  irrefl a := by
    rw [← Bool.not_eq_true, lt_iff]
    rintro (sooner | ⟨_, less⟩)
    · omega
    · exact lt_irrefl _ less
  trans a b c ab bc := by
    rw [lt_iff] at ab bc ⊢
    rcases ab with ab | ⟨same, less⟩
    · rcases bc with bc | ⟨same', _⟩ <;> exact .inl (by omega)
    · rcases bc with bc | ⟨same', less'⟩
      · exact .inl (by omega)
      · exact .inr ⟨same.trans same', less.trans less'⟩
  total a b := by
    rw [lt_iff, lt_iff, eq_iff]
    rcases lt_trichotomy a.ts b.ts with sooner | same | later
    · exact .inr (.inl (.inl sooner))
    · rcases lt_trichotomy a.name b.name with less | same' | greater
      · exact .inr (.inl (.inr ⟨same, less⟩))
      · exact .inl (by cases a; cases b; simp_all)
      · exact .inr (.inr (.inr ⟨same.symm, greater⟩))
    · exact .inr (.inr (.inl later))
  eq_iff _ _ := eq_iff

end LogicalTime

/-- An `AppLogEntry` whose time has the types of its annotations. -/
structure TimedEntry where
  char : Json
  ltime : LogicalTime

namespace TimedEntry

/-- `LogEntry.__lt__` -/
def lt (self other : TimedEntry) : Bool := self.ltime.lt other.ltime

/-- `LogEntry.__eq__`, for another `LogEntry`. -/
def eq (self other : TimedEntry) : Bool := self.ltime.eq other.ltime

/-- The entry as a request or a reply holds it. -/
def entry (e : TimedEntry) : AppLogEntry := { char := e.char, ltime := e.ltime.raw }

/-- Every entry that has a time of the annotated types is one of these. -/
theorem exists_entry {e : AppLogEntry} {l : LogicalTime} (typed : e.ltime = l.raw) :
    ∃ t : TimedEntry, t.entry = e ∧ t.ltime = l := by
  rcases e with ⟨char, ltime⟩
  cases typed
  exact ⟨⟨char, l⟩, rfl, rfl⟩

/-- The entries of one server, in a strictly increasing sequence. -/
theorem increasing_of_server {sequence : List TimedEntry}
    (strict : sequence.Pairwise fun e e' => e.ltime.lt e'.ltime = true) (server : String) :
    (sequence.filter fun e => e.ltime.name = server).Pairwise
      fun e e' => e.ltime.ts < e'.ltime.ts := by
  rw [List.pairwise_filter]
  refine strict.imp fun {e e'} before here here' => ?_
  have name := (of_decide_eq_true here).trans (of_decide_eq_true here').symm
  rcases LogicalTime.lt_iff.mp before with sooner | ⟨_, less⟩
  · exact sooner
  · rw [name] at less
    exact absurd less (lt_irrefl _)

end TimedEntry

/-- The times are in a strict total order, which the entries follow; and a list that is kept
sorted by them, as `SortedList` does, holds the same strictly increasing sequence of entries,
however they have arrived: one after the other (`add`, an update with one entry) or many at
once. The entries of one server appear by increasing timestamp. -/
theorem log_order_independent {update : List TimedEntry → List TimedEntry → List TimedEntry}
    (keeps : KeepsSorted LogicalTime.lt TimedEntry.ltime update) :
    StrictTotal LogicalTime.lt LogicalTime.eq ∧
    (∀ e e' : TimedEntry, e.lt e' = e.ltime.lt e'.ltime ∧ (e.eq e' = true ↔ e.ltime = e'.ltime)) ∧
    ∀ entries : List TimedEntry, DistinctBy TimedEntry.ltime entries →
      ∃ sequence : List TimedEntry, sequence.Perm entries ∧
        (sequence.Pairwise fun e e' => e.ltime.lt e'.ltime = true) ∧
        (∀ batches : List (List TimedEntry), batches.flatten.Perm entries →
          batches.foldl update [] = sequence) ∧
        ∀ server, (sequence.filter fun e => e.ltime.name = server).Pairwise
          fun e e' => e.ltime.ts < e'.ltime.ts := by
  refine ⟨LogicalTime.strictTotal, fun e e' => ⟨rfl, LogicalTime.eq_iff⟩, fun entries distinct => ?_⟩
  obtain ⟨sequence, same, strict, arrivals⟩ := keeps.unique LogicalTime.strictTotal distinct
  exact ⟨sequence, same, strict, arrivals, TimedEntry.increasing_of_server strict⟩

/-- Two entries with the same timestamp, in both orders. -/
theorem log_order_independent_pair :
    let update := resort LogicalTime.lt TimedEntry.ltime
    let e : TimedEntry := { char := .str "x", ltime := { name := "s1", ts := 3 } }
    let e' : TimedEntry := { char := .str "y", ltime := { name := "s2", ts := 3 } }
    update (update [] [e]) [e'] = update (update [] [e']) [e] := by
  intro update e e'
  have keeps : KeepsSorted LogicalTime.lt TimedEntry.ltime update :=
    keepsSorted_resort LogicalTime.strictTotal TimedEntry.ltime
  have distinct : DistinctBy TimedEntry.ltime [e, e'] := by
    simp [DistinctBy, e, e']
  obtain ⟨_, _, independent⟩ := log_order_independent keeps
  obtain ⟨sequence, _, _, arrivals, _⟩ := independent [e, e'] distinct
  have inOrder := arrivals [[e], [e']] (List.Perm.refl _)
  have reversed := arrivals [[e'], [e]] (List.Perm.swap e e' [])
  exact inOrder.trans reversed.symm

end Col733.Lab4

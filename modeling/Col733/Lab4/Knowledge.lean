import Col733.Misc.VersionVector
import Col733.Lab4.Partition

/-!
# What a storage has of the writes

The entries of a server are known by their times, and its vectors `c` and `f` say for each server
up to which time its writes are committed here, and up to which they are here. The storage
operations of the reader are to take down what the vectors lack, to move the vectors to times of
entries alone, to delete tentative entries that are committed, and to look up what the vectors
of another server lack. Then a storage has, with a write, all earlier ones of the same server, in
both logs together as in the committed one, and what it is told of brings it everything that the
other one has.
-/

namespace Col733.Lab4

open VersionVector

/-- The time of an entry, for the name of a server and what its clock read. -/
def stamp (w : String × Int) : RawTime := ({ name := w.1, ts := w.2 } : LogicalTime).raw

/-- The times of the entries. -/
def times (entries : List AppLogEntry) : Set (String × Int) :=
  {w | ∃ e ∈ entries, e.ltime = stamp w}

/-- The timestamp that the vector holds for the server, 0 if there is none. -/
def VectorTime.known (v : VectorTime) (name : String) : Int :=
  match v.get? name with
  | some t => t.ts
  | none => 0

/-- The times that the vector holds. -/
def VectorTime.held (v : VectorTime) : Set (String × Int) := {w | v.known w.1 = w.2}

/-- The vector moves to the given times alone, and forgets no server. -/
def VectorTime.MovesTo (v v' : VectorTime) (given : Set (String × Int)) : Prop :=
  ∀ name, (v.contains name = true → v'.contains name = true) ∧
    (v'.known name = v.known name ∨ (name, v'.known name) ∈ given)

/-- What `apply` makes of a storage. Entries are told apart by their times alone, and those that
the committed vector covers may be deleted from the tentative log. -/
structure Storage.Applied (st : Storage) (commits tentatives : List AppLogEntry) (st' : Storage) :
    Prop where
  only : ∀ e ∈ st'.entries, e ∈ st.entries ∨ e ∈ commits ∨ e ∈ tentatives
  onlyCommitted : ∀ e ∈ st'.committedLog, e ∈ st.committedLog ∨ e ∈ commits
  /-- What is committed stays, and what the vector lacks is taken down. -/
  committed : ∀ e, (e ∈ st.committedLog ∨ e ∈ commits ∧ st.c.lacks e = true) →
    ∃ e' ∈ st'.committedLog, e'.ltime = e.ltime
  tentative : ∀ e, (e ∈ st.tentativeLog ∨ e ∈ tentatives ∧ st.f.lacks e = true) →
    st'.c.lacks e = true → ∃ e' ∈ st'.entries, e'.ltime = e.ltime
  c : st.c.MovesTo st'.c (times (st'.committedLog ++ commits))
  f : st.f.MovesTo st'.f (times (st'.entries ++ commits ++ tentatives) ∪ st'.c.held)

/-- What `anti_entropy` tells another storage: what the vectors of the other lack. -/
structure Storage.Told (st : Storage) (c f : VectorTime) (committed tentative : List AppLogEntry) :
    Prop where
  only : ∀ e ∈ committed ++ tentative, e ∈ st.entries
  onlyCommitted : ∀ e ∈ committed, e ∈ st.committedLog
  committed : ∀ e ∈ st.committedLog, c.lacks e = true → e ∈ committed
  tentative : ∀ e ∈ st.tentativeLog, f.lacks e = true → e ∈ tentative

/-- What the storage operations and the package do, as far as the spreading of the writes depends
on it. -/
structure Spreads (env : Env) : Prop where
  apply : ∀ (st : Storage) commits tentatives,
    st.Applied commits tentatives (env.apply st commits tentatives).2
  reads : ReadsOnly env
  tells : ∀ (st : Storage) c f committed tentative st',
    env.antiEntropy st c f = (.ok (committed, tentative), st') → st.Told c f committed tentative
  sorts : SortsEntries env
  sorted : ∀ entries sorted, env.sortedList entries = .ok sorted → ∀ e, e ∈ sorted ↔ e ∈ entries

theorem Spreads.keeps {env : Env} (spreads : Spreads env) : KeepsEntries env where
  apply st commits tentatives := (spreads.apply st commits tentatives).only
  antiEntropy st c f e member := by
    rw [spreads.reads] at member
    exact member
  told st c f committed tentative st' answered := (spreads.tells _ _ _ _ _ _ answered).only
  sortedList entries sorted sortable e := (spreads.sorted entries sorted sortable e).mp

section Times

variable {entries entries' : List AppLogEntry} {w : String × Int} {v : VectorTime}

theorem stamp_injective {w w' : String × Int} (same : stamp w = stamp w') : w = w' := by
  obtain ⟨name, ts⟩ := w
  obtain ⟨name', ts'⟩ := w'
  cases same
  rfl

@[simp] theorem times_nil : times [] = ∅ := by
  ext w
  simp [times]

@[simp] theorem times_append : times (entries ++ entries') = times entries ∪ times entries' := by
  ext w
  constructor
  · rintro ⟨e, member, time⟩
    rcases List.mem_append.mp member with first | second
    · exact .inl ⟨e, first, time⟩
    · exact .inr ⟨e, second, time⟩
  · rintro (⟨e, first, time⟩ | ⟨e, second, time⟩)
    · exact ⟨e, List.mem_append_left _ first, time⟩
    · exact ⟨e, List.mem_append_right _ second, time⟩

theorem times_mono (more : ∀ e ∈ entries, e ∈ entries') : times entries ⊆ times entries' := by
  rintro w ⟨e, member, time⟩
  exact ⟨e, more e member, time⟩

theorem lacks_iff {e : AppLogEntry} (time : e.ltime = stamp w) (covered : v.contains w.1 = true) :
    v.lacks e = true ↔ v.known w.1 < w.2 := by
  obtain ⟨t, found⟩ := Dict.contains_iff_get?.mp covered
  simp only [VectorTime.lacks, time, stamp, LogicalTime.raw, VectorTime.known, found,
    decide_eq_true_eq]

end Times

/-- All writes of a server up to a time are there, and one is of this time or there is none. -/
def Settled (W K : Set (String × Int)) (w : String × Int) : Prop := UpTo W K w ∧ (w.2 ≤ 0 ∨ w ∈ W)

/-- The vector has an entry for each server, and what it covers is there. -/
structure VectorTime.Sees (servers : List String) (W K : Set (String × Int)) (v : VectorTime) :
    Prop where
  contains : ∀ name ∈ servers, v.contains name = true
  settled : ∀ name, Settled W K (name, v.known name)

section Settled

variable {servers : List String} {W K K' given : Set (String × Int)} {v v' : VectorTime}
  {d w : String × Int}

theorem Settled.mono (settled : Settled W K w) (more : K ⊆ K') : Settled W K' w :=
  ⟨settled.1.mono more, settled.2⟩

theorem settled_of_mem (closed : Closed W K) (known : K ⊆ W) (there : w ∈ K) : Settled W K w :=
  ⟨closed w there, .inr (known there)⟩

/-- A new write is later. -/
theorem Settled.write (settled : Settled W K d) (positive : 0 < w.2) (fresh : Fresh W w) :
    Settled (insert w W) K d := by
  refine ⟨settled.1.write fun same => ?_, settled.2.imp_right fun there => .inr there⟩
  rcases settled.2 with start | there
  · exact lt_of_le_of_lt start positive
  · exact fresh d there same

namespace VectorTime

theorem get?_arrived (v : VectorTime) (name : String) :
    v.arrived.get? name = (v.get? name).map fun t => { name, ts := t.ts } := by
  rw [arrived, ofTimes, List.map_map]
  exact Dict.get?_ofList_map v (fun name t => ({ name, ts := t.ts } : LogicalTime)) name

theorem Sees.arrived (sees : v.Sees servers W K) : v.arrived.Sees servers W K := by
  have known : ∀ name, v.arrived.known name = v.known name := by
    intro name
    simp only [VectorTime.known, get?_arrived]
    cases v.get? name <;> rfl
  refine ⟨fun name member => ?_, fun name => ?_⟩
  · simpa [Dict.contains, get?_arrived] using sees.contains name member
  · rw [known]
    exact sees.settled name

theorem Sees.covers (sees : v.Sees servers W K) : Covers W K v.known :=
  fun name => (sees.settled name).1

theorem Sees.mono (sees : v.Sees servers W K) (more : K ⊆ K') : v.Sees servers W K' :=
  ⟨sees.contains, fun name => (sees.settled name).mono more⟩

theorem Sees.write (sees : v.Sees servers W K) (positive : 0 < w.2) (fresh : Fresh W w) :
    v.Sees servers (insert w W) K :=
  ⟨sees.contains, fun name => (sees.settled name).write positive fresh⟩

theorem Sees.moved (sees : v.Sees servers W K) (moves : v.MovesTo v' given) (more : K ⊆ K')
    (settled : ∀ w ∈ given, Settled W K' w) : v'.Sees servers W K' := by
  refine ⟨fun name member => (moves name).1 (sees.contains name member), fun name => ?_⟩
  rcases (moves name).2 with same | there
  · rw [same]
    exact (sees.settled name).mono more
  · exact settled _ there

theorem Sees.settled_held (sees : v.Sees servers W K) : ∀ w ∈ v.held, Settled W K w := by
  rintro ⟨name, ts⟩ (rfl : v.known name = ts)
  exact sees.settled name

/-- What the vector does not lack is there. -/
theorem Sees.mem (sees : v.Sees servers W K) (listed : w.1 ∈ servers) (written : w ∈ W)
    {e : AppLogEntry} (time : e.ltime = stamp w) (held : v.lacks e ≠ true) : w ∈ K := by
  rw [Ne, lacks_iff time (sees.contains _ listed), not_lt] at held
  exact sees.covers.mem written held

theorem known_new (servers : List String) (name : String) : (new servers).known name = 0 := by
  unfold known
  cases found : (new servers).get? name with
  | none => rfl
  | some t =>
    obtain ⟨l, listed, same⟩ := List.mem_map.mp (Dict.mem_entries_ofList (Dict.mem_of_get? found))
    obtain ⟨s, _, rfl⟩ := List.mem_map.mp listed
    cases same
    rfl

theorem sees_new (servers : List String) : (new servers).Sees servers ∅ ∅ where
  contains _ member := contains_new.mpr member
  settled name := ⟨fun _ written => written.elim, .inl (known_new servers name).le⟩

end VectorTime

end Settled

/-! ## One storage -/

/-- The vectors of a storage cover no more than its logs have. -/
structure Storage.Sound (servers : List String) (W : Set (String × Int)) (st : Storage) :
    Prop where
  known : times st.entries ⊆ W
  c : st.c.Sees servers W (times st.committedLog)
  f : st.f.Sees servers W (times st.entries)

/-- What a storage has of the writes: all of its own server, in the committed log if this is the
primary, and with a write the earlier ones, in both logs together and in the committed one. -/
structure Storage.Knows (servers : List String) (W : Set (String × Int)) (name : String)
    (primary : Prop) (st : Storage) : Prop extends st.Sound servers W where
  own : ∀ w ∈ W, w.1 = name → w ∈ times st.entries
  ownCommitted : primary → ∀ w ∈ W, w.1 = name → w ∈ times st.committedLog
  closed : Closed W (times st.entries)
  closedCommitted : Closed W (times st.committedLog)

namespace Storage

variable {servers : List String} {W : Set (String × Int)} {name : String} {primary : Prop}
  {st st' : Storage} {commits tentatives : List AppLogEntry} {w : String × Int}

theorem times_committedLog_subset (st : Storage) : times st.committedLog ⊆ times st.entries :=
  times_mono fun _ => List.mem_append_left _

theorem Sound.write (sound : st.Sound servers W) (positive : 0 < w.2) (fresh : Fresh W w) :
    st.Sound servers (insert w W) :=
  ⟨sound.known.trans (Set.subset_insert w W), sound.c.write positive fresh,
    sound.f.write positive fresh⟩

/-- The committed log has what it had and what it is given. -/
theorem Applied.times_committedLog (applied : st.Applied commits tentatives st')
    (sound : st.Sound servers W) (listed : ∀ w ∈ W, w.1 ∈ servers) (given : times commits ⊆ W) :
    times st'.committedLog = times st.committedLog ∪ times commits := by
  have stays : times st.committedLog ⊆ times st'.committedLog := by
    rintro w ⟨e, member, time⟩
    obtain ⟨e', after, same⟩ := applied.committed e (.inl member)
    exact ⟨e', after, same.trans time⟩
  apply Set.Subset.antisymm
  · rintro w ⟨e, member, time⟩
    exact (applied.onlyCommitted e member).imp (fun before => ⟨e, before, time⟩)
      fun new => ⟨e, new, time⟩
  · refine Set.union_subset stays ?_
    intro w there
    have written := given there
    obtain ⟨e, member, time⟩ := there
    by_cases lacking : st.c.lacks e = true
    · obtain ⟨e', after, same⟩ := applied.committed e (.inr ⟨member, lacking⟩)
      exact ⟨e', after, same.trans time⟩
    · exact stays (sound.c.mem (listed w written) written time lacking)

/-- So the committed vector covers no more. -/
theorem Applied.sees_c (applied : st.Applied commits tentatives st') (sound : st.Sound servers W)
    (listed : ∀ w ∈ W, w.1 ∈ servers) (given : times commits ⊆ W)
    (closed : Closed W (times st.committedLog ∪ times commits)) :
    st'.c.Sees servers W (times st'.committedLog) := by
  have after := applied.times_committedLog sound listed given
  have inside : times st.committedLog ∪ times commits ⊆ W :=
    Set.union_subset (st.times_committedLog_subset.trans sound.known) given
  refine sound.c.moved applied.c ?_ fun w there => ?_
  · rw [after]
    exact Set.subset_union_left
  · rw [times_append, after, Set.union_assoc, Set.union_self] at there
    rw [after]
    exact settled_of_mem closed inside there

/-- Both logs together have what they had and what they are given. -/
theorem Applied.times_entries (applied : st.Applied commits tentatives st')
    (sound : st.Sound servers W) (listed : ∀ w ∈ W, w.1 ∈ servers)
    (given : times (commits ++ tentatives) ⊆ W)
    (closed : Closed W (times st.committedLog ∪ times commits)) :
    times st'.entries = times st.entries ∪ times (commits ++ tentatives) := by
  obtain ⟨givenC, givenT⟩ := Set.union_subset_iff.mp (times_append ▸ given)
  have committed := applied.times_committedLog sound listed givenC
  have c := applied.sees_c sound listed givenC closed
  -- a tentative entry may be deleted, but only if it is committed
  have tentative : ∀ w ∈ W, ∀ e, e.ltime = stamp w →
      (e ∈ st.tentativeLog ∨ e ∈ tentatives ∧ st.f.lacks e = true) → w ∈ times st'.entries := by
    intro w written e time taken
    by_cases lacking : st'.c.lacks e = true
    · obtain ⟨e', after, same⟩ := applied.tentative e taken lacking
      exact ⟨e', after, same.trans time⟩
    · exact st'.times_committedLog_subset (c.mem (listed w written) written time lacking)
  have inCommitted : times st.committedLog ∪ times commits ⊆ times st'.entries := by
    rw [← committed]
    exact st'.times_committedLog_subset
  have stays : times st.entries ⊆ times st'.entries := by
    intro w there
    have written := sound.known there
    obtain ⟨e, member, time⟩ := there
    rcases List.mem_append.mp member with before | before
    · exact inCommitted (.inl ⟨e, before, time⟩)
    · exact tentative w written e time (.inl before)
  apply Set.Subset.antisymm
  · rintro w ⟨e, member, time⟩
    rcases applied.only e member with before | new | new
    · exact .inl ⟨e, before, time⟩
    · exact .inr ⟨e, List.mem_append_left _ new, time⟩
    · exact .inr ⟨e, List.mem_append_right _ new, time⟩
  · rw [times_append]
    refine Set.union_subset stays (Set.union_subset ?_ ?_)
    · exact Set.subset_union_right.trans inCommitted
    · intro w there
      have written := givenT there
      obtain ⟨e, member, time⟩ := there
      by_cases lacking : st.f.lacks e = true
      · exact tentative w written e time (.inr ⟨member, lacking⟩)
      · exact stays (sound.f.mem (listed w written) written time lacking)

/-- What a storage knows when it has applied entries. -/
theorem Applied.knows (applied : st.Applied commits tentatives st') (sound : st.Sound servers W)
    (listed : ∀ w ∈ W, w.1 ∈ servers) (given : times (commits ++ tentatives) ⊆ W)
    (own : ∀ w ∈ W, w.1 = name → w ∈ times st.entries ∪ times (commits ++ tentatives))
    (ownCommitted : primary → ∀ w ∈ W, w.1 = name → w ∈ times st.committedLog ∪ times commits)
    (closed : Closed W (times st.entries ∪ times (commits ++ tentatives)))
    (closedCommitted : Closed W (times st.committedLog ∪ times commits)) :
    st'.Knows servers W name primary := by
  have givenC : times commits ⊆ W :=
    (times_mono fun _ => List.mem_append_left tentatives).trans given
  have committed := applied.times_committedLog sound listed givenC
  have after := applied.times_entries sound listed given closedCommitted
  have inside : times st.entries ∪ times (commits ++ tentatives) ⊆ W :=
    Set.union_subset sound.known given
  have c := applied.sees_c sound listed givenC closedCommitted
  refine { known := ?_, c, f := ?_, own := ?_, ownCommitted := ?_, closed := ?_,
           closedCommitted := ?_ }
  · rw [after]
    exact inside
  · refine sound.f.moved applied.f ?_ ?_
    · rw [after]
      exact Set.subset_union_left
    · rintro w (there | held)
      · rw [List.append_assoc, times_append, after, Set.union_assoc, Set.union_self] at there
        rw [after]
        exact settled_of_mem closed inside there
      · exact (c.settled_held w held).mono st'.times_committedLog_subset
  · rw [after]
    exact own
  · rw [committed]
    exact ownCommitted
  · rw [after]
    exact closed
  · rw [committed]
    exact closedCommitted

/-- A new write of another server. -/
theorem Knows.write (knows : st.Knows servers W name primary) (other : w.1 ≠ name)
    (positive : 0 < w.2) (fresh : Fresh W w) : st.Knows servers (insert w W) name primary := by
  have mine : ∀ {K : Set (String × Int)}, (∀ w' ∈ W, w'.1 = name → w' ∈ K) →
      ∀ w' ∈ insert w W, w'.1 = name → w' ∈ K := by
    rintro K own w' (rfl | written) named
    · exact absurd named other
    · exact own w' written named
  exact {
    knows.toSound.write positive fresh with
    own := mine knows.own
    ownCommitted := fun primary => mine (knows.ownCommitted primary)
    closed := knows.closed.write knows.known fresh
    closedCommitted :=
      knows.closedCommitted.write (st.times_committedLog_subset.trans knows.known) fresh }

/-- A new write of the server itself, which the primary commits and another server takes down as
tentative. -/
theorem Knows.write_own (knows : st.Knows servers W w.1 primary)
    (applied : st.Applied commits tentatives st') (listed : ∀ w' ∈ insert w W, w'.1 ∈ servers)
    (positive : 0 < w.2) (fresh : Fresh W w)
    (given : primary ∧ times commits = {w} ∧ times tentatives = ∅ ∨
      ¬ primary ∧ times commits = ∅ ∧ times tentatives = {w}) :
    st'.Knows servers (insert w W) w.1 primary ∧
      times st'.entries = insert w (times st.entries) ∧
      (primary ∧ times st'.committedLog = insert w (times st.committedLog) ∨
        ¬ primary ∧ times st'.committedLog = times st.committedLog) := by
  have one : times (commits ++ tentatives) = {w} := by
    rw [times_append]
    rcases given with ⟨_, commit, none⟩ | ⟨_, none, tentative⟩
    · rw [commit, none, Set.union_empty]
    · rw [none, tentative, Set.empty_union]
  have inside : times (commits ++ tentatives) ⊆ insert w W := by
    rw [one]
    exact Set.singleton_subset_iff.mpr (Set.mem_insert w W)
  have insideC : times commits ⊆ insert w W :=
    (times_mono fun _ => List.mem_append_left tentatives).trans inside
  have sound := knows.toSound.write positive fresh
  have knownC : times st.committedLog ⊆ W := st.times_committedLog_subset.trans knows.known
  have committed : primary ∧ times st.committedLog ∪ times commits =
      insert w (times st.committedLog) ∨ ¬ primary ∧ times st.committedLog ∪ times commits =
      times st.committedLog := by
    refine given.imp (And.imp_right ?_) (And.imp_right ?_)
    · rintro ⟨commit, _⟩
      rw [commit, Set.union_singleton]
    · rintro ⟨none, _⟩
      rw [none, Set.union_empty]
  have mine : ∀ {K : Set (String × Int)}, (∀ w' ∈ W, w'.1 = w.1 → w' ∈ K) →
      ∀ w' ∈ insert w W, w'.1 = w.1 → w' ∈ insert w K := by
    rintro K own w' (rfl | written) named
    · exact .inl rfl
    · exact .inr (own w' written named)
  have closedC : Closed (insert w W) (times st.committedLog ∪ times commits) := by
    rcases committed with ⟨primary, same⟩ | ⟨_, same⟩ <;> rw [same]
    · exact knows.closedCommitted.write_own knownC fresh (knows.ownCommitted primary)
    · exact knows.closedCommitted.write knownC fresh
  refine ⟨applied.knows sound listed inside ?_ ?_ ?_ closedC, ?_, ?_⟩
  · rw [one, Set.union_singleton]
    exact mine knows.own
  · intro primary
    rcases committed with ⟨_, same⟩ | ⟨replica, _⟩
    · rw [same]
      exact mine (knows.ownCommitted primary)
    · exact absurd primary replica
  · rw [one, Set.union_singleton]
    exact knows.closed.write_own knows.known fresh knows.own
  · rw [applied.times_entries sound listed inside closedC, one, Set.union_singleton]
  · rw [applied.times_committedLog sound listed insideC]
    exact committed

section Told

variable {c f : VectorTime} {committed tentative : List AppLogEntry} {K L : Set (String × Int)}

/-- What a vector lacks of a log, and is told, is all that is missing. -/
theorem Knows.subset_of_told (knows : st.Knows servers W name primary)
    (listed : ∀ w ∈ W, w.1 ∈ servers) {v : VectorTime} (sees : v.Sees servers W K)
    {log told : List AppLogEntry} (inside : ∀ e ∈ log, e ∈ st.entries)
    (lacked : ∀ e ∈ log, v.lacks e = true → e ∈ told) : times log ⊆ K ∪ times told := by
  intro w there
  have known : ∀ w' ∈ times log, w' ∈ W := fun w' there' => knows.known (times_mono inside there')
  refine sees.covers.mem_of_told ?_ (known w there) there
  rintro w' ⟨there', above⟩
  have written := known w' there'
  obtain ⟨e, member, time⟩ := there'
  exact .inr ⟨e, lacked e member ((lacks_iff time (sees.contains _ (listed w' written))).mpr above),
    time⟩

theorem Told.times_committed (told : st.Told c f committed tentative)
    (knows : st.Knows servers W name primary) (listed : ∀ w ∈ W, w.1 ∈ servers)
    (sees : c.Sees servers W K) :
    times committed ⊆ times st.committedLog ∧ times st.committedLog ⊆ K ∪ times committed :=
  ⟨times_mono told.onlyCommitted,
    knows.subset_of_told listed sees (fun _ => List.mem_append_left _) told.committed⟩

/-- What another server is told of is stored here, and brings it everything that is. -/
theorem Told.times_entries (told : st.Told c f committed tentative)
    (knows : st.Knows servers W name primary) (listed : ∀ w ∈ W, w.1 ∈ servers)
    (seesC : c.Sees servers W K) (seesF : f.Sees servers W L) (more : K ⊆ L) :
    times (committed ++ tentative) ⊆ times st.entries ∧
      times st.entries ⊆ L ∪ times (committed ++ tentative) := by
  refine ⟨times_mono told.only, ?_⟩
  rw [Storage.entries, times_append]
  refine Set.union_subset ?_ ?_
  · refine (told.times_committed knows listed seesC).2.trans (Set.union_subset_union more ?_)
    exact times_mono fun _ => List.mem_append_left tentative
  · refine (knows.subset_of_told listed seesF (fun _ => List.mem_append_right _)
      told.tentative).trans (Set.union_subset_union_right L ?_)
    exact times_mono fun _ => List.mem_append_right committed

end Told

theorem knows_new (servers : List String) (name : String) (primary : Prop) (initState : AppState) :
    (Storage.new servers initState).Knows servers ∅ name primary := by
  have noEntries : times (Storage.new servers initState).entries = ∅ := times_nil
  have noneCommitted : times (Storage.new servers initState).committedLog = ∅ := times_nil
  refine { known := ?_, c := ?_, f := ?_, own := ?_, ownCommitted := ?_, closed := ?_,
           closedCommitted := ?_ }
  · rw [noEntries]
  · rw [noneCommitted]
    exact VectorTime.sees_new servers
  · rw [noEntries]
    exact VectorTime.sees_new servers
  · exact fun w written => written.elim
  · exact fun _ w written => written.elim
  · rw [noEntries]
    exact fun e there => there.elim
  · rw [noneCommitted]
    exact fun e there => there.elim

end Storage

/-! ## An instance -/

namespace VectorTime

variable {v v' v'' : VectorTime} {given given' : Set (String × Int)}

theorem MovesTo.refl (v : VectorTime) (given : Set (String × Int)) : v.MovesTo v given :=
  fun _ => ⟨id, .inl rfl⟩

theorem MovesTo.trans (first : v.MovesTo v' given) (second : v'.MovesTo v'' given) :
    v.MovesTo v'' given := by
  intro name
  refine ⟨(second name).1 ∘ (first name).1, ?_⟩
  rcases (second name).2 with same | there
  · rw [same]
    exact (first name).2
  · exact .inr there

theorem MovesTo.mono (moves : v.MovesTo v' given) (more : given ⊆ given') : v.MovesTo v' given' :=
  fun name => ⟨(moves name).1, (moves name).2.imp_right fun there => more there⟩

/-- The vector moves to the time of an entry. -/
theorem movesTo_set (v : VectorTime) {name : String} {ts : Int} (here : (name, ts) ∈ given) :
    v.MovesTo (v.set name { name, ts }) given := by
  intro other
  by_cases same : other = name
  · subst same
    refine ⟨fun _ => by simp [Dict.contains_set], .inr ?_⟩
    simp only [known, Dict.get?_set_self]
    exact here
  · refine ⟨fun there => by simp [Dict.contains_set, there], .inl ?_⟩
    simp only [known, Dict.get?_set_of_ne v same]

theorem movesTo_note (v : VectorTime) {entries : List AppLogEntry}
    (inside : times entries ⊆ given) : v.MovesTo (v.note entries) given := by
  unfold note
  induction entries generalizing v with
  | nil => exact MovesTo.refl v given
  | cons e entries ih =>
    rw [List.foldl_cons]
    refine MovesTo.trans ?_ (ih _ ((times_mono fun _ => List.mem_cons_of_mem e).trans inside))
    split
    · rename_i name ts time
      exact v.movesTo_set (inside ⟨e, List.mem_cons_self, time⟩)
    · exact MovesTo.refl v _

end VectorTime

/-- What `Env.telling` does with the logs. -/
theorem applied_telling (st : Storage) (commits tentatives : List AppLogEntry) :
    st.Applied commits tentatives (Env.telling.apply st commits tentatives).2 where
  only := keepsEntries_telling.apply st commits tentatives
  onlyCommitted e member :=
    (List.mem_append.mp member).imp_right fun new => (List.mem_filter.mp new).1
  committed e taken := by
    refine ⟨e, ?_, rfl⟩
    exact List.mem_append.mpr (taken.imp_right List.mem_filter.mpr)
  tentative e taken lacking := by
    refine ⟨e, List.mem_append_right _ (List.mem_filter.mpr ⟨?_, lacking⟩), rfl⟩
    exact List.mem_append.mpr (taken.imp_right List.mem_filter.mpr)
  c := st.c.movesTo_note (times_mono fun _ => List.mem_append_right _)
  f := by
    refine (st.f.movesTo_note ?_).trans (VectorTime.movesTo_note _ ?_)
    · refine Set.subset_union_of_subset_left (times_mono fun _ member => ?_) _
      exact List.mem_append_left _ (List.mem_append_right _ member)
    · exact Set.subset_union_of_subset_left (times_mono fun _ => List.mem_append_right _) _

theorem spreads_telling : Spreads Env.telling where
  apply := applied_telling
  reads _ _ _ := rfl
  tells st c f committed tentative st' answered := by
    cases answered
    exact {
      only := keepsEntries_telling.told _ _ _ _ _ _ rfl
      onlyCommitted := fun e member => (List.mem_filter.mp member).1
      committed := fun e member lacking => List.mem_filter.mpr ⟨member, lacking⟩
      tentative := fun e member lacking => List.mem_filter.mpr ⟨member, lacking⟩ }
  sorts _ _ := ⟨_, rfl⟩
  sorted entries sorted sortable e := by
    cases sortable
    exact List.mem_insertionSort _

end Col733.Lab4

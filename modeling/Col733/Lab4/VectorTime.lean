import Col733.Lab4.Storage
import Mathlib.Algebra.Order.Group.Int
import Mathlib.Order.Bounds.Basic

/-!
# Vector times as clocks

What a vector time is for: it says for each server up to which time its writes are known. Over
one set of servers these are functions from the servers to the integers, ordered at each server,
and the methods of `VectorTime` compute in that order: `is_vtime_earlier` is its relation, `==`
its equality, and `advance` a least upper bound.
-/

namespace Col733.Lab4.VectorTime

/-- The vector times that accepted calls of `advance` make of `VectorTime.new(servers)`. -/
def Reached (servers : List String) (v : VectorTime) : Prop :=
  ∃ ls, advanceAll (new servers) ls = .ok v

/-- The greatest timestamp advanced for the name, 0 if there is none. -/
def latest (name : String) (ls : List LogicalTime) : Int :=
  ((ls.filter fun l => l.name = name).map LogicalTime.ts).foldl max 0

/-- Every time is held under its own name. -/
def Named (v : VectorTime) : Prop := ∀ e ∈ v.entries, e.2.name = e.1

/-- A vector time that knows exactly the servers. -/
structure Tracks (servers : List String) (v : VectorTime) : Prop where
  covers : ∀ name, v.contains name = true ↔ name ∈ servers
  named : Named v

/-- The timestamps by server. -/
abbrev Clock (servers : List String) := {name : String // name ∈ servers} → Int

/-- The timestamps that a vector time holds. -/
def clock (servers : List String) (v : VectorTime) : Clock servers :=
  fun s => ((v.get? s).map LogicalTime.ts).getD 0

section ForAll

variable {α : Type} {p : α → Except Raised Bool} {xs : List α}

theorem forAll_eq_true_iff : forAll p xs = .ok true ↔ ∀ x ∈ xs, p x = .ok true := by
  induction xs with
  | nil => simp [forAll]
  | cons x xs ih =>
    rw [forAll, List.forall_mem_cons]
    split
    · rename_i raised
      simp [raised]
    · rename_i fails
      simp [fails]
    · rename_i holds
      rw [ih]
      simp [holds]

theorem exists_forAll (returns : ∀ x ∈ xs, ∃ r, p x = .ok r) : ∃ r, forAll p xs = .ok r := by
  induction xs with
  | nil => exact ⟨true, rfl⟩
  | cons x xs ih =>
    obtain ⟨first, rest⟩ := List.forall_mem_cons.mp returns
    obtain ⟨r, first⟩ := first
    rw [forAll, first]
    cases r with
    | true => exact ih rest
    | false => exact ⟨false, rfl⟩

end ForAll

section Vector

variable {servers : List String} {v v' w : VectorTime} {l : LogicalTime} {name : String}
  {ls : List LogicalTime}

theorem named_ofTimes (times : List LogicalTime) : Named (ofTimes times) := by
  intro e member
  obtain ⟨t, _, rfl⟩ := List.mem_map.mp (Dict.mem_entries_ofList member)
  rfl

theorem named_set (named : Named v) (l : LogicalTime) : Named (v.set l.name l) := by
  intro e member
  rcases Dict.mem_assign member with rfl | old
  · rfl
  · exact named e old

theorem tracks_new (servers : List String) : Tracks servers (new servers) where
  covers _ := contains_new
  named := named_ofTimes _

theorem Tracks.advance (tracks : Tracks servers v) (accepted : advance v l = (.ok (), v')) :
    Tracks servers v' where
  covers name := by rw [contains_advance accepted, tracks.covers]
  named := by
    obtain ⟨_, _, _, rfl⟩ := advance_eq_ok accepted
    exact named_set tracks.named l

theorem Tracks.advanceAll (tracks : Tracks servers v) (accepted : advanceAll v ls = .ok v') :
    Tracks servers v' := by
  induction ls generalizing v with
  | nil =>
    cases accepted
    exact tracks
  | cons l ls ih =>
    unfold VectorTime.advanceAll at accepted
    split at accepted
    · exact ih (tracks.advance ‹_›) accepted
    · cases accepted

theorem Reached.tracks (reached : Reached servers v) : Tracks servers v := by
  obtain ⟨ls, accepted⟩ := reached
  exact (tracks_new servers).advanceAll accepted

/-- The time that is held for a server. -/
theorem Tracks.get? (tracks : Tracks servers v) (member : name ∈ servers) :
    v.get? name = some { name := name, ts := clock servers v ⟨name, member⟩ } := by
  obtain ⟨t, found⟩ := Dict.contains_iff_get?.mp ((tracks.covers name).mpr member)
  have named : t.name = name := tracks.named _ (Dict.mem_of_get? found)
  rw [clock, found]
  cases t
  cases named
  rfl

/-- The entries are one for each server. -/
theorem Tracks.forall_entries_iff (tracks : Tracks servers v) {q : String × LogicalTime → Prop} :
    (∀ e ∈ v.entries, q e) ↔
      ∀ s : {name // name ∈ servers}, q (s, { name := s, ts := clock servers v s }) := by
  constructor
  · intro all s
    exact all _ (Dict.mem_of_get? (tracks.get? s.2))
  · intro all e member
    have here : e.1 ∈ servers :=
      (tracks.covers e.1).mp (Dict.contains_iff_get?.mpr ⟨_, Dict.get?_of_mem member⟩)
    have held := tracks.get? here
    rw [Dict.get?_of_mem member] at held
    have := all ⟨e.1, here⟩
    rw [← Option.some.inj held] at this
    exact this

theorem isLtimeEarlier_eq (tracks : Tracks servers v) (member : l.name ∈ servers) :
    isLtimeEarlier v l = .ok (decide (l.ts ≤ clock servers v ⟨l.name, member⟩)) := by
  rw [isLtimeEarlier, getItem, tracks.get? member]

theorem isVtimeEarlier_iff (tracks : Tracks servers v) (tracks' : Tracks servers w) :
    isVtimeEarlier v w = .ok true ↔ clock servers w ≤ clock servers v := by
  rw [isVtimeEarlier, forAll_eq_true_iff, tracks'.forall_entries_iff]
  refine forall_congr' fun s => ?_
  have member : ({ name := s, ts := clock servers w s } : LogicalTime).name ∈ servers := s.2
  rw [isLtimeEarlier_eq tracks member]
  simp

/-- The relation, by the entries. -/
theorem isVtimeEarlier_entries (tracks : Tracks servers v) (tracks' : Tracks servers w) :
    ∃ r, isVtimeEarlier v w = .ok r ∧
      (r = true ↔ ∀ name t u, v.get? name = some t → w.get? name = some u → u.ts ≤ t.ts) := by
  have returns : ∃ r, isVtimeEarlier v w = .ok r := by
    apply exists_forAll
    rw [tracks'.forall_entries_iff]
    intro s
    have member : ({ name := s, ts := clock servers w s } : LogicalTime).name ∈ servers := s.2
    exact ⟨_, isLtimeEarlier_eq tracks member⟩
  obtain ⟨r, returned⟩ := returns
  have order := isVtimeEarlier_iff tracks tracks'
  rw [returned, Except.ok.injEq] at order
  refine ⟨r, returned, order.trans ⟨?_, ?_⟩⟩
  · intro below name t u here there
    have member := (tracks.covers name).mp (Dict.contains_iff_get?.mpr ⟨t, here⟩)
    rw [tracks.get? member] at here
    rw [tracks'.get? member] at there
    cases here
    cases there
    exact below ⟨name, member⟩
  · intro below s
    exact below s _ _ (tracks.get? s.2) (tracks'.get? s.2)

theorem eq_iff (tracks : Tracks servers v) (tracks' : Tracks servers w) :
    VectorTime.eq v w = .ok true ↔ clock servers w = clock servers v := by
  rw [VectorTime.eq, forAll_eq_true_iff, tracks.forall_entries_iff, funext_iff]
  refine forall_congr' fun s => ?_
  rw [getItem, tracks'.get? s.2]
  simp [Except.map]

theorem clock_new (servers : List String) (s : {name // name ∈ servers}) :
    clock servers (new servers) s = 0 := by
  have held := (tracks_new servers).get? s.2
  obtain ⟨t, listed, same⟩ := List.mem_map.mp
    (Dict.mem_entries_ofList (Dict.mem_of_get? held))
  obtain ⟨_, _, rfl⟩ := List.mem_map.mp listed
  rw [Prod.mk.injEq, LogicalTime.mk.injEq] at same
  exact same.2.2.symm

theorem clock_set (member : l.name ∈ servers) :
    clock servers (v.set l.name l) =
      Function.update (clock servers v) ⟨l.name, member⟩ l.ts := by
  funext s
  by_cases here : s = ⟨l.name, member⟩
  · subst here
    rw [Function.update_self, clock, Dict.get?_set_self]
    rfl
  · have other : s.1 ≠ l.name := fun same => here (Subtype.ext same)
    rw [Function.update_of_ne here, clock, clock, Dict.get?_set_of_ne v other]

/-- `advance`, as a clock. -/
theorem advance_of_le (tracks : Tracks servers v) (member : l.name ∈ servers)
    (ahead : clock servers v ⟨l.name, member⟩ ≤ l.ts) :
    advance v l = (.ok (), v.set l.name l) := by
  rw [advance, getItem, tracks.get? member]
  simp only [ahead, if_true]

theorem advance_of_lt (tracks : Tracks servers v) (member : l.name ∈ servers)
    (behind : l.ts < clock servers v ⟨l.name, member⟩) :
    ∃ text, advance v l = (.error (.assertionError text), v) := by
  rw [advance, getItem, tracks.get? member]
  simp only [not_le.mpr behind, if_false]
  exact ⟨_, rfl⟩

theorem Reached.set (reached : Reached servers v) (accepted : advance v l = (.ok (), v')) :
    Reached servers v' := by
  obtain ⟨ls, all⟩ := reached
  refine ⟨ls ++ [l], ?_⟩
  generalize new servers = start at all ⊢
  induction ls generalizing start with
  | nil =>
    cases all
    rw [List.nil_append, advanceAll, accepted]
    rfl
  | cons first ls ih =>
    rw [List.cons_append, advanceAll]
    unfold advanceAll at all
    split at all
    · exact ih _ all
    · cases all

/-- A clock with one entry moved forward is the least one that is not behind the old clock or
the entry. -/
theorem isLeast_update {ι : Type} [DecidableEq ι] {c : ι → Int} {i : ι} {t : Int}
    (ahead : c i ≤ t) : IsLeast {d | c ≤ d ∧ t ≤ d i} (Function.update c i t) := by
  constructor
  · exact ⟨le_update_self_iff.mpr ahead, by rw [Function.update_self]⟩
  · rintro d ⟨old, new⟩
    exact update_le_iff.mpr ⟨new, fun j _ => old j⟩

/-- After any accepted calls of `advance`, each entry is the greatest timestamp advanced for
it. -/
theorem clock_advanceAll (tracks : Tracks servers v) (accepted : VectorTime.advanceAll v ls = .ok v')
    (s : {name // name ∈ servers}) :
    clock servers v' s =
      ((ls.filter fun l => l.name = s.1).map LogicalTime.ts).foldl max (clock servers v s) := by
  induction ls generalizing v with
  | nil =>
    cases accepted
    rfl
  | cons l ls ih =>
    unfold VectorTime.advanceAll at accepted
    split at accepted
    · rename_i next advanced
      rw [ih (tracks.advance advanced) accepted]
      obtain ⟨known, found, ahead, rfl⟩ := advance_eq_ok advanced
      have member : l.name ∈ servers :=
        (tracks.covers l.name).mp (Dict.contains_iff_get?.mpr ⟨known, found⟩)
      rw [clock_set member]
      by_cases here : l.name = s.1
      · have same : s = ⟨l.name, member⟩ := Subtype.ext here.symm
        rw [tracks.get? member] at found
        cases found
        rw [List.filter_cons_of_pos (by simpa using here), List.map_cons, List.foldl_cons, same,
          Function.update_self, max_eq_right ahead]
      · have other : s ≠ ⟨l.name, member⟩ := fun same => here (congrArg Subtype.val same).symm
        rw [List.filter_cons_of_neg (by simpa using here), Function.update_of_ne other]
    · cases accepted

/-- An accepted `advance` gives the least vector time that is not behind the old one or the new
time. -/
theorem Reached.advance_least (reached : Reached servers v) (member : l.name ∈ servers)
    (ahead : clock servers v ⟨l.name, member⟩ ≤ l.ts) :
    isVtimeEarlier (v.set l.name l) v = .ok true ∧
      isLtimeEarlier (v.set l.name l) l = .ok true ∧
      ∀ w, Reached servers w → isVtimeEarlier w v = .ok true →
        isLtimeEarlier w l = .ok true → isVtimeEarlier w (v.set l.name l) = .ok true := by
  have reached' := reached.set (advance_of_le reached.tracks member ahead)
  have least := isLeast_update ahead
  rw [← clock_set member] at least
  refine ⟨?_, ?_, ?_⟩
  · exact (isVtimeEarlier_iff reached'.tracks reached.tracks).mpr least.1.1
  · rw [isLtimeEarlier_eq reached'.tracks member]
    exact congrArg _ (decide_eq_true least.1.2)
  · intro w other old new
    rw [isVtimeEarlier_iff other.tracks reached.tracks] at old
    rw [isLtimeEarlier_eq other.tracks member, Except.ok.injEq, decide_eq_true_eq] at new
    exact (isVtimeEarlier_iff other.tracks reached'.tracks).mpr (least.2 ⟨old, new⟩)

end Vector

/-- Vector times over one set of servers, after any accepted calls of `advance`:
`is_vtime_earlier` compares every entry, is reflexive and transitive, and holds in both directions exactly if `==`
does; `advance` raises `AssertionError` for a time behind the entry of its server and leaves the
vector as it was, and otherwise changes that entry only, and gives the least vector time that is not behind the old one or the
new time; and `is_ltime_earlier` holds exactly up to the greatest timestamp advanced. -/
theorem vector_times_are_clocks (servers : List String) :
    (∀ a b, Reached servers a → Reached servers b → ∃ r, isVtimeEarlier a b = .ok r ∧
      (r = true ↔ ∀ name t u, a.get? name = some t → b.get? name = some u → u.ts ≤ t.ts)) ∧
    (∀ a, Reached servers a → isVtimeEarlier a a = .ok true) ∧
    (∀ a b c, Reached servers a → Reached servers b → Reached servers c →
      isVtimeEarlier a b = .ok true → isVtimeEarlier b c = .ok true →
        isVtimeEarlier a c = .ok true) ∧
    (∀ a b, Reached servers a → Reached servers b →
      ((isVtimeEarlier a b = .ok true ∧ isVtimeEarlier b a = .ok true) ↔
        VectorTime.eq a b = .ok true)) ∧
    (∀ a l known, Reached servers a → a.get? l.name = some known →
      (l.ts < known.ts → ∃ text, advance a l = (.error (.assertionError text), a)) ∧
      (known.ts ≤ l.ts → ∃ a', advance a l = (.ok (), a') ∧ Reached servers a' ∧
        a'.get? l.name = some l ∧ (∀ name, name ≠ l.name → a'.get? name = a.get? name) ∧
        isVtimeEarlier a' a = .ok true ∧ isLtimeEarlier a' l = .ok true ∧
        ∀ w, Reached servers w → isVtimeEarlier w a = .ok true →
          isLtimeEarlier w l = .ok true → isVtimeEarlier w a' = .ok true)) ∧
    (∀ ls v l, advanceAll (new servers) ls = .ok v → l.name ∈ servers →
      isLtimeEarlier v l = .ok (decide (l.ts ≤ latest l.name ls))) := by
  refine ⟨?_, ?_, ?_, ?_, ?_, ?_⟩
  · intro a b ra rb
    exact isVtimeEarlier_entries ra.tracks rb.tracks
  · intro a ra
    exact (isVtimeEarlier_iff ra.tracks ra.tracks).mpr le_rfl
  · intro a b c ra rb rc ab bc
    rw [isVtimeEarlier_iff ra.tracks rb.tracks] at ab
    rw [isVtimeEarlier_iff rb.tracks rc.tracks] at bc
    exact (isVtimeEarlier_iff ra.tracks rc.tracks).mpr (bc.trans ab)
  · intro a b ra rb
    rw [isVtimeEarlier_iff ra.tracks rb.tracks, isVtimeEarlier_iff rb.tracks ra.tracks,
      eq_iff ra.tracks rb.tracks]
    exact antisymm_iff
  · intro a l known ra found
    have member : l.name ∈ servers :=
      (ra.tracks.covers l.name).mp (Dict.contains_iff_get?.mpr ⟨known, found⟩)
    rw [ra.tracks.get? member] at found
    cases found
    refine ⟨advance_of_lt ra.tracks member, fun ahead => ?_⟩
    have accepted := advance_of_le ra.tracks member ahead
    exact ⟨_, accepted, ra.set accepted, Dict.get?_set_self _ _ _,
      fun name other => Dict.get?_set_of_ne a other l, ra.advance_least member ahead⟩
  · intro ls v l accepted member
    have reached : Reached servers v := ⟨ls, accepted⟩
    rw [isLtimeEarlier_eq reached.tracks member,
      clock_advanceAll (tracks_new servers) accepted ⟨l.name, member⟩, clock_new]
    rfl

/-- Two servers, whose events come one after the other in between. -/
theorem vector_times_are_clocks_two :
    ∃ v, advanceAll (new ["s1", "s2"])
        [{ name := "s1", ts := 3 }, { name := "s2", ts := 1 }, { name := "s1", ts := 5 }] = .ok v ∧
      isLtimeEarlier v { name := "s1", ts := 5 } = .ok true ∧
      isLtimeEarlier v { name := "s2", ts := 2 } = .ok false := by
  obtain ⟨v, accepted⟩ : ∃ v, advanceAll (new ["s1", "s2"])
      [{ name := "s1", ts := 3 }, { name := "s2", ts := 1 }, { name := "s1", ts := 5 }] = .ok v :=
    ⟨_, rfl⟩
  have latest_eq := fun l => (vector_times_are_clocks ["s1", "s2"]).2.2.2.2.2 _ v l accepted
  exact ⟨v, accepted, latest_eq { name := "s1", ts := 5 } (by decide),
    latest_eq { name := "s2", ts := 2 } (by decide)⟩

end Col733.Lab4.VectorTime

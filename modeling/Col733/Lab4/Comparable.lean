import Col733.Lab4.CtrlMsg
import Col733.Lab4.VectorTime

/-!
# Comparing vector times over different servers

`==` walks the servers of one vector time and `is_vtime_earlier` those of the other, and both
look each server up in the opposite one. A server that is missing there raises `KeyError`,
unless the walk has come to an answer before. So which comparisons return depends on the order
in which the servers stand.
-/

namespace Col733.Lab4.VectorTime

/-- The comparisons of two vector times return, and `==` is symmetric, and tells that the servers
and their times are the same. -/
structure Comparable (a b : VectorTime) : Prop where
  eq : ∃ r, eq a b = .ok r
  earlier : ∃ r, isVtimeEarlier a b = .ok r
  later : ∃ r, isVtimeEarlier b a = .ok r
  symm : VectorTime.eq b a = VectorTime.eq a b
  same : VectorTime.eq a b = .ok true → ∀ name, a.get? name = b.get? name

/-- In `walked`, every server that `held` does not have stands behind one that both have, and
whose time is later in `walked`. -/
def SettledBefore (held walked : VectorTime) : Prop :=
  ∀ front e back, walked.entries = front ++ e :: back → held.get? e.1 = none →
    ∃ e' ∈ front, ∃ t, held.get? e'.1 = some t ∧ t.ts < e'.2.ts

/-- A check that raises is not the first one, if that one returns. -/
theorem split_of_returns {α : Type} {p : α → Except Raised Bool} {x y : α}
    {xs front back : List α} {r : Bool} (returned : p x = .ok r)
    (raises : ∃ raised, p y = .error raised) (split : x :: xs = front ++ y :: back) :
    ∃ front', front = x :: front' ∧ xs = front' ++ y :: back := by
  cases front with
  | nil =>
    cases split
    obtain ⟨raised, raises⟩ := raises
    rw [returned] at raises
    cases raises
  | cons z front =>
    cases split
    exact ⟨front, rfl, rfl⟩

/-- A loop of checks returns exactly if every check that raises stands behind one that fails. -/
theorem forAll_returns_iff {α : Type} {p : α → Except Raised Bool} {xs : List α} :
    (∃ r, forAll p xs = .ok r) ↔
      ∀ front x back, xs = front ++ x :: back → (∃ raised, p x = .error raised) →
        ∃ y ∈ front, p y = .ok false := by
  induction xs with
  | nil =>
    refine iff_of_true ⟨true, rfl⟩ fun front x back split => ?_
    simp at split
  | cons x xs ih =>
    rw [forAll]
    cases first : p x with
    | error raised =>
      constructor
      · rintro ⟨r, returned⟩
        cases returned
      · intro before
        obtain ⟨y, member, _⟩ := before [] x xs rfl ⟨raised, first⟩
        cases member
    | ok r =>
      cases r with
      | false =>
        refine iff_of_true ⟨false, rfl⟩ fun front y back split raises => ?_
        obtain ⟨front', rfl, _⟩ := split_of_returns first raises split
        exact ⟨x, List.mem_cons_self, first⟩
      | true =>
        refine ih.trans ⟨fun before front y back split raises => ?_,
          fun before front y back split raises => ?_⟩
        · obtain ⟨front', rfl, rest⟩ := split_of_returns first raises split
          obtain ⟨w, member, fails⟩ := before front' y back rest raises
          exact ⟨w, List.mem_cons_of_mem x member, fails⟩
        · obtain ⟨w, member, fails⟩ := before (x :: front) y back (by rw [split]; rfl) raises
          rcases List.mem_cons.mp member with rfl | later
          · rw [first] at fails
            cases fails
          · exact ⟨w, later, fails⟩

section Compare

variable {a b : VectorTime}

theorem mem_of_split {v : VectorTime} {front back : List (String × LogicalTime)}
    {e : String × LogicalTime} (split : v.entries = front ++ e :: back) :
    e ∈ v.entries ∧ ∀ e' ∈ front, e' ∈ v.entries := by
  rw [split]
  exact ⟨List.mem_append_right _ List.mem_cons_self, fun e' member => List.mem_append_left _ member⟩

/-- `a.is_vtime_earlier(b)` walks `b`. -/
theorem isVtimeEarlier_returns_iff (named : Named b) :
    (∃ r, isVtimeEarlier a b = .ok r) ↔ SettledBefore a b := by
  have raises : ∀ e ∈ b.entries,
      (∃ raised, isLtimeEarlier a e.2 = .error raised) ↔ a.get? e.1 = none := by
    intro e member
    rw [isLtimeEarlier, getItem, named e member]
    cases a.get? e.1 <;> simp
  have fails : ∀ e ∈ b.entries,
      isLtimeEarlier a e.2 = .ok false ↔ ∃ t, a.get? e.1 = some t ∧ t.ts < e.2.ts := by
    intro e member
    rw [isLtimeEarlier, getItem, named e member]
    cases a.get? e.1 <;> simp
  rw [isVtimeEarlier, forAll_returns_iff]
  constructor
  · intro before front e back split missing
    obtain ⟨here, inFront⟩ := mem_of_split split
    obtain ⟨e', member, stops⟩ := before front e back split ((raises e here).mpr missing)
    exact ⟨e', member, (fails e' (inFront e' member)).mp stops⟩
  · intro settled front e back split missing
    obtain ⟨here, inFront⟩ := mem_of_split split
    obtain ⟨e', member, later⟩ := settled front e back split ((raises e here).mp missing)
    exact ⟨e', member, (fails e' (inFront e' member)).mpr later⟩

/-- `a == b` walks `a`, and a later time is a different one. -/
theorem eq_returns (settled : SettledBefore b a) : ∃ r, VectorTime.eq a b = .ok r := by
  rw [VectorTime.eq, forAll_returns_iff]
  intro front e back split raises
  have missing : b.get? e.1 = none := by
    obtain ⟨raised, raises⟩ := raises
    rw [getItem] at raises
    cases found : b.get? e.1 with
    | none => rfl
    | some t =>
      rw [found] at raises
      cases raises
  obtain ⟨e', member, t, held, later⟩ := settled front e back split missing
  refine ⟨e', member, ?_⟩
  have differ : t ≠ e'.2 := fun same => absurd later (same ▸ lt_irrefl _)
  rw [getItem, held]
  simp [Except.map, differ]

theorem eq_true_iff : VectorTime.eq a b = .ok true ↔ ∀ e ∈ a.entries, b.get? e.1 = some e.2 := by
  rw [VectorTime.eq, forAll_eq_true_iff]
  refine forall_congr' fun e => imp_congr_right fun _ => ?_
  rw [getItem]
  cases b.get? e.1 <;> simp [Except.map]

/-- Where `a == b` holds and the walk of `b` is settled, the two hold the same. -/
theorem get?_eq_of_eq (settled : SettledBefore a b) (equal : VectorTime.eq a b = .ok true)
    (name : String) : a.get? name = b.get? name := by
  rw [eq_true_iff] at equal
  cases here : a.get? name with
  | some t => exact (equal _ (Dict.mem_of_get? here)).symm
  | none =>
    cases there : b.get? name with
    | none => rfl
    | some u =>
      obtain ⟨front, back, split⟩ := List.append_of_mem (Dict.mem_of_get? there)
      obtain ⟨e', member, t, held, later⟩ := settled front (name, u) back split here
      have inB := Dict.get?_of_mem ((mem_of_split split).2 e' member)
      have same := equal _ (Dict.mem_of_get? held)
      rw [inB] at same
      cases same
      exact absurd later (lt_irrefl _)

theorem eq_swap (settled : SettledBefore a b) (equal : VectorTime.eq a b = .ok true) :
    VectorTime.eq b a = .ok true := by
  rw [eq_true_iff]
  intro e member
  rw [get?_eq_of_eq settled equal]
  exact Dict.get?_of_mem member

end Compare

/-- What `from_msg` decodes holds every time under its own name. -/
theorem named_of_fromMsg {msg : JsonMessage} {req : AntiEntropyReq}
    (accepted : AntiEntropyReq.fromMsg msg = .ok req) : Named req.c ∧ Named req.f := by
  unfold AntiEntropyReq.fromMsg at accepted
  obtain ⟨_, _, accepted⟩ := bind_eq_ok accepted
  obtain ⟨_, _, accepted⟩ := bind_eq_ok accepted
  obtain ⟨_, _, accepted⟩ := bind_eq_ok accepted
  obtain ⟨_, _, accepted⟩ := bind_eq_ok accepted
  obtain ⟨_, _, accepted⟩ := bind_eq_ok accepted
  obtain ⟨_, _, accepted⟩ := bind_eq_ok accepted
  obtain ⟨c, _, accepted⟩ := bind_eq_ok accepted
  obtain ⟨f, _, accepted⟩ := bind_eq_ok accepted
  cases accepted
  exact ⟨named_ofTimes c, named_ofTimes f⟩

/-- Two vector times can be compared exactly if in each of them every server that the other one
does not have stands behind one that both have, with a later time. -/
theorem comparable_iff {a b : VectorTime} (namedA : Named a) (namedB : Named b) :
    Comparable a b ↔ SettledBefore a b ∧ SettledBefore b a := by
  constructor
  · intro comparable
    exact ⟨(isVtimeEarlier_returns_iff namedB).mp comparable.earlier,
      (isVtimeEarlier_returns_iff namedA).mp comparable.later⟩
  · rintro ⟨settled, settled'⟩
    obtain ⟨r, equal⟩ := eq_returns settled'
    obtain ⟨r', equal'⟩ := eq_returns settled
    refine ⟨⟨r, equal⟩, (isVtimeEarlier_returns_iff namedB).mpr settled,
      (isVtimeEarlier_returns_iff namedA).mpr settled', ?_, get?_eq_of_eq settled⟩
    cases r with
    | true => rw [equal, eq_swap settled equal]
    | false =>
      cases r' with
      | false => rw [equal, equal']
      | true =>
        rw [eq_swap settled' equal'] at equal
        cases equal

/-- The second server of `b` is missing in `a`, but stands behind a later time. -/
theorem comparable_iff_two :
    Comparable (ofTimes [{ name := "s1", ts := 1 }])
        (ofTimes [{ name := "s1", ts := 2 }, { name := "s2", ts := 1 }]) ↔
      SettledBefore (ofTimes [{ name := "s1", ts := 1 }])
          (ofTimes [{ name := "s1", ts := 2 }, { name := "s2", ts := 1 }]) ∧
        SettledBefore (ofTimes [{ name := "s1", ts := 2 }, { name := "s2", ts := 1 }])
          (ofTimes [{ name := "s1", ts := 1 }]) :=
  comparable_iff (named_ofTimes _) (named_ofTimes _)

/-- The two vector times of a request that `from_msg` accepts. -/
theorem not_comparable :
    ¬ ∀ msg req, AntiEntropyReq.fromMsg msg = .ok req → Comparable req.c req.f := by
  intro comparable
  have accepted : ∃ req, AntiEntropyReq.fromMsg (Dict.ofList [("type", .str "ANTI_ENTROPY"),
      ("c", .obj [("s1", .int 1)]), ("f", .obj [("s2", .int 1)])]) = .ok req ∧
        VectorTime.eq req.c req.f = .error (.keyError (.str "s1")) := ⟨_, rfl, rfl⟩
  obtain ⟨req, decoded, raises⟩ := accepted
  obtain ⟨r, returned⟩ := (comparable _ req decoded).eq
  rw [raises] at returned
  cases returned

end Col733.Lab4.VectorTime

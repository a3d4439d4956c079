import Mathlib.Data.List.Basic
import Mathlib.Order.Bounds.Basic
import Mathlib.Order.Lattice.Nat

/-!
# Longest common subsequences

The length of a longest common subsequence of two lists: how it changes when both lists grow by
an element at their ends, which is the recurrence that a table is filled by, and when an element
at one end makes it longer.
-/

namespace Col733

variable {α : Type} {a b : α} {x y : List α}

/-- The lengths of the common subsequences. -/
def commonLengths (x y : List α) : Set Nat :=
  { n | ∃ s : List α, s.Sublist x ∧ s.Sublist y ∧ s.length = n }

noncomputable def lcsLength (x y : List α) : Nat := sSup (commonLengths x y)

theorem isGreatest_lcsLength (x y : List α) : IsGreatest (commonLengths x y) (lcsLength x y) := by
  have bounded : BddAbove (commonLengths x y) := by
    refine ⟨x.length, ?_⟩
    rintro n ⟨s, left, _, rfl⟩
    exact left.length_le
  have inhabited : (commonLengths x y).Nonempty :=
    ⟨0, [], List.nil_sublist x, List.nil_sublist y, rfl⟩
  exact ⟨Nat.sSup_mem inhabited bounded, fun n member => le_csSup bounded member⟩

theorem exists_longest (x y : List α) :
    ∃ s : List α, s.Sublist x ∧ s.Sublist y ∧ s.length = lcsLength x y :=
  (isGreatest_lcsLength x y).1

theorem length_le_lcsLength {s : List α} (left : s.Sublist x) (right : s.Sublist y) :
    s.length ≤ lcsLength x y :=
  (isGreatest_lcsLength x y).2 ⟨s, left, right, rfl⟩

theorem lcsLength_le {n : Nat} (bound : ∀ s : List α, s.Sublist x → s.Sublist y → s.length ≤ n) :
    lcsLength x y ≤ n := by
  obtain ⟨s, left, right, length⟩ := exists_longest x y
  exact length ▸ bound s left right

theorem lcsLength_mono {x' y' : List α} (left : x.Sublist x') (right : y.Sublist y') :
    lcsLength x y ≤ lcsLength x' y' :=
  lcsLength_le fun _ inX inY => length_le_lcsLength (inX.trans left) (inY.trans right)

theorem lcsLength_comm (x y : List α) : lcsLength x y = lcsLength y x :=
  le_antisymm (lcsLength_le fun _ left right => length_le_lcsLength right left)
    (lcsLength_le fun _ left right => length_le_lcsLength right left)

theorem lcsLength_reverse_le (x y : List α) : lcsLength x y ≤ lcsLength x.reverse y.reverse := by
  refine lcsLength_le fun s left right => ?_
  rw [← List.length_reverse]
  exact length_le_lcsLength left.reverse right.reverse

theorem lcsLength_reverse (x y : List α) : lcsLength x.reverse y.reverse = lcsLength x y := by
  apply le_antisymm _ (lcsLength_reverse_le x y)
  have back := lcsLength_reverse_le x.reverse y.reverse
  rwa [List.reverse_reverse, List.reverse_reverse] at back

@[simp] theorem lcsLength_nil_left (y : List α) : lcsLength [] y = 0 :=
  Nat.le_zero.mp (lcsLength_le fun _ left _ => left.length_le)

@[simp] theorem lcsLength_nil_right (x : List α) : lcsLength x [] = 0 :=
  (lcsLength_comm x []).trans (lcsLength_nil_left x)

/-! ## Growing at the end -/

/-- A subsequence of a list that ends in `a` leaves it out, or ends in it. -/
theorem sublist_concat {s : List α} (sub : s.Sublist (x ++ [a])) :
    s.Sublist x ∨ ∃ s', s = s' ++ [a] ∧ s'.Sublist x := by
  obtain ⟨front, back, rfl, inX, last⟩ := List.sublist_append_iff.mp sub
  rcases List.sublist_cons_iff.mp last with none_ | ⟨rest, rfl, none_⟩
  · rw [List.sublist_nil.mp none_, List.append_nil]
    exact .inl inX
  · rw [List.sublist_nil.mp none_]
    exact .inr ⟨front, rfl, inX⟩

/-- Both lists grow by the same element. -/
theorem lcsLength_concat_self (a : α) (x y : List α) :
    lcsLength (x ++ [a]) (y ++ [a]) = lcsLength x y + 1 := by
  apply le_antisymm
  · refine lcsLength_le fun s left right => ?_
    have inX : s.dropLast.Sublist x := by
      rcases sublist_concat left with inX | ⟨s', rfl, inX⟩
      · exact (List.dropLast_sublist s).trans inX
      · rwa [List.dropLast_concat]
    have inY : s.dropLast.Sublist y := by
      rcases sublist_concat right with inY | ⟨s', rfl, inY⟩
      · exact (List.dropLast_sublist s).trans inY
      · rwa [List.dropLast_concat]
    have bound := length_le_lcsLength inX inY
    rw [List.length_dropLast] at bound
    omega
  · obtain ⟨s, left, right, length⟩ := exists_longest x y
    rw [← length, ← List.length_singleton, ← List.length_append]
    exact length_le_lcsLength (left.append (List.Sublist.refl _)) (right.append (List.Sublist.refl _))

/-- They grow by different elements: one of the two is left out. -/
theorem lcsLength_concat_of_ne (differ : a ≠ b) (x y : List α) :
    lcsLength (x ++ [a]) (y ++ [b]) = max (lcsLength x (y ++ [b])) (lcsLength (x ++ [a]) y) := by
  have grows : x.Sublist (x ++ [a]) := List.sublist_append_left x [a]
  have grows' : y.Sublist (y ++ [b]) := List.sublist_append_left y [b]
  apply le_antisymm
  · refine lcsLength_le fun s left right => ?_
    rcases sublist_concat left with inX | ⟨s', rfl, _⟩
    · exact le_max_of_le_left (length_le_lcsLength inX right)
    · rcases sublist_concat right with inY | ⟨s'', same, _⟩
      · exact le_max_of_le_right (length_le_lcsLength left inY)
      · exact absurd (List.append_inj_right' same rfl) (by simpa using differ)
  · exact max_le (lcsLength_mono grows (List.Sublist.refl _))
      (lcsLength_mono (List.Sublist.refl _) grows')

/-! ## What an element at an end adds -/

/-- The element occurs in `y` behind a longest common subsequence of `x` and `y`. -/
def Behind (a : α) (x y : List α) : Prop :=
  ∃ front back, y = front ++ a :: back ∧ lcsLength x front = lcsLength x y

/-- The element occurs in `y` in front of a longest common subsequence of `x` and `y`. -/
def InFront (a : α) (x y : List α) : Prop :=
  ∃ front back, y = front ++ a :: back ∧ lcsLength x back = lcsLength x y

theorem lcsLength_concat_le (a : α) (x y : List α) :
    lcsLength (x ++ [a]) y ≤ lcsLength x y + 1 := by
  have grows : y.Sublist (y ++ [a]) := List.sublist_append_left y [a]
  exact (lcsLength_mono (List.Sublist.refl _) grows).trans (lcsLength_concat_self a x y).le

/-- One more element at the end of `x` makes the longest common subsequences longer exactly if it
occurs in `y` behind one of them. -/
theorem lt_lcsLength_concat_iff : lcsLength x y < lcsLength (x ++ [a]) y ↔ Behind a x y := by
  constructor
  · intro longer
    obtain ⟨s, left, right, length⟩ := exists_longest (x ++ [a]) y
    rcases sublist_concat left with inX | ⟨s', rfl, inX⟩
    · have bound := length_le_lcsLength inX right
      omega
    · obtain ⟨before, after, rfl, inFront, last⟩ := List.append_sublist_iff.mp right
      obtain ⟨between, back, rfl⟩ := List.append_of_mem (List.singleton_sublist.mp last)
      refine ⟨before ++ between, back, List.append_assoc .. ▸ rfl, le_antisymm ?_ ?_⟩
      · apply lcsLength_mono (List.Sublist.refl x)
        rw [← List.append_assoc]
        exact List.sublist_append_left _ _
      · have bound := length_le_lcsLength inX (inFront.trans (List.sublist_append_left before between))
        rw [List.length_append, List.length_singleton] at length
        omega
  · rintro ⟨front, back, rfl, same⟩
    obtain ⟨s, left, right, length⟩ := exists_longest x front
    rw [← same, ← length, ← Nat.succ_le_iff, Nat.succ_eq_add_one, ← List.length_singleton (a := a),
      ← List.length_append]
    refine length_le_lcsLength (left.append (List.Sublist.refl _)) (right.append ?_)
    exact List.singleton_sublist.mpr List.mem_cons_self

/-- Different last elements add something if one of them does. -/
theorem lt_lcsLength_last_iff (differ : a ≠ b) :
    lcsLength x y < lcsLength (x ++ [a]) (y ++ [b]) ↔ Behind a x y ∨ Behind b y x := by
  rw [lcsLength_concat_of_ne differ, lt_max_iff, lt_lcsLength_concat_iff, or_comm,
    lcsLength_comm x y, lcsLength_comm x (y ++ [b]), lt_lcsLength_concat_iff]

/-- They add one at most. -/
theorem lcsLength_last_bounds (differ : a ≠ b) (x y : List α) :
    lcsLength x y ≤ lcsLength (x ++ [a]) (y ++ [b]) ∧
      lcsLength (x ++ [a]) (y ++ [b]) ≤ lcsLength x y + 1 := by
  constructor
  · exact lcsLength_mono (List.sublist_append_left x [a]) (List.sublist_append_left y [b])
  · rw [lcsLength_concat_of_ne differ, lcsLength_comm x (y ++ [b]), lcsLength_comm x y]
    apply max_le (lcsLength_concat_le b y x)
    rw [lcsLength_comm y x]
    exact lcsLength_concat_le a x y

theorem behind_reverse_iff : Behind a x.reverse y.reverse ↔ InFront a x y := by
  constructor
  · rintro ⟨front, back, split, same⟩
    refine ⟨back.reverse, front.reverse, ?_, ?_⟩
    · rw [← List.reverse_reverse y, split, List.reverse_append, List.reverse_cons,
        List.append_assoc, List.singleton_append]
    · rw [← lcsLength_reverse, List.reverse_reverse, same, lcsLength_reverse]
  · rintro ⟨front, back, rfl, same⟩
    refine ⟨back.reverse, front.reverse, ?_, ?_⟩
    · rw [List.reverse_append, List.reverse_cons, List.append_assoc, List.singleton_append]
    · rw [lcsLength_reverse, lcsLength_reverse, same]

/-- First elements are last ones, read backwards. -/
theorem lcsLength_cons_cons (a b : α) (x y : List α) :
    lcsLength (a :: x) (b :: y) = lcsLength (x.reverse ++ [a]) (y.reverse ++ [b]) := by
  rw [← lcsLength_reverse, List.reverse_cons, List.reverse_cons]

/-- Two different elements are put at the same end of both lists: it is the same at which one,
exactly if they add something at both or at neither. -/
theorem lcsLength_first_eq_last_iff (differ : a ≠ b) :
    lcsLength (a :: x) (b :: y) = lcsLength (x ++ [a]) (y ++ [b]) ↔
      (Behind a x y ∨ Behind b y x ↔ InFront a x y ∨ InFront b y x) := by
  have last := lcsLength_last_bounds differ x y
  have first := lcsLength_last_bounds differ x.reverse y.reverse
  rw [← lcsLength_cons_cons, lcsLength_reverse] at first
  rw [← lt_lcsLength_last_iff differ, ← behind_reverse_iff, ← behind_reverse_iff,
    ← lt_lcsLength_last_iff differ, ← lcsLength_cons_cons, lcsLength_reverse]
  omega

/-- The same element is put at the same end of both lists. -/
theorem lcsLength_first_self (a : α) (x y : List α) :
    lcsLength (a :: x) (a :: y) = lcsLength (x ++ [a]) (y ++ [a]) := by
  rw [lcsLength_cons_cons, lcsLength_concat_self, lcsLength_concat_self, lcsLength_reverse]

end Col733

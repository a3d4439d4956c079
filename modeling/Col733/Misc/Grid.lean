import Mathlib.Data.List.Basic

/-!
# Filling a grid

Two nested loops that fill a grid row by row, where the value of a cell may be computed from the
cells before it. The rule is one induction for both loops: if every turn fills its cell with a
good value, provided that the cells before it are good, then the loops come to their end and all
cells are good.
-/

namespace Col733

/-- A grid of cells that are filled one after the other, `none` for a cell that is still
missing. -/
def Grid (β : Type) := Nat → Nat → Option β

namespace Grid

variable {β : Type}

def empty : Grid β := fun _ _ => none

/-- `g[i][j] = v` -/
def set (g : Grid β) (i j : Nat) (v : β) : Grid β :=
  fun i' j' => if i' = i ∧ j' = j then some v else g i' j'

/-- For every `i` in `range(rows)`, and every `j` in `range(cols)`, a turn that may raise. -/
def fill (rows cols : Nat) (turn : Grid β → Nat → Nat → Option (Grid β)) (g : Grid β) :
    Option (Grid β) :=
  (List.range rows).foldlM (fun g i => (List.range cols).foldlM (fun g j => turn g i j) g) g

@[simp] theorem set_self (g : Grid β) (i j : Nat) (v : β) : g.set i j v i j = some v :=
  if_pos ⟨rfl, rfl⟩

theorem set_of_ne (g : Grid β) {i j i' j' : Nat} (v : β) (differ : ¬ (i' = i ∧ j' = j)) :
    g.set i j v i' j' = g i' j' :=
  if_neg differ

/-- The second assignment to a cell is the one that counts. -/
@[simp] theorem set_set (g : Grid β) (i j : Nat) (v w : β) : (g.set i j v).set i j w = g.set i j w := by
  funext i' j'
  unfold set
  split <;> rfl

/-- The cells before `(i, j)`, in the order of the loops, hold good values. -/
def FilledTo (P : Nat → Nat → β → Prop) (cols i j : Nat) (g : Grid β) : Prop :=
  ∀ i' j', j' < cols → i' < i ∨ i' = i ∧ j' < j → ∃ v, g i' j' = some v ∧ P i' j' v

section Fill

variable {σ : Type} {P : Nat → Nat → β → Prop} {rows cols i j : Nat} {g : Grid β}

/-- A loop over `range(n)` with an invariant. -/
theorem exists_foldlM_range {f : σ → Nat → Option σ} {I : Nat → σ → Prop} {n : Nat} {s : σ}
    (start : I 0 s) (turn : ∀ k s, k < n → I k s → ∃ s', f s k = some s' ∧ I (k + 1) s') :
    ∃ s', (List.range n).foldlM f s = some s' ∧ I n s' := by
  induction n with
  | zero => exact ⟨s, rfl, start⟩
  | succ n ih =>
    obtain ⟨middle, run, holds⟩ := ih fun k s bound => turn k s (Nat.lt_succ_of_lt bound)
    obtain ⟨last, step, after⟩ := turn n middle (Nat.lt_succ_self n) holds
    refine ⟨last, ?_, after⟩
    rw [List.range_succ, List.foldlM_append, run]
    exact (Option.bind_some ..).trans (by rw [List.foldlM_cons, step]; rfl)

/-- One more cell is filled. -/
theorem filledTo_set {v : β} (before : FilledTo P cols i j g) (good : P i j v) :
    FilledTo P cols i (j + 1) (g.set i j v) := by
  intro i' j' bound earlier
  by_cases here : i' = i ∧ j' = j
  · obtain ⟨rfl, rfl⟩ := here
    exact ⟨v, set_self g i' j' v, good⟩
  · rw [set_of_ne g v here]
    exact before i' j' bound (by omega)

/-- A row is full, and the next one begins. -/
theorem filledTo_succ (before : FilledTo P cols i cols g) : FilledTo P cols (i + 1) 0 g := by
  intro i' j' bound earlier
  exact before i' j' bound (by omega)

/-- The rule of the two loops. -/
theorem exists_fill {turn : Grid β → Nat → Nat → Option (Grid β)}
    (fills : ∀ i j g, i < rows → j < cols → FilledTo P cols i j g →
      ∃ v, turn g i j = some (g.set i j v) ∧ P i j v) (g : Grid β) :
    ∃ g', fill rows cols turn g = some g' ∧
      ∀ i j, i < rows → j < cols → ∃ v, g' i j = some v ∧ P i j v := by
  have start : FilledTo P cols 0 0 g := by
    intro i j _ earlier
    omega
  obtain ⟨g', run, filled⟩ := exists_foldlM_range (n := rows)
    (f := fun g i => (List.range cols).foldlM (fun g j => turn g i j) g)
    (I := fun i => FilledTo P cols i 0) start (by
      intro i g row before
      obtain ⟨g', run, full⟩ := exists_foldlM_range (n := cols) (f := fun g j => turn g i j)
        (I := fun j => FilledTo P cols i j) before (by
          intro j g column earlier
          obtain ⟨v, filled, good⟩ := fills i j g row column earlier
          exact ⟨_, filled, filledTo_set earlier good⟩)
      exact ⟨g', run, filledTo_succ full⟩)
  exact ⟨g', run, fun i j row column => filled i j column (.inl row)⟩

end Fill

end Grid

end Col733

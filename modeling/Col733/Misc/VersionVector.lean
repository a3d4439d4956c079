import Mathlib.Data.Set.Insert
import Mathlib.Order.Defs.LinearOrder

/-!
# Version vectors

Replicas that exchange the writes of several origins. A write is known by its origin and its
time there, and a replica summarises what it has in a vector: for each origin the time up to
which it has everything. It is told only what is later than its vector, and misses nothing, as
long as every replica has, with a write, all earlier writes of the same origin. `W` are the
writes that there are, `K` and `L` what two replicas have of them.
-/

namespace Col733.VersionVector

variable {ι τ : Type} [LinearOrder τ] {W K K' L G : Set (ι × τ)} {v : ι → τ} {d e : ι × τ}

/-- All writes of an origin up to a time are there. -/
def UpTo (W K : Set (ι × τ)) (e : ι × τ) : Prop := ∀ w ∈ W, w.1 = e.1 → w.2 ≤ e.2 → w ∈ K

/-- With a write there are all earlier ones of its origin. -/
def Closed (W K : Set (ι × τ)) : Prop := ∀ e ∈ K, UpTo W K e

/-- All writes that the vector covers are there. -/
def Covers (W K : Set (ι × τ)) (v : ι → τ) : Prop := ∀ i, UpTo W K (i, v i)

/-- The writes that are later than the vector. -/
def later (v : ι → τ) (L : Set (ι × τ)) : Set (ι × τ) := {w ∈ L | v w.1 < w.2}

theorem UpTo.mono (upTo : UpTo W K e) (more : K ⊆ K') : UpTo W K' e :=
  fun w written same below => more (upTo w written same below)

theorem Covers.mem (covers : Covers W K v) {w : ι × τ} (written : w ∈ W) (below : w.2 ≤ v w.1) :
    w ∈ K :=
  covers w.1 w written rfl below

/-- Whoever is told what is later than its vector has everything. -/
theorem Covers.mem_of_told (covers : Covers W K v) (told : later v L ⊆ K ∪ G) {w : ι × τ}
    (written : w ∈ W) (there : w ∈ L) : w ∈ K ∪ G := by
  rcases le_or_gt w.2 (v w.1) with below | above
  · exact .inl (covers.mem written below)
  · exact told ⟨there, above⟩

/-- And goes on to have, with a write, the earlier ones. -/
theorem Closed.union (closed : Closed W K) (closedL : Closed W L) (given : G ⊆ L)
    (all : ∀ w ∈ W, w ∈ L → w ∈ K ∪ G) : Closed W (K ∪ G) := by
  rintro e (mine | new) w written same below
  · exact .inl (closed e mine w written same below)
  · exact all w written (closedL e (given new) w written same below)

/-- A new write of an origin is later than those before it. -/
def Fresh (W : Set (ι × τ)) (e : ι × τ) : Prop := ∀ w ∈ W, w.1 = e.1 → w.2 < e.2

/-- A new write is not among those up to an earlier time. -/
theorem UpTo.write (upTo : UpTo W K d) (before : d.1 = e.1 → d.2 < e.2) :
    UpTo (insert e W) K d := by
  rintro w (rfl | written) same below
  · exact absurd (before same.symm) (not_lt_of_ge below)
  · exact upTo w written same below

theorem Closed.write (closed : Closed W K) (known : K ⊆ W) (fresh : Fresh W e) :
    Closed (insert e W) K :=
  fun d mine => (closed d mine).write (fresh d (known mine))

/-- The origin takes it up. -/
theorem Closed.write_own (closed : Closed W K) (known : K ⊆ W) (fresh : Fresh W e)
    (own : ∀ w ∈ W, w.1 = e.1 → w ∈ K) : Closed (insert e W) (insert e K) := by
  rintro d (rfl | mine) w written same below
  · rcases written with rfl | written
    · exact .inl rfl
    · exact .inr (own w written same)
  · exact .inr (closed.write known fresh d mine w written same below)

end Col733.VersionVector

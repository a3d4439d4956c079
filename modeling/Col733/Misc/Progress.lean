import Col733.Misc.System

/-!
# Potentials

How long a system can run, and that it comes to an end. A potential is a number for
every state that no action raises and that some actions, the counted ones, lower. So the
counted actions of a run are at most as many as the potential at its start; and where
one of them can be performed as long as a goal is not reached, they reach the goal.
-/

namespace Col733.System

variable {σ α : Type} {S : System σ α} {Inv : σ → Prop} {counted : α → Bool}

/-- A number for every state: from the states of `Inv` a counted action lowers it, and no
action raises it. -/
structure Potential (S : System σ α) (Inv : σ → Prop) (counted : α → Bool) where
  value : σ → Nat
  falls : ∀ {s a s'}, Inv s → S.step s a = some s' → value s' + (counted a).toNat ≤ value s

namespace Potential

/-- A run has no more counted actions than the potential at its start. -/
theorem countP_le (pot : Potential S Inv counted)
    (kept : ∀ {s a s'}, Inv s → S.step s a = some s' → Inv s') {as : List α} {s s' : σ}
    (inv : Inv s) (moved : S.runFrom s as = some s') :
    as.countP counted + pot.value s' ≤ pot.value s := by
  induction as generalizing s with
  | nil =>
    cases moved
    exact Nat.le_of_eq (Nat.zero_add _)
  | cons a as ih =>
    obtain ⟨next, step, rest⟩ := Option.bind_eq_some_iff.mp moved
    have first := pot.falls inv step
    have later := ih (kept inv step) rest
    rw [List.countP_cons]
    cases isCounted : counted a with
    | true =>
      rw [isCounted, Bool.toNat_true] at first
      rw [if_pos rfl]
      omega
    | false =>
      rw [if_neg Bool.false_ne_true]
      omega

/-- Where a counted action can be performed as long as the goal is not reached, counted
actions reach it. -/
theorem finishes (pot : Potential S Inv counted)
    (kept : ∀ {s a s'}, Inv s → counted a = true → S.step s a = some s' → Inv s')
    {goal : σ → Prop}
    (moves : ∀ s, Inv s → ¬ goal s → ∃ a s', counted a = true ∧ S.step s a = some s') {s : σ}
    (inv : Inv s) :
    ∃ as s', as.length ≤ pot.value s ∧ (∀ a ∈ as, counted a = true) ∧
      S.runFrom s as = some s' ∧ Inv s' ∧ goal s' := by
  induction left : pot.value s using Nat.strongRecOn generalizing s with
  | ind remaining ih =>
    by_cases reached : goal s
    · refine ⟨[], s, Nat.zero_le _, ?_, rfl, inv, reached⟩
      rintro a ⟨⟩
    · obtain ⟨a, next, isCounted, step⟩ := moves s inv reached
      have lower := pot.falls inv step
      rw [isCounted, Bool.toNat_true] at lower
      obtain ⟨as, s', short, all, moved, inv', reached'⟩ :=
        ih (pot.value next) (by omega) (kept inv isCounted step) rfl
      refine ⟨a :: as, s', ?_, ?_, ?_, inv', reached'⟩
      · rw [List.length_cons]
        omega
      · intro b member
        rcases List.mem_cons.mp member with rfl | later
        · exact isCounted
        · exact all b later
      · rw [runFrom_cons, step, Option.bind_some]
        exact moved

end Potential

end Col733.System

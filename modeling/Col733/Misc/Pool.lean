import Mathlib.Data.Finset.Range
import Mathlib.Data.List.Nodup
import Mathlib.Data.List.Range
import Mathlib.Data.Set.Card
import Mathlib.Logic.Function.Basic

/-!
# A pool of resources

Resources `0` to `n - 1`, each of which is either in the pool, where it stands once, or held
by one user. `held` says what a user holds; a user takes from the pool only when it holds
nothing, and gives back what it holds.
-/

namespace Col733.Pool

variable {ι : Type} {n : Nat} {idle : List Nat} {held : ι → Option Nat} {x : Nat} {c : ι}

/-- The idle resources and those that are held are exactly the `n` resources; none of them is
in the pool twice, in the pool and held, or held by two users. -/
structure Exact (n : Nat) (idle : List Nat) (held : ι → Option Nat) : Prop where
  nodup : idle.Nodup
  all : ∀ x, x < n ↔ x ∈ idle ∨ ∃ c, held c = some x
  once : ∀ c d x, held c = some x → held d = some x → c = d
  apart : ∀ c x, held c = some x → x ∉ idle

/-- At first all of them are in the pool. -/
theorem exact_initial : Exact n (List.range n).reverse (fun _ : ι => none) where
  nodup := List.nodup_reverse.mpr List.nodup_range
  all x := by simp
  once c d x holds := by cases holds
  apart c x holds := by cases holds

/-- The order in which the idle resources stand says nothing. -/
theorem Exact.perm {idle' : List Nat} (exact : Exact n idle held) (same : idle.Perm idle') :
    Exact n idle' held where
  nodup := same.nodup_iff.mp exact.nodup
  all y := by rw [exact.all y, same.mem_iff]
  once := exact.once
  apart d y holds pooled := exact.apart d y holds (same.mem_iff.mpr pooled)

/-- The resources that are not in the pool. -/
def inUse (n : Nat) (idle : List Nat) : Finset Nat :=
  (Finset.range n).filter (· ∉ idle)

theorem inUse_nil : inUse n [] = Finset.range n :=
  Finset.filter_true_of_mem fun _ _ => List.not_mem_nil

/-- They are those that the users hold. -/
theorem Exact.image_holders (exact : Exact n idle held) :
    held '' {c | (held c).isSome} = Option.some '' (inUse n idle : Set Nat) := by
  ext resource
  constructor
  · rintro ⟨c, holds, rfl⟩
    obtain ⟨x, here⟩ := Option.isSome_iff_exists.mp holds
    have inside : x < n := (exact.all x).mpr (.inr ⟨c, here⟩)
    have used : x ∈ inUse n idle :=
      Finset.mem_filter.mpr ⟨Finset.mem_range.mpr inside, exact.apart c x here⟩
    exact ⟨x, used, here.symm⟩
  · rintro ⟨x, used, rfl⟩
    obtain ⟨inside, absent⟩ := Finset.mem_filter.mp used
    obtain ⟨c, holds⟩ := ((exact.all x).mp (Finset.mem_range.mp inside)).resolve_left absent
    exact ⟨c, Option.isSome_of_eq_some holds, holds⟩

theorem Exact.injOn_holders (exact : Exact n idle held) :
    Set.InjOn held {c | (held c).isSome} := by
  intro c holds d _ same
  obtain ⟨x, here⟩ := Option.isSome_iff_exists.mp holds
  exact exact.once c d x here (same ▸ here)

theorem Exact.finite_holders (exact : Exact n idle held) : {c | (held c).isSome}.Finite := by
  refine Set.Finite.of_finite_image ?_ exact.injOn_holders
  rw [exact.image_holders]
  exact (Finset.finite_toSet _).image _

/-- There are as many of them as users that hold one. -/
theorem Exact.ncard_holders (exact : Exact n idle held) :
    {c | (held c).isSome}.ncard = (inUse n idle).card := by
  rw [← exact.injOn_holders.ncard_image, exact.image_holders,
    Set.ncard_image_of_injective _ (Option.some_injective _), Set.ncard_coe_finset]

/-- No more users hold one than there are resources. -/
theorem Exact.ncard_holders_le (exact : Exact n idle held) : {c | (held c).isSome}.ncard ≤ n := by
  rw [exact.ncard_holders]
  exact (Finset.card_filter_le _ _).trans (Finset.card_range n).le

variable [DecidableEq ι]

/-- A resource that was in the pool is held. -/
theorem Exact.take (exact : Exact n (x :: idle) held) (free : held c = none) :
    Exact n idle (Function.update held c (some x)) := by
  obtain ⟨absent, rest⟩ := List.nodup_cons.mp exact.nodup
  have other {d : ι} {y : Nat} (holds : Function.update held c (some x) d = some y) :
      (d = c ∧ y = x) ∨ (d ≠ c ∧ held d = some y) := by
    by_cases same : d = c
    · subst same
      rw [Function.update_self] at holds
      exact .inl ⟨rfl, (Option.some.inj holds).symm⟩
    · rw [Function.update_of_ne same] at holds
      exact .inr ⟨same, holds⟩
  refine ⟨rest, ?_, ?_, ?_⟩
  · intro y
    rw [exact.all y, List.mem_cons]
    constructor
    · rintro ((rfl | pooled) | ⟨d, holds⟩)
      · exact .inr ⟨c, Function.update_self ..⟩
      · exact .inl pooled
      · have different : d ≠ c := by
          rintro rfl
          rw [free] at holds
          cases holds
        exact .inr ⟨d, by rw [Function.update_of_ne different, holds]⟩
    · rintro (pooled | ⟨d, holds⟩)
      · exact .inl (.inr pooled)
      · rcases other holds with ⟨_, rfl⟩ | ⟨_, before⟩
        · exact .inl (.inl rfl)
        · exact .inr ⟨d, before⟩
  · intro d e y first second
    rcases other first with ⟨rfl, rfl⟩ | ⟨_, before⟩
    · rcases other second with ⟨rfl, _⟩ | ⟨_, before⟩
      · rfl
      · exact absurd List.mem_cons_self (exact.apart e y before)
    · rcases other second with ⟨_, rfl⟩ | ⟨_, before'⟩
      · exact absurd List.mem_cons_self (exact.apart d y before)
      · exact exact.once d e y before before'
  · intro d y holds
    rcases other holds with ⟨_, rfl⟩ | ⟨_, before⟩
    · exact absent
    · exact fun pooled => exact.apart d y before (List.mem_cons_of_mem _ pooled)

/-- A resource that was held is in the pool again. -/
theorem Exact.give (exact : Exact n idle held) (holds : held c = some x) :
    Exact n (x :: idle) (Function.update held c none) := by
  have other {d : ι} {y : Nat} (still : Function.update held c none d = some y) :
      d ≠ c ∧ held d = some y := by
    by_cases same : d = c
    · subst same
      rw [Function.update_self] at still
      cases still
    · rw [Function.update_of_ne same] at still
      exact ⟨same, still⟩
  refine ⟨List.nodup_cons.mpr ⟨exact.apart c x holds, exact.nodup⟩, ?_, ?_, ?_⟩
  · intro y
    rw [exact.all y, List.mem_cons]
    constructor
    · rintro (pooled | ⟨d, before⟩)
      · exact .inl (.inr pooled)
      · by_cases same : d = c
        · subst same
          rw [holds] at before
          exact .inl (.inl (Option.some.inj before).symm)
        · exact .inr ⟨d, by rw [Function.update_of_ne same, before]⟩
    · rintro ((rfl | pooled) | ⟨d, still⟩)
      · exact .inr ⟨c, holds⟩
      · exact .inl pooled
      · exact .inr ⟨d, (other still).2⟩
  · intro d e y first second
    exact exact.once d e y (other first).2 (other second).2
  · intro d y still pooled
    obtain ⟨different, before⟩ := other still
    rcases List.mem_cons.mp pooled with rfl | pooled
    · exact different (exact.once d c y before holds)
    · exact exact.apart d y before pooled

end Col733.Pool

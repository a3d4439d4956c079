import Mathlib.Data.List.Induction
import Mathlib.Data.List.Sort

/-!
# Lists that are kept sorted by a key

A strict total order on keys, as two comparisons compute it, and lists that are kept sorted by
the keys of their items. If the keys are pairwise different, the sorted list is determined by
the items: it does not matter in which order, and in which portions, they have come in.
-/

namespace Col733

variable {κ β : Type}

/-- `<` is a strict total order, and `==` says which keys are the same. -/
structure StrictTotal (lt eq : κ → κ → Bool) : Prop where
  irrefl : ∀ a, lt a a = false
  trans : ∀ a b c, lt a b = true → lt b c = true → lt a c = true
  total : ∀ a b, eq a b = true ∨ lt a b = true ∨ lt b a = true
  eq_iff : ∀ a b, eq a b = true ↔ a = b

/-- No item stands before one with a smaller key. -/
def SortedBy (lt : κ → κ → Bool) (key : β → κ) (items : List β) : Prop :=
  items.Pairwise fun x y => lt (key y) (key x) = false

/-- All items have different keys. -/
def DistinctBy (key : β → κ) (items : List β) : Prop := items.Pairwise fun x y => key x ≠ key y

/-- What a sorted list does with the items that are put in. -/
def KeepsSorted (lt : κ → κ → Bool) (key : β → κ) (update : List β → List β → List β) : Prop :=
  ∀ items batch, SortedBy lt key items →
    (update items batch).Perm (items ++ batch) ∧ SortedBy lt key (update items batch)

section Order

variable {lt eq : κ → κ → Bool} {a b c : κ}

theorem StrictTotal.asymm (order : StrictTotal lt eq) (before : lt a b = true) :
    lt b a = false := by
  by_contra after
  have loop := order.trans a b a before (eq_true_of_ne_false after)
  rw [order.irrefl a] at loop
  cases loop

/-- The order of two different keys is decided one way. -/
theorem StrictTotal.lt_of_not (order : StrictTotal lt eq) (differ : a ≠ b)
    (notAfter : lt b a = false) : lt a b = true := by
  rcases order.total a b with same | before | after
  · exact absurd ((order.eq_iff a b).mp same) differ
  · exact before
  · rw [notAfter] at after
    cases after

/-- Not to be after is transitive as well. -/
theorem StrictTotal.not_after_trans (order : StrictTotal lt eq) (ab : lt b a = false)
    (bc : lt c b = false) : lt c a = false := by
  by_contra after
  by_cases same : a = b
  · subst same
    exact after bc
  · have before := order.lt_of_not same ab
    rw [order.trans c a b (eq_true_of_ne_false after) before] at bc
    cases bc

end Order

section Sorted

variable {lt eq : κ → κ → Bool} {key : β → κ} {items items' : List β}

/-- Sorted items with different keys are strictly increasing. -/
theorem SortedBy.strict (order : StrictTotal lt eq) (sorted : SortedBy lt key items)
    (distinct : DistinctBy key items) :
    items.Pairwise fun x y => lt (key x) (key y) = true :=
  List.Pairwise.imp₂ (fun _ _ notAfter differ => order.lt_of_not differ notAfter) sorted distinct

theorem DistinctBy.perm (distinct : DistinctBy key items) (same : items.Perm items') :
    DistinctBy key items' :=
  List.Pairwise.perm distinct same Ne.symm

/-- The items determine the sorted list. -/
theorem SortedBy.eq_of_perm (order : StrictTotal lt eq) (sorted : SortedBy lt key items)
    (sorted' : SortedBy lt key items') (distinct : DistinctBy key items)
    (same : items.Perm items') : items = items' := by
  refine List.Perm.eq_of_pairwise ?_ (sorted.strict order distinct)
    (sorted'.strict order (distinct.perm same)) same
  intro x y _ _ before after
  rw [order.asymm before] at after
  cases after

/-- Portions that come in one after the other. -/
theorem KeepsSorted.foldl {update : List β → List β → List β} (keeps : KeepsSorted lt key update)
    (batches : List (List β)) :
    (batches.foldl update []).Perm batches.flatten ∧ SortedBy lt key (batches.foldl update []) := by
  induction batches using List.reverseRecOn with
  | nil => exact ⟨List.Perm.refl _, List.Pairwise.nil⟩
  | append_singleton batches batch ih =>
    obtain ⟨sameItems, sorted⟩ := keeps (batches.foldl update []) batch ih.2
    rw [List.foldl_append, List.flatten_append, List.flatten_singleton]
    exact ⟨sameItems.trans (ih.1.append_right batch), sorted⟩

/-- A way to keep a list sorted: to sort it again. -/
def resort (lt : κ → κ → Bool) (key : β → κ) (items batch : List β) : List β :=
  (items ++ batch).mergeSort fun x y => !lt (key y) (key x)

theorem sortedBy_mergeSort (order : StrictTotal lt eq) (key : β → κ) (items : List β) :
    SortedBy lt key (items.mergeSort fun x y => !lt (key y) (key x)) := by
  have trans : ∀ x y z : β, (!lt (key y) (key x)) = true → (!lt (key z) (key y)) = true →
      (!lt (key z) (key x)) = true := by
    intro x y z xy yz
    rw [Bool.not_eq_true'] at xy yz ⊢
    exact order.not_after_trans xy yz
  have total : ∀ x y : β, (!lt (key y) (key x) || !lt (key x) (key y)) = true := by
    intro x y
    cases before : lt (key y) (key x) with
    | false => rfl
    | true =>
      rw [order.asymm before]
      rfl
  exact (List.pairwise_mergeSort trans total items).imp fun notAfter =>
    Bool.not_eq_true' _ ▸ notAfter

theorem keepsSorted_resort (order : StrictTotal lt eq) (key : β → κ) :
    KeepsSorted lt key (resort lt key) :=
  fun items batch _ => ⟨List.mergeSort_perm _ _, sortedBy_mergeSort order key (items ++ batch)⟩

/-- However the items come in, the list ends up as the same strictly increasing one. -/
theorem KeepsSorted.unique {update : List β → List β → List β} (keeps : KeepsSorted lt key update)
    (order : StrictTotal lt eq) (distinct : DistinctBy key items) :
    ∃ sequence, sequence.Perm items ∧
      (sequence.Pairwise fun x y => lt (key x) (key y) = true) ∧
      ∀ batches : List (List β), batches.flatten.Perm items → batches.foldl update [] = sequence := by
  have sorted := sortedBy_mergeSort order key items
  have same := List.mergeSort_perm items fun x y => !lt (key y) (key x)
  refine ⟨_, same, sorted.strict order (distinct.perm same.symm), fun batches arrived => ?_⟩
  obtain ⟨held, sorted'⟩ := keeps.foldl batches
  have reached := (held.trans arrived).trans same.symm
  exact sorted'.eq_of_perm order sorted (distinct.perm (held.trans arrived).symm) reached

end Sorted

end Col733

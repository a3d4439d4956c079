import Col733.Misc.Dict
import Mathlib.Algebra.BigOperators.Group.Finset.Basic
import Mathlib.Data.Fintype.Basic

/-!
# Counting

Python's `Counter` and `defaultdict(int)`: a key that is missing has the count 0, and an
addition to it puts it in. `amount` is what a list of counts, in any order and with
repeated keys, comes to for one key. The last section is on totals over the places where
counts can be: they change by what one place changes.
-/

namespace Col733

variable {κ : Type} [DecidableEq κ]

namespace Dict

/-- `d[x]` of a `Counter` or a `defaultdict(int)`. -/
def tally (d : Dict κ Int) (x : κ) : Int := (d.get? x).getD 0

/-- `d[k] += n`. -/
def add (d : Dict κ Int) (k : κ) (n : Int) : Dict κ Int := d.set k (d.tally k + n)

@[simp] theorem tally_empty (x : κ) : (empty : Dict κ Int).tally x = 0 := rfl

theorem tally_add (d : Dict κ Int) (k x : κ) (n : Int) :
    (d.add k n).tally x = d.tally x + if k = x then n else 0 := by
  unfold add
  by_cases same : k = x
  · subst same
    simp [tally]
  · rw [if_neg same, Int.add_zero, tally, get?_set_of_ne d (Ne.symm same)]
    rfl

/-- No key is held with a count of 0 or less. -/
def Positive (d : Dict κ Int) : Prop := ∀ x n, d.get? x = some n → 0 < n

theorem positive_empty : Positive (empty : Dict κ Int) := by
  intro x n held
  cases held

theorem Positive.tally_nonneg {d : Dict κ Int} (positive : d.Positive) (x : κ) :
    0 ≤ d.tally x := by
  unfold tally
  cases held : d.get? x with
  | none => exact Int.le_refl 0
  | some n => exact Int.le_of_lt (positive x n held)

theorem Positive.of_mem {d : Dict κ Int} (positive : d.Positive) {e : κ × Int}
    (member : e ∈ d.entries) : 0 < e.2 :=
  positive e.1 e.2 (get?_of_mem member)

theorem Positive.add {d : Dict κ Int} (positive : d.Positive) (k : κ) {n : Int} (pos : 0 < n) :
    (d.add k n).Positive := by
  intro x total held
  unfold Dict.add at held
  rw [get?_set] at held
  split at held
  · cases held
    have := positive.tally_nonneg k
    omega
  · exact positive x total held

/-- The keys that are held are those with a count. -/
theorem Positive.get?_eq {d : Dict κ Int} (positive : d.Positive) (x : κ) :
    d.get? x = if d.tally x = 0 then none else some (d.tally x) := by
  unfold tally
  cases held : d.get? x with
  | none => rfl
  | some n =>
    have := positive x n held
    rw [if_neg (by simp only [Option.getD_some]; omega)]
    rfl

/-- `Counter(xs)`. -/
def counter (xs : List κ) : Dict κ Int := xs.foldl (fun d x => d.add x 1) empty

theorem tally_foldl_add (xs : List κ) (d : Dict κ Int) (x : κ) :
    (xs.foldl (fun d x => d.add x 1) d).tally x = d.tally x + xs.count x := by
  induction xs generalizing d with
  | nil => simp
  | cons y xs ih =>
    rw [List.foldl_cons, ih, tally_add, List.count_cons]
    by_cases same : y = x
    · simp [same]
      omega
    · simp [same]

theorem tally_counter (xs : List κ) (x : κ) : (counter xs).tally x = xs.count x := by
  rw [counter, tally_foldl_add, tally_empty, Int.zero_add]

theorem positive_foldl_add (xs : List κ) {d : Dict κ Int} (positive : d.Positive) :
    (xs.foldl (fun d x => d.add x 1) d).Positive := by
  induction xs generalizing d with
  | nil => exact positive
  | cons y xs ih => exact ih (positive.add y Int.one_pos)

theorem positive_counter (xs : List κ) : (counter xs).Positive :=
  positive_foldl_add xs positive_empty

theorem get?_counter (xs : List κ) (x : κ) :
    (counter xs).get? x = if xs.count x = 0 then none else some (xs.count x : Int) := by
  rw [(positive_counter xs).get?_eq x, tally_counter]
  simp

/-- The same key again and again is one item. -/
theorem entries_counter_replicate (k : κ) (n : Nat) :
    (counter (List.replicate (n + 1) k)).entries = [(k, ((n + 1 : Nat) : Int))] := by
  have more (n : Nat) (d : Dict κ Int) (held : Int) (single : d.entries = [(k, held)]) :
      ((List.replicate n k).foldl (fun d x => d.add x 1) d).entries = [(k, held + n)] := by
    induction n generalizing d held with
    | zero => rw [List.replicate_zero, List.foldl_nil, single, Int.natCast_zero, Int.add_zero]
    | succ n ih =>
      rw [List.replicate_succ, List.foldl_cons, ih (d.add k 1) (held + 1)]
      · rw [Int.natCast_succ, Int.add_assoc, Int.add_comm 1]
      · unfold add tally get? set
        simp [single, assign]
  rw [counter, List.replicate_succ, List.foldl_cons, more n (empty.add k 1) 1 rfl, Int.natCast_succ,
    Int.add_comm]

theorem get?_counter_of_not_mem {xs : List κ} {x : κ} (absent : x ∉ xs) :
    (counter xs).get? x = none := by
  rw [get?_counter, if_pos (List.count_eq_zero.mpr absent)]

/-- Elements that make no difference to the counts are not there. -/
theorem eq_nil_of_counter_append {xs ys : List κ}
    (same : ∀ x, (counter xs).get? x = (counter (xs ++ ys)).get? x) : ys = [] := by
  by_contra more
  obtain ⟨x, member⟩ := List.exists_mem_of_ne_nil ys more
  have counted : (counter xs).tally x = (counter (xs ++ ys)).tally x :=
    congrArg (fun count : Option Int => count.getD 0) (same x)
  have present : 0 < ys.count x := List.count_pos_iff.mpr member
  rw [tally_counter, tally_counter, List.count_append] at counted
  omega

/-- Only the keys that pass are counted. -/
theorem get?_counter_filter (p : κ → Bool) (xs : List κ) (x : κ) :
    (counter (xs.filter p)).get? x = if p x then (counter xs).get? x else none := by
  rw [get?_counter, get?_counter]
  by_cases passes : p x = true
  · rw [List.count_filter passes, if_pos passes]
  · have absent : (xs.filter p).count x = 0 :=
      List.count_eq_zero.mpr fun member => passes (List.mem_filter.mp member).2
    rw [if_pos absent, if_neg passes]

end Dict

/-- What the counts of the list come to for `x`. -/
def amount (x : κ) : List (κ × Int) → Int
  | [] => 0
  | item :: items => (if item.1 = x then item.2 else 0) + amount x items

@[simp] theorem amount_nil (x : κ) : amount x [] = 0 := rfl

@[simp] theorem amount_cons (x : κ) (item : κ × Int) (items : List (κ × Int)) :
    amount x (item :: items) = (if item.1 = x then item.2 else 0) + amount x items := rfl

@[simp] theorem amount_append (x : κ) (front back : List (κ × Int)) :
    amount x (front ++ back) = amount x front + amount x back := by
  induction front with
  | nil => rw [List.nil_append, amount_nil, Int.zero_add]
  | cons item front ih => rw [List.cons_append, amount_cons, amount_cons, ih, Int.add_assoc]

theorem amount_of_not_mem {x : κ} {items : List (κ × Int)} (absent : x ∉ items.map Prod.fst) :
    amount x items = 0 := by
  induction items with
  | nil => rfl
  | cons item items ih =>
    rw [List.map_cons, List.mem_cons, not_or] at absent
    rw [amount_cons, if_neg (Ne.symm absent.1), ih absent.2, Int.zero_add]

theorem amount_of_nodup {items : List (κ × Int)} (distinct : (items.map Prod.fst).Nodup) (x : κ) :
    amount x items = (items.lookup x).getD 0 := by
  induction items with
  | nil => rfl
  | cons item items ih =>
    obtain ⟨absent, rest⟩ := List.nodup_cons.mp distinct
    rw [amount_cons, Dict.lookup_entry_cons]
    by_cases here : item.1 = x
    · rw [if_pos here, if_pos here.symm, amount_of_not_mem (here ▸ absent), Int.add_zero]
      rfl
    · rw [if_neg here, if_neg (Ne.symm here), ih rest, Int.zero_add]

/-- The items of a dictionary come to its counts. -/
theorem Dict.amount_entries (d : Dict κ Int) (x : κ) : amount x d.entries = d.tally x :=
  amount_of_nodup d.nodup x

/-! ## Totals -/

section Totals

variable {ι σ : Type} [DecidableEq ι] [Fintype ι]

/-- A total over all places, after what is held at one of them has changed. -/
theorem sum_update (value : ι → σ → Int) (held : ι → σ) (j : ι) (new : σ) :
    ∑ i, value i (Function.update held j new i) =
      ∑ i, value i (held i) + (value j new - value j (held j)) := by
  rw [← Finset.add_sum_erase _ (fun i => value i (Function.update held j new i)) (Finset.mem_univ j),
    ← Finset.add_sum_erase _ (fun i => value i (held i)) (Finset.mem_univ j)]
  have others : ∑ i ∈ Finset.univ.erase j, value i (Function.update held j new i) =
      ∑ i ∈ Finset.univ.erase j, value i (held i) := by
    apply Finset.sum_congr rfl
    intro i member
    rw [Function.update_of_ne (Finset.ne_of_mem_erase member)]
  rw [others, Function.update_self]
  omega

/-- The same for numbers that are not negative. -/
theorem natSum_update (value : ι → σ → Nat) (held : ι → σ) (j : ι) (new : σ) :
    ∑ i, value i (Function.update held j new i) + value j (held j) =
      ∑ i, value i (held i) + value j new := by
  rw [← Finset.add_sum_erase _ (fun i => value i (Function.update held j new i)) (Finset.mem_univ j),
    ← Finset.add_sum_erase _ (fun i => value i (held i)) (Finset.mem_univ j)]
  have others : ∑ i ∈ Finset.univ.erase j, value i (Function.update held j new i) =
      ∑ i ∈ Finset.univ.erase j, value i (held i) := by
    apply Finset.sum_congr rfl
    intro i member
    rw [Function.update_of_ne (Finset.ne_of_mem_erase member)]
  rw [others, Function.update_self]
  omega

end Totals

end Col733

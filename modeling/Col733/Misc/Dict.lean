import Mathlib.Data.List.Basic
import Mathlib.Data.List.Nodup
import Mathlib.Data.List.Perm.Subperm

/-!
# Insertion-ordered dictionaries

Python's `dict`: a key is held once, an assignment to a key that is present keeps
its place, and a new key goes to the end. The invariant that no key is held twice
is a field, so that every dictionary of a model is a well-formed one.
-/

namespace Col733

/-- A dictionary: its items in insertion order, no key twice. -/
structure Dict (κ ν : Type) where
  entries : List (κ × ν)
  nodup : (entries.map Prod.fst).Nodup

namespace Dict

variable {κ ν : Type} [DecidableEq κ]

/-- `d[k] = v` on the list of items. -/
def assign (k : κ) (v : ν) : List (κ × ν) → List (κ × ν)
  | [] => [(k, v)]
  | e :: es => if e.1 = k then (k, v) :: es else e :: assign k v es

theorem mem_keys_assign {k x : κ} {v : ν} {es : List (κ × ν)} :
    x ∈ (assign k v es).map Prod.fst ↔ x = k ∨ x ∈ es.map Prod.fst := by
  induction es with
  | nil => simp [assign]
  | cons e es ih =>
    simp only [assign]
    split
    · rename_i same
      simp [same]
    · simp only [List.map_cons, List.mem_cons, ih]
      tauto

theorem nodup_assign {k : κ} {v : ν} {es : List (κ × ν)} (h : (es.map Prod.fst).Nodup) :
    ((assign k v es).map Prod.fst).Nodup := by
  induction es with
  | nil => simp [assign]
  | cons e es ih =>
    obtain ⟨absent, rest⟩ := List.nodup_cons.mp h
    simp only [assign]
    split
    · rename_i same
      exact List.nodup_cons.mpr ⟨same ▸ absent, rest⟩
    · rename_i different
      refine List.nodup_cons.mpr ⟨?_, ih rest⟩
      rw [mem_keys_assign]
      exact not_or.mpr ⟨different, absent⟩

theorem lookup_entry_cons {x : κ} {e : κ × ν} {es : List (κ × ν)} :
    (e :: es).lookup x = if x = e.1 then some e.2 else es.lookup x := by
  rcases e with ⟨k, v⟩
  by_cases same : x = k
  · simp [same]
  · have differs : (x == k) = false := beq_eq_false_iff_ne.mpr same
    simp [List.lookup_cons, differs, same]

theorem lookup_assign {k x : κ} {v : ν} {es : List (κ × ν)} :
    (assign k v es).lookup x = if x = k then some v else es.lookup x := by
  induction es with
  | nil => rw [assign, lookup_entry_cons]
  | cons e es ih =>
    simp only [assign]
    split
    · rename_i here
      by_cases same : x = k <;> simp [lookup_entry_cons, here, same]
    · rename_i there
      by_cases same : x = k
      · subst same
        simp [lookup_entry_cons, ih, Ne.symm there]
      · simp [lookup_entry_cons, ih, same]

/-- A dictionary is its items. -/
theorem eq_of_entries {κ ν : Type} {d e : Dict κ ν} (same : d.entries = e.entries) : d = e := by
  rcases d with ⟨es, nodup⟩
  rcases e with ⟨es', nodup'⟩
  cases same
  rfl

def empty : Dict κ ν := ⟨[], by simp⟩

/-- `d.get(k)`: the value held under the key, `none` when the key is missing. -/
def get? (d : Dict κ ν) (k : κ) : Option ν := d.entries.lookup k

/-- `d[k] = v`. -/
def set (d : Dict κ ν) (k : κ) (v : ν) : Dict κ ν :=
  ⟨assign k v d.entries, nodup_assign d.nodup⟩

/-- `k in d`. -/
def contains (d : Dict κ ν) (k : κ) : Bool := (d.get? k).isSome

def keys (d : Dict κ ν) : List κ := d.entries.map Prod.fst

/-- A literal or a comprehension: the items are assigned one after the other. -/
def ofList (items : List (κ × ν)) : Dict κ ν :=
  items.foldl (fun d item => d.set item.1 item.2) empty

@[simp] theorem get?_empty (k : κ) : (empty : Dict κ ν).get? k = none := rfl

@[simp] theorem get?_set (d : Dict κ ν) (k x : κ) (v : ν) :
    (d.set k v).get? x = if x = k then some v else d.get? x :=
  lookup_assign

/-- `d.pop(k)` without the value: the item of the key goes. -/
def erase (d : Dict κ ν) (k : κ) : Dict κ ν :=
  ⟨d.entries.filter fun e => e.1 ≠ k, (d.nodup.sublist (List.filter_sublist.map _))⟩

/-- `d.values()`. -/
def values (d : Dict κ ν) : List ν := d.entries.map Prod.snd

theorem lookup_entry_filter {k x : κ} {es : List (κ × ν)} (h : x ≠ k) :
    (es.filter fun e => e.1 ≠ k).lookup x = es.lookup x := by
  induction es with
  | nil => rfl
  | cons e es ih =>
    by_cases gone : e.1 = k
    · rw [List.filter_cons_of_neg (by simpa using gone), ih, lookup_entry_cons,
        if_neg (gone ▸ h)]
    · rw [List.filter_cons_of_pos (by simpa using gone), lookup_entry_cons, lookup_entry_cons, ih]

theorem get?_erase_of_ne (d : Dict κ ν) {k x : κ} (h : x ≠ k) : (d.erase k).get? x = d.get? x :=
  lookup_entry_filter h

theorem get?_set_self (d : Dict κ ν) (k : κ) (v : ν) : (d.set k v).get? k = some v := by simp

theorem get?_set_of_ne (d : Dict κ ν) {k x : κ} (h : x ≠ k) (v : ν) :
    (d.set k v).get? x = d.get? x := by simp [h]

theorem mem_assign {k : κ} {v : ν} {e : κ × ν} {es : List (κ × ν)} (member : e ∈ assign k v es) :
    e = (k, v) ∨ e ∈ es := by
  induction es with
  | nil => simpa [assign] using member
  | cons first es ih =>
    simp only [assign] at member
    split at member
    · rcases List.mem_cons.mp member with new | old
      · exact .inl new
      · exact .inr (List.mem_cons_of_mem _ old)
    · rcases List.mem_cons.mp member with here | later
      · exact .inr (here ▸ List.mem_cons_self)
      · exact (ih later).imp_right (List.mem_cons_of_mem _)

theorem mem_entries_foldl_set {items : List (κ × ν)} {d : Dict κ ν} {e : κ × ν}
    (member : e ∈ (items.foldl (fun d item => d.set item.1 item.2) d).entries) :
    e ∈ d.entries ∨ e ∈ items := by
  induction items generalizing d with
  | nil => exact .inl member
  | cons item items ih =>
    rcases ih member with before | later
    · rcases mem_assign before with new | old
      · exact .inr (new ▸ List.mem_cons_self)
      · exact .inl old
    · exact .inr (List.mem_cons_of_mem _ later)

/-- The items of a literal are among those that are written in it. -/
theorem mem_entries_ofList {items : List (κ × ν)} {e : κ × ν}
    (member : e ∈ (ofList items).entries) : e ∈ items := by
  rcases mem_entries_foldl_set member with impossible | written
  · cases impossible
  · exact written

theorem contains_set (d : Dict κ ν) (k x : κ) (v : ν) :
    (d.set k v).contains x = (decide (x = k) || d.contains x) := by
  unfold contains
  rw [get?_set]
  split
  · rename_i same
    simp [same]
  · rename_i differs
    simp [differs]

theorem contains_foldl_set {items : List (κ × ν)} {d : Dict κ ν} {x : κ} :
    (items.foldl (fun d item => d.set item.1 item.2) d).contains x = true ↔
      d.contains x = true ∨ x ∈ items.map Prod.fst := by
  induction items generalizing d with
  | nil => simp
  | cons item items ih =>
    rw [List.foldl_cons, ih, contains_set]
    simp only [Bool.or_eq_true, decide_eq_true_eq, List.map_cons, List.mem_cons]
    tauto

/-- A literal has exactly the keys that are written in it. -/
theorem contains_ofList {items : List (κ × ν)} {x : κ} :
    (ofList items).contains x = true ↔ x ∈ items.map Prod.fst := by
  rw [ofList, contains_foldl_set]
  simp [contains]

theorem assign_of_not_mem {k : κ} {v : ν} {es : List (κ × ν)}
    (absent : k ∉ es.map Prod.fst) : assign k v es = es ++ [(k, v)] := by
  induction es with
  | nil => rfl
  | cons e es ih =>
    rw [List.map_cons, List.mem_cons, not_or] at absent
    rw [assign, if_neg (Ne.symm absent.1), ih absent.2]
    rfl

theorem entries_foldl_set (items : List (κ × ν)) (d : Dict κ ν)
    (distinct : ((d.entries ++ items).map Prod.fst).Nodup) :
    (items.foldl (fun d item => d.set item.1 item.2) d).entries = d.entries ++ items := by
  induction items generalizing d with
  | nil => exact (List.append_nil _).symm
  | cons item items ih =>
    have absent : item.1 ∉ d.entries.map Prod.fst := by
      intro member
      rw [List.map_append, List.map_cons] at distinct
      exact (List.nodup_append.mp distinct).2.2 _ member _ List.mem_cons_self rfl
    have assigned : (d.set item.1 item.2).entries = d.entries ++ [item] :=
      assign_of_not_mem absent
    rw [List.foldl_cons, ih, assigned, List.append_assoc]
    · rfl
    · rw [assigned, List.append_assoc]
      exact distinct

/-- What is read of every item is the same, when an item is replaced by one that agrees. -/
theorem map_entries_set {β : Type} {d : Dict κ ν} {k : κ} {v w : ν} {f : κ × ν → β}
    (found : d.get? k = some v) (same : f (k, w) = f (k, v)) :
    (d.set k w).entries.map f = d.entries.map f := by
  show (assign k w d.entries).map f = _
  have here : d.entries.lookup k = some v := found
  generalize d.entries = es at here
  induction es with
  | nil => cases here
  | cons e es ih =>
    rw [lookup_entry_cons] at here
    simp only [assign]
    by_cases first : k = e.1
    · rw [if_pos first] at here
      rw [if_pos first.symm, List.map_cons, List.map_cons, same, ← Option.some.inj here, first]
    · rw [if_neg first] at here
      rw [if_neg (Ne.symm first), List.map_cons, List.map_cons, ih here]

/-- The items of a dictionary, written as a literal, are the dictionary. -/
theorem ofList_entries (d : Dict κ ν) : ofList d.entries = d :=
  eq_of_entries (entries_foldl_set d.entries empty d.nodup)

/-- `d | e`: the items of `e` are assigned to those of `d`. -/
def merge (d e : Dict κ ν) : Dict κ ν :=
  e.entries.foldl (fun d item => d.set item.1 item.2) d

theorem lookup_of_not_mem {x : κ} {es : List (κ × ν)} (absent : x ∉ es.map Prod.fst) :
    es.lookup x = none := by
  induction es with
  | nil => rfl
  | cons e es ih =>
    rw [List.map_cons, List.mem_cons, not_or] at absent
    rw [lookup_entry_cons, if_neg absent.1, ih absent.2]

theorem lookup_of_mem {e : κ × ν} {es : List (κ × ν)} (distinct : (es.map Prod.fst).Nodup)
    (member : e ∈ es) : es.lookup e.1 = some e.2 := by
  induction es with
  | nil => cases member
  | cons first es ih =>
    obtain ⟨absent, rest⟩ := List.nodup_cons.mp distinct
    rw [lookup_entry_cons]
    rcases List.mem_cons.mp member with rfl | later
    · rw [if_pos rfl]
    · have different : e.1 ≠ first.1 := fun same => absent (same ▸ List.mem_map_of_mem later)
      rw [if_neg different, ih rest later]

theorem get?_of_mem {d : Dict κ ν} {e : κ × ν} (member : e ∈ d.entries) :
    d.get? e.1 = some e.2 :=
  lookup_of_mem d.nodup member

theorem mem_of_get? {d : Dict κ ν} {k : κ} {v : ν} (found : d.get? k = some v) :
    (k, v) ∈ d.entries := by
  obtain ⟨front, back, listed, _⟩ := List.lookup_eq_some_iff.mp found
  rw [listed]
  exact List.mem_append_right _ List.mem_cons_self

theorem get?_foldl_set {items : List (κ × ν)} (distinct : (items.map Prod.fst).Nodup)
    {d : Dict κ ν} {x : κ} :
    (items.foldl (fun d item => d.set item.1 item.2) d).get? x =
      (items.lookup x).or (d.get? x) := by
  induction items generalizing d with
  | nil => rfl
  | cons item items ih =>
    obtain ⟨absent, rest⟩ := List.nodup_cons.mp distinct
    rw [List.foldl_cons, ih rest, get?_set, lookup_entry_cons]
    by_cases here : x = item.1
    · rw [if_pos here, if_pos here, lookup_of_not_mem (here ▸ absent)]
      rfl
    · rw [if_neg here, if_neg here]

theorem lookup_map_entry {β : Type} (f : κ → ν → β) {x : κ} {es : List (κ × ν)} :
    (es.map fun e => (e.1, f e.1 e.2)).lookup x = (es.lookup x).map (f x) := by
  induction es with
  | nil => rfl
  | cons e es ih =>
    rw [List.map_cons, lookup_entry_cons, lookup_entry_cons, ih]
    by_cases here : x = e.1
    · simp [here]
    · simp [here]

/-- The values may be changed by their keys. -/
theorem get?_ofList_map {β : Type} (d : Dict κ ν) (f : κ → ν → β) (x : κ) :
    (ofList (d.entries.map fun e => (e.1, f e.1 e.2))).get? x = (d.get? x).map (f x) := by
  have distinct : ((d.entries.map fun e => (e.1, f e.1 e.2)).map Prod.fst).Nodup := by
    rw [List.map_map]
    exact d.nodup
  rw [ofList, get?_foldl_set distinct, lookup_map_entry, get?_empty, Option.or_none]
  rfl

/-- Where both have the key, the second one wins. -/
theorem get?_merge (d e : Dict κ ν) (x : κ) :
    (d.merge e).get? x = (e.get? x).or (d.get? x) :=
  get?_foldl_set e.nodup

theorem contains_iff_mem_keys {d : Dict κ ν} {x : κ} : d.contains x = true ↔ x ∈ d.keys := by
  unfold contains get? keys
  rw [List.lookup_isSome_iff]
  simp

theorem contains_iff_get? {d : Dict κ ν} {x : κ} :
    d.contains x = true ↔ ∃ v, d.get? x = some v :=
  Option.isSome_iff_exists

/-- `d == e`, which does not look at the order. -/
def equals [DecidableEq ν] (d e : Dict κ ν) : Bool :=
  d.entries.length == e.entries.length && d.entries.all fun x => e.get? x.1 == some x.2

theorem entries_nodup {κ ν : Type} (d : Dict κ ν) : d.entries.Nodup := d.nodup.of_map Prod.fst

/-- Dictionaries are equal exactly if they hold the same under every key. -/
theorem equals_iff [DecidableEq ν] {d e : Dict κ ν} :
    d.equals e = true ↔ ∀ x, d.get? x = e.get? x := by
  unfold equals
  rw [Bool.and_eq_true, beq_iff_eq, List.all_eq_true]
  simp only [beq_iff_eq]
  constructor
  · rintro ⟨sameLength, found⟩ x
    have inside : d.entries ⊆ e.entries := fun item member => mem_of_get? (found item member)
    have perm : d.entries.Perm e.entries :=
      (d.entries_nodup.subperm inside).perm_of_length_le (Nat.le_of_eq sameLength.symm)
    apply Option.ext
    intro v
    constructor
    · intro here
      exact get?_of_mem (perm.mem_iff.mp (mem_of_get? here))
    · intro there
      exact get?_of_mem (perm.mem_iff.mpr (mem_of_get? there))
  · intro same
    have perm : d.entries.Perm e.entries := by
      rw [List.perm_ext_iff_of_nodup d.entries_nodup e.entries_nodup]
      rintro ⟨k, v⟩
      constructor
      · intro here
        exact mem_of_get? (same k ▸ get?_of_mem here)
      · intro there
        exact mem_of_get? ((same k).symm ▸ get?_of_mem there)
    refine ⟨perm.length_eq, fun item member => ?_⟩
    rw [← same item.1]
    exact get?_of_mem member

end Dict

end Col733

import Col733.Misc.Counter
import Mathlib.Data.List.Flatten

/-!
# `ray_mr.py`: counting the words of a corpus with map and reduce

The corpus is cut into partitions of the same length, every partition is mapped into one bucket
for each reducer, and the buckets with the same number are reduced to one dictionary. The
length of a partition is rounded down, and the words behind the last one are not counted. Of
Ray the model has what `.remote` returns: as many references as the task has results, as a
list unless there is only one.
-/

namespace Col733.Demos.RayMr

/-- A word of the corpus, as `bytes`. -/
abbrev Word := List UInt8

/-- `word.lower()`, which is about the ASCII letters. -/
def lower (word : Word) : Word := word.map fun b => if 65 ≤ b ∧ b ≤ 90 then b + 32 else b

/-- The whitespace of `bytes.split`. -/
def isSpace (b : UInt8) : Bool := b == 32 || (decide (9 ≤ b) && decide (b ≤ 13))

/-- `text.split()` -/
def split (text : Word) : List Word := (text.splitOnP isSpace).filter fun word => !word.isEmpty

/-- `word.decode("utf-8")`; `none` is a `UnicodeDecodeError`. -/
def decode (word : Word) : Option String := String.fromUTF8? ⟨word.toArray⟩

/-- `corpus[start:stop]` -/
def slice (corpus : List Word) (start stop : Nat) : List Word := (corpus.take stop).drop start

/-- `partitions` -/
def partitions (corpus : List Word) (numPartitions : Nat) : List (List Word) :=
  let chunk := corpus.length / numPartitions
  (List.range numPartitions).map fun i => slice corpus (i * chunk) ((i + 1) * chunk)

/-- `map_function` -/
def mapFunction (document : Word) : List (Word × Int) :=
  (split (lower document)).map fun word => (word, 1)

/-- The bucket of a word, by the code of its first letter. -/
def wordIndex (numPartitions : Nat) (word : Word) : Option Nat := do
  let text ← decode word
  let firstLetter ← text.toList.head?
  some (firstLetter.toNat % numPartitions)

/-- `apply_map`; `none` is an exception. -/
def applyMap (corpus : List Word) (numPartitions : Nat) : Option (List (List (Word × Int))) :=
  corpus.foldlM (fun mapResults document =>
    (mapFunction document).foldlM (fun mapResults result => do
      let index ← wordIndex numPartitions result.1
      some (mapResults.modify index fun bucket => bucket ++ [result])) mapResults)
    (List.replicate numPartitions [])

/-- `apply_reduce` -/
def applyReduce (results : List (List (Word × Int))) : Dict Word Int :=
  results.foldl (fun reduced res =>
    res.foldl (fun reduced item => reduced.add item.1 item.2) reduced) Dict.empty

/-- What `.remote` returns for a task with results: a list with a reference to each of them, or,
with `num_returns=1`, one reference to all that the task returns. -/
inductive Refs (α : Type) where
  | list (results : List α)
  | single (results : List α)

/-- `.options(num_returns=num_returns).remote(..)`, by what the task returns. -/
def remote {α : Type} (numReturns : Nat) (results : List α) : Refs α :=
  if numReturns = 1 then .single results else .list results

/-- `partition[i]`: a reference is not subscriptable. -/
def Refs.getItem {α : Type} (i : Nat) : Refs α → Option α
  | .list results => results[i]?
  | .single _ => none

/-- `counts`, for a corpus and a number of partitions; `none` when a task or the program itself
raises. -/
def counts (corpus : List Word) (numPartitions : Nat) : Option (Dict Word Int) := do
  let mapResults ← (partitions corpus numPartitions).mapM fun data =>
    (applyMap data numPartitions).map (remote numPartitions)
  let outputs ← (List.range numPartitions).mapM fun i => do
    let column ← mapResults.mapM fun partition => partition.getItem i
    some (applyReduce column)
  some (Dict.ofList (outputs.flatMap Dict.entries))

/-- A word of the corpus is not empty, and has no whitespace. -/
def IsWord (word : Word) : Prop := word ≠ [] ∧ ∀ b ∈ word, isSpace b = false

section Words

variable {word : Word} {n : Nat}

theorem isSpace_lower (b : UInt8) :
    isSpace (if 65 ≤ b ∧ b ≤ 90 then b + 32 else b) = isSpace b := by
  split
  · rename_i letter
    have low : 65 ≤ b.toNat := UInt8.le_iff_toNat_le.mp letter.1
    have high : b.toNat ≤ 90 := UInt8.le_iff_toNat_le.mp letter.2
    have shifted : (b + 32).toNat = b.toNat + 32 := by
      rw [UInt8.toNat_add]
      exact Nat.mod_eq_of_lt (show b.toNat + 32 < 256 by omega)
    have visible : ∀ c : UInt8, 32 < c.toNat → isSpace c = false := by
      intro c above
      have other : c ≠ 32 := by
        rintro rfl
        exact absurd above (by decide)
      have beyond : ¬ c ≤ 13 := by
        intro below
        have : c.toNat ≤ 13 := UInt8.le_iff_toNat_le.mp below
        omega
      simp [isSpace, other, beyond]
    rw [visible b (by omega), visible (b + 32) (by omega)]
  · rfl

/-- A word of the corpus is one word for `map_function`. -/
theorem mapFunction_of_isWord (isWord : IsWord word) : mapFunction word = [(lower word, 1)] := by
  obtain ⟨nonempty, visible⟩ := isWord
  have visible' : ∀ b ∈ lower word, isSpace b = false := by
    intro b member
    obtain ⟨c, inWord, rfl⟩ := List.mem_map.mp member
    rw [isSpace_lower]
    exact visible c inWord
  have kept : (!(lower word).isEmpty) = true := by
    simpa [lower] using nonempty
  rw [mapFunction, split, List.splitOnP_eq_singleton visible']
  simp only [List.filter_cons, kept, if_true, List.filter_nil, List.map_cons, List.map_nil]

/-- A word that can be decoded has a first letter. -/
theorem wordIndex_isSome (nonempty : word ≠ []) :
    (wordIndex n word).isSome = (decode word).isSome := by
  unfold wordIndex
  cases decoded : decode word with
  | none => rfl
  | some text =>
    have some_ : text.toList ≠ [] := by
      intro none_
      rw [String.toList_eq_nil_iff] at none_
      subst none_
      unfold decode String.fromUTF8? at decoded
      split at decoded
      · have bytes := congrArg String.toByteArray (Option.some.inj decoded)
        exact nonempty (congrArg (fun bytes : ByteArray => bytes.data.toList) bytes)
      · cases decoded
    obtain ⟨first, rest, cons⟩ := List.exists_cons_of_ne_nil some_
    rw [Option.bind_eq_bind, Option.bind_some, cons]
    rfl

end Words

/-! ## The stages -/

section Stages

variable {corpus words : List Word} {n : Nat}

/-- The words that go to one reducer. -/
def routed (n : Nat) (words : List Word) (i : Nat) : List Word :=
  words.filter fun word => wordIndex n word = some i

/-- The buckets of a mapper that has mapped these words. -/
def buckets (n : Nat) (words : List Word) : List (List (Word × Int)) :=
  (List.range n).map fun i => (routed n words i).map fun word => (word, 1)

/-- One more word goes to the end of its bucket. -/
theorem buckets_concat {word : Word} {index : Nat} (place : wordIndex n word = some index) :
    (buckets n words).modify index (fun bucket => bucket ++ [(word, 1)]) =
      buckets n (words ++ [word]) := by
  apply List.ext_getElem?
  intro i
  rw [List.getElem?_modify]
  by_cases bound : i < n
  · simp only [buckets, routed, List.getElem?_map, List.getElem?_range bound, Option.map_some,
      List.filter_append, List.map_append]
    by_cases here : index = i
    · simp [place, here]
    · simp [place, here]
  · have none_ : (List.range n)[i]? = none := by
      rw [List.getElem?_eq_none]
      rw [List.length_range]
      omega
    simp [buckets, none_]

/-- A mapper returns its buckets, unless it cannot decode a word. -/
theorem applyMap_eq_some_iff (areWords : ∀ word ∈ corpus, IsWord word)
    {mapResults : List (List (Word × Int))} :
    applyMap corpus n = some mapResults ↔
      (∀ word ∈ corpus, (decode (lower word)).isSome = true) ∧
        mapResults = buckets n (corpus.map lower) := by
  induction corpus using List.reverseRecOn generalizing mapResults with
  | nil =>
    have blank : buckets n [] = List.replicate n [] := by
      simp [buckets, routed, List.map_const']
    simp only [applyMap, List.foldlM_nil, List.map_nil, blank]
    exact ⟨fun same => ⟨List.forall_mem_nil _, (Option.some.inj same).symm⟩,
      fun same => congrArg some same.2.symm⟩
  | append_singleton corpus word ih =>
    obtain ⟨before, last⟩ := List.forall_mem_append.mp areWords
    have isWord := last word List.mem_cons_self
    have nonempty : lower word ≠ [] := fun none_ => isWord.1 (List.map_eq_nil_iff.mp none_)
    have turn : applyMap (corpus ++ [word]) n = (applyMap corpus n).bind fun results =>
        (wordIndex n (lower word)).bind fun index =>
          some (results.modify index fun bucket => bucket ++ [(lower word, 1)]) := by
      simp only [applyMap, List.foldlM_append, List.foldlM_cons, List.foldlM_nil,
        mapFunction_of_isWord isWord]
      simp
    rw [turn, Option.bind_eq_some_iff, List.forall_mem_append, List.forall_mem_singleton,
      ← wordIndex_isSome (n := n) nonempty, List.map_append]
    constructor
    · rintro ⟨results, mapped, placed⟩
      obtain ⟨valid, rfl⟩ := (ih before).mp mapped
      obtain ⟨index, place, same⟩ := Option.bind_eq_some_iff.mp placed
      rw [buckets_concat place] at same
      exact ⟨⟨valid, Option.isSome_iff_exists.mpr ⟨index, place⟩⟩, (Option.some.inj same).symm⟩
    · rintro ⟨⟨valid, decoded⟩, rfl⟩
      obtain ⟨index, place⟩ := Option.isSome_iff_exists.mp decoded
      refine ⟨_, (ih before).mpr ⟨valid, rfl⟩, ?_⟩
      rw [place]
      exact congrArg some (buckets_concat place)

/-- Tasks that return one value each, if a condition holds. -/
theorem mapM_eq_some_iff {α β : Type} {f : α → Option β} {P : α → Prop} {g : α → β}
    {xs : List α} {ys : List β} (spec : ∀ x ∈ xs, ∀ y, f x = some y ↔ P x ∧ y = g x) :
    xs.mapM f = some ys ↔ (∀ x ∈ xs, P x) ∧ ys = xs.map g := by
  induction xs generalizing ys with
  | nil =>
    rw [List.mapM_nil]
    exact ⟨fun same => ⟨List.forall_mem_nil _, (Option.some.inj same).symm⟩,
      fun same => congrArg some same.2.symm⟩
  | cons x xs ih =>
    obtain ⟨first, rest⟩ := List.forall_mem_cons.mp spec
    rw [List.mapM_cons, List.forall_mem_cons]
    constructor
    · intro returned
      obtain ⟨y, here, later⟩ := Option.bind_eq_some_iff.mp returned
      obtain ⟨ys', there, same⟩ := Option.bind_eq_some_iff.mp later
      obtain ⟨holds, rfl⟩ := (first y).mp here
      obtain ⟨hold, rfl⟩ := (ih rest).mp there
      exact ⟨⟨holds, hold⟩, (Option.some.inj same).symm⟩
    · rintro ⟨⟨holds, hold⟩, rfl⟩
      have here := (first (g x)).mpr ⟨holds, rfl⟩
      have there := (ih rest).mpr ⟨hold, rfl⟩
      rw [here, there]
      rfl

/-- A reducer counts the words of its column. -/
theorem applyReduce_eq (parts : List (List Word)) :
    applyReduce (parts.map fun words => words.map fun word => (word, 1)) =
      Dict.counter parts.flatten := by
  rw [applyReduce, Dict.counter, List.foldl_flatten, List.foldl_map]
  simp only [List.foldl_map]

/-- The partitions are the corpus up to the last one. -/
theorem flatten_slices (corpus : List Word) (chunk n : Nat) :
    ((List.range n).map fun i => slice corpus (i * chunk) ((i + 1) * chunk)).flatten =
      corpus.take (n * chunk) := by
  induction n with
  | zero => rw [Nat.zero_mul, List.take_zero]; rfl
  | succ n ih =>
    rw [List.range_succ, List.map_append, List.flatten_append, ih, List.map_singleton,
      List.flatten_singleton, slice, List.drop_take, Nat.succ_mul, Nat.add_sub_cancel_left,
      ← List.take_add]

/-- The words of the partitions. -/
def covered (corpus : List Word) (n : Nat) : List Word := corpus.take (n * (corpus.length / n))

/-- The output of the reducers up to the first `k`, put together. -/
def total (n : Nat) (words : List Word) (k : Nat) : Dict Word Int :=
  Dict.ofList (((List.range k).map fun i => Dict.counter (routed n words i)).flatMap Dict.entries)

/-- With one partition the program raises when it takes an item of the only reference. -/
theorem counts_one (corpus : List Word) : counts corpus 1 = none := by
  have parts : (partitions corpus 1).length = 1 := by
    rw [partitions, List.length_map, List.length_range]
  obtain ⟨data, single⟩ := List.length_eq_one_iff.mp parts
  simp only [counts, single, List.mapM_cons, List.mapM_nil]
  cases applyMap data 1 with
  | none => rfl
  | some results => rfl

/-- The column of a reducer: the bucket with its number of every mapper. -/
theorem column_eq (several : n ≠ 1) {i : Nat} (bound : i < n) (parts : List (List Word)) :
    (parts.map fun data => remote n (buckets n (data.map lower))).mapM
        (fun partition => partition.getItem i) =
      some ((parts.map fun data => routed n (data.map lower) i).map fun words =>
        words.map fun word => (word, 1)) := by
  have bucket : ∀ data, (remote n (buckets n data)).getItem i =
      some ((routed n data i).map fun word => (word, (1 : Int))) := by
    intro data
    rw [remote, if_neg several, Refs.getItem, buckets, List.getElem?_map,
      List.getElem?_range bound]
    rfl
  rw [List.mapM_map]
  refine (mapM_eq_some_iff (P := fun _ => True) fun data _ held => ?_).mpr
    ⟨fun _ _ => trivial, List.map_map⟩
  rw [Function.comp_apply, bucket, true_and, Option.some.injEq, eq_comm]
  rfl

/-- The program gets to its end exactly if there is more than one partition and all words of
the partitions can be decoded. -/
theorem counts_eq_some_iff (areWords : ∀ word ∈ corpus, IsWord word) {d : Dict Word Int} :
    counts corpus n = some d ↔
      n ≠ 1 ∧ (∀ word ∈ covered corpus n, (decode (lower word)).isSome = true) ∧
        d = total n ((covered corpus n).map lower) n := by
  by_cases several : n = 1
  · subst several
    rw [counts_one]
    constructor
    · intro returned
      cases returned
    · exact fun more => absurd rfl more.1
  have parts : (partitions corpus n).flatten = covered corpus n := flatten_slices corpus _ n
  have ofPart : ∀ data ∈ partitions corpus n, ∀ word ∈ data, word ∈ covered corpus n :=
    fun data member word inside => parts ▸ List.mem_flatten_of_mem member inside
  have mapped : ∀ mapResults : List (Refs (List (Word × Int))),
      ((partitions corpus n).mapM fun data => (applyMap data n).map (remote n)) =
          some mapResults ↔
        (∀ word ∈ covered corpus n, (decode (lower word)).isSome = true) ∧
          mapResults =
            (partitions corpus n).map fun data => remote n (buckets n (data.map lower)) := by
    intro mapResults
    have task : ∀ data ∈ partitions corpus n, ∀ refs,
        (applyMap data n).map (remote n) = some refs ↔
          (∀ word ∈ data, (decode (lower word)).isSome = true) ∧
            refs = remote n (buckets n (data.map lower)) := by
      intro data member refs
      have words : ∀ word ∈ data, IsWord word := fun word inside =>
        areWords word (List.mem_of_mem_take (ofPart data member word inside))
      rw [Option.map_eq_some_iff]
      constructor
      · rintro ⟨results, returned, rfl⟩
        obtain ⟨valid, rfl⟩ := (applyMap_eq_some_iff words).mp returned
        exact ⟨valid, rfl⟩
      · rintro ⟨valid, rfl⟩
        exact ⟨_, (applyMap_eq_some_iff words).mpr ⟨valid, rfl⟩, rfl⟩
    rw [mapM_eq_some_iff task, ← parts]
    simp only [List.mem_flatten]
    grind
  have reduced : ((List.range n).mapM fun i => do
      let column ← ((partitions corpus n).map fun data => remote n (buckets n (data.map lower))).mapM
        fun partition => partition.getItem i
      some (applyReduce column)) =
        some ((List.range n).map fun i =>
          Dict.counter (routed n ((covered corpus n).map lower) i)) := by
    refine (mapM_eq_some_iff (P := fun _ => True) fun i member output => ?_).mpr
      ⟨fun _ _ => trivial, rfl⟩
    rw [column_eq several (List.mem_range.mp member), Option.bind_eq_bind, Option.bind_some,
      applyReduce_eq, true_and, Option.some.injEq, eq_comm, ← parts, routed, List.map_flatten,
      List.filter_flatten]
    simp only [routed, List.map_map]
    rfl
  unfold counts
  rw [Option.bind_eq_bind, Option.bind_eq_some_iff]
  constructor
  · rintro ⟨mapResults, returned, rest⟩
    obtain ⟨valid, rfl⟩ := (mapped mapResults).mp returned
    rw [reduced] at rest
    exact ⟨several, valid, (Option.some.inj rest).symm⟩
  · rintro ⟨-, valid, rfl⟩
    refine ⟨_, (mapped _).mpr ⟨valid, rfl⟩, ?_⟩
    rw [reduced]
    rfl

/-- A word is counted by the reducer that it goes to, and by no other. -/
theorem get?_total (words : List Word) (k : Nat) (w : Word) :
    (total n words k).get? w =
      if (wordIndex n w).any (fun i => i < k) then (Dict.counter words).get? w else none := by
  induction k with
  | zero =>
    have nowhere : (wordIndex n w).any (fun i => i < 0) = false := by
      cases wordIndex n w <;> rfl
    rw [nowhere]
    rfl
  | succ k ih =>
    have next : total n words (k + 1) = (total n words k).merge (Dict.counter (routed n words k)) := by
      rw [total, List.range_succ, List.map_append, List.flatMap_append, List.map_singleton,
        List.flatMap_singleton, Dict.ofList, List.foldl_append]
      rfl
    rw [next, Dict.get?_merge, ih, routed, Dict.get?_counter_filter]
    cases place : wordIndex n w with
    | none => simp
    | some i =>
      by_cases here : i = k
      · simp [here]
      · have bound : i < k ↔ i < k + 1 := by omega
        simp [here, bound]

/-- All reducers together count the words of the partitions. -/
theorem get?_total_of_valid (pos : 1 ≤ n) (valid : ∀ w ∈ words, (wordIndex n w).isSome = true)
    (w : Word) : (total n words n).get? w = (Dict.counter words).get? w := by
  rw [get?_total]
  cases place : wordIndex n w with
  | none =>
    have absent : w ∉ words := by
      intro member
      have := valid w member
      rw [place] at this
      cases this
    rw [Dict.get?_counter_of_not_mem absent]
    rfl
  | some i =>
    have bound : i < n := by
      obtain ⟨_, _, chosen⟩ := Option.bind_eq_some_iff.mp place
      obtain ⟨_, _, same⟩ := Option.bind_eq_some_iff.mp chosen
      rw [← Option.some.inj same]
      exact Nat.mod_lt _ pos
    simp [bound]

end Stages

/-- The program counts every word of the corpus exactly if there are at least two partitions,
their number divides the length of the corpus, and all words are UTF-8. -/
theorem counts_whole_corpus_iff {corpus : List Word} {n : Nat} (pos : 1 ≤ n)
    (areWords : ∀ word ∈ corpus, IsWord word) :
    (∃ d, counts corpus n = some d ∧
      ∀ w, d.get? w = (Dict.counter (corpus.map lower)).get? w) ↔
    2 ≤ n ∧ n ∣ corpus.length ∧ ∀ word ∈ corpus, (decode (lower word)).isSome = true := by
  have placed : (∀ word ∈ covered corpus n, (decode (lower word)).isSome = true) →
      ∀ w ∈ (covered corpus n).map lower, (wordIndex n w).isSome = true := by
    intro valid w member
    obtain ⟨word, inside, rfl⟩ := List.mem_map.mp member
    have nonempty : lower word ≠ [] := fun none_ =>
      (areWords word (List.mem_of_mem_take inside)).1 (List.map_eq_nil_iff.mp none_)
    rw [wordIndex_isSome nonempty]
    exact valid word inside
  constructor
  · rintro ⟨d, returned, right⟩
    obtain ⟨several, valid, rfl⟩ := (counts_eq_some_iff areWords).mp returned
    -- a word behind the last partition would be counted once too little
    have whole : corpus.drop (n * (corpus.length / n)) = [] := by
      have uncounted : ∀ w, (Dict.counter ((covered corpus n).map lower)).get? w =
          (Dict.counter ((covered corpus n).map lower ++
            (corpus.drop (n * (corpus.length / n))).map lower)).get? w := by
        intro w
        rw [← List.map_append, covered, List.take_append_drop, ← right w]
        exact (get?_total_of_valid pos (placed valid) w).symm
      exact List.map_eq_nil_iff.mp (Dict.eq_nil_of_counter_append uncounted)
    have same : covered corpus n = corpus := by
      rw [covered, List.take_of_length_le (List.drop_eq_nil_iff.mp whole)]
    have length := List.drop_eq_nil_iff.mp whole
    have below := Nat.mul_div_le corpus.length n
    rw [same] at valid
    exact ⟨by omega, ⟨corpus.length / n, by omega⟩, valid⟩
  · rintro ⟨several, divides, valid⟩
    have same : covered corpus n = corpus := by
      rw [covered, Nat.mul_div_cancel' divides, List.take_length]
    rw [← same] at valid
    refine ⟨_, (counts_eq_some_iff areWords).mpr ⟨by omega, valid, rfl⟩, fun w => ?_⟩
    rw [get?_total_of_valid pos (placed valid), same]

/-- Three words, one of them twice, in three partitions. -/
theorem counts_whole_corpus_iff_three :
    ∃ d, counts [[98], [65], [97]] 3 = some d ∧
      ∀ w, d.get? w = (Dict.counter ([[98], [65], [97]].map lower)).get? w := by
  have areWords : ∀ word ∈ [[98], [65], [97]], IsWord word := by
    simp [IsWord, isSpace]
  exact (counts_whole_corpus_iff (Nat.le_add_left 1 2) areWords).mpr
    ⟨Nat.le_succ 2, Nat.dvd_refl 3, by decide +kernel⟩

theorem not_counts_whole_corpus :
    ¬ ∀ corpus n, 1 ≤ n → (∀ word ∈ corpus, IsWord word) → ∃ d, counts corpus n = some d ∧
      ∀ w, d.get? w = (Dict.counter (corpus.map lower)).get? w := by
  intro right
  have isWord : IsWord [97] := ⟨List.cons_ne_nil _ _, List.forall_mem_singleton.mpr rfl⟩
  obtain ⟨d, returned, same⟩ :=
    right [[97]] 3 (Nat.le_add_left 1 2) (List.forall_mem_singleton.mpr isWord)
  have none_ : counts [[97]] 3 = some Dict.empty := rfl
  cases none_.symm.trans returned
  have counted := same [97]
  revert counted
  decide

end Col733.Demos.RayMr

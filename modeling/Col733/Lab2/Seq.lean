import Col733.Lab2.Mapper
import Mathlib.Data.List.Flatten

/-!
# `seq.py`: the reference count

The sequential word count splits every row by itself, at any run of whitespace. The mapper
joins the rows with single spaces and splits at every single one of them, so that it finds
empty words where two spaces meet, and words with other whitespace inside.
-/

namespace Col733.Lab2

/-- `str.isspace` for one character. -/
def isSpace (c : Char) : Bool :=
  let n := c.toNat
  decide (9 ≤ n ∧ n ≤ 13) || decide (28 ≤ n ∧ n ≤ 32) || n == 133 || n == 160 || n == 5760 ||
    decide (8192 ≤ n ∧ n ≤ 8202) || n == 8232 || n == 8233 || n == 8239 || n == 8287 || n == 12288

/-- The characters of `text.split()`: no separator, so a run of whitespace is one, and there
are no empty words. -/
def fields (text : List Char) : List (List Char) :=
  (text.splitOnP isSpace).filter fun word => !word.isEmpty

/-- `text.split()`. -/
def split (text : String) : List String := (fields text.toList).map String.ofList

/-- `word_counts` after the rows of a file. -/
def seqCounts (rows : List String) : Dict String Int :=
  rows.foldl (fun counts text => (split text).foldl (fun d token => d.add token 1) counts)
    Dict.empty

/-- A word has at least one character, and no whitespace. -/
def IsWord (word : List Char) : Prop := word ≠ [] ∧ ∀ c ∈ word, isSpace c = false

instance (word : List Char) : Decidable (IsWord word) :=
  decidable_of_iff (word.isEmpty = false ∧ (word.all fun c => !isSpace c) = true)
    (by simp [IsWord])

/-- One or more words, with a single space between two of them. -/
def Plain (row : String) : Prop :=
  ∃ pieces, pieces ≠ [] ∧ (∀ piece ∈ pieces, IsWord piece) ∧
    row.toList = [' '].intercalate pieces

section Splitting

variable {text : List Char} {rows : List String}

/-- What `split()` finds are words. -/
theorem isWord_of_mem_fields {word : List Char} (member : word ∈ fields text) : IsWord word := by
  obtain ⟨piece, full⟩ := List.mem_filter.mp member
  have nonempty : word ≠ [] := by
    rintro rfl
    cases full
  refine ⟨nonempty, ?_⟩
  clear member full nonempty
  induction text generalizing word with
  | nil =>
    rw [List.splitOnP_nil, List.mem_singleton] at piece
    rw [piece]
    exact List.forall_mem_nil _
  | cons c text ih =>
    rw [List.splitOnP_cons_eq_if_modifyHead] at piece
    split at piece
    · rcases List.mem_cons.mp piece with rfl | later
      · exact List.forall_mem_nil _
      · exact ih later
    · rename_i visible
      obtain ⟨first, rest, cons⟩ := List.exists_cons_of_ne_nil (List.splitOnP_ne_nil isSpace text)
      rw [cons] at piece ih
      rcases List.mem_cons.mp piece with rfl | later
      · intro d member
        rcases List.mem_cons.mp member with rfl | inside
        · exact eq_false_of_ne_true visible
        · exact ih List.mem_cons_self d inside
      · exact ih (List.mem_cons_of_mem first later)

theorem IsWord.space_not_mem {piece : List Char} (isWord : IsWord piece) : ' ' ∉ piece := by
  intro inside
  cases isWord.2 ' ' inside

/-- Words that stand one space apart are split in the same way by both. -/
theorem fields_intercalate {pieces : List (List Char)} (words : ∀ piece ∈ pieces, IsWord piece) :
    fields ([' '].intercalate pieces) = pieces := by
  induction pieces with
  | nil => rfl
  | cons piece pieces ih =>
    obtain ⟨⟨nonempty, visible⟩, rest⟩ := List.forall_mem_cons.mp words
    have kept : (!piece.isEmpty) = true := by simpa using nonempty
    cases pieces with
    | nil =>
      rw [List.intercalate_singleton, fields, List.splitOnP_eq_singleton visible]
      simp only [List.filter_cons, kept, if_true, List.filter_nil]
    | cons next pieces =>
      rw [List.intercalate_cons_cons, List.append_assoc, List.singleton_append, fields,
        List.splitOnP_append_cons_of_forall_mem visible ' ' rfl]
      simp only [List.filter_cons, kept, if_true]
      exact congrArg _ (ih rest)

/-- The mapper's words, row by row. -/
theorem splitOn_intercalate_rows {texts : List (List Char)} (some_ : texts ≠ []) :
    ([' '].intercalate texts).splitOn ' ' = texts.flatMap fun text => text.splitOn ' ' := by
  induction texts with
  | nil => exact absurd rfl some_
  | cons text texts ih =>
    cases texts with
    | nil => rw [List.intercalate_singleton, List.flatMap_singleton]
    | cons next texts =>
      rw [List.intercalate_cons_cons, List.append_assoc, List.singleton_append,
        List.splitOn_append_cons_self, ih (List.cons_ne_nil next texts)]
      rfl

/-- A row is plain exactly if the pieces between its single spaces are words. -/
theorem plain_iff (row : String) :
    Plain row ↔ ∀ piece ∈ row.toList.splitOn ' ', IsWord piece := by
  constructor
  · rintro ⟨pieces, some_, words, text⟩
    have apart : ∀ piece ∈ pieces, ' ' ∉ piece := fun piece member =>
      (words piece member).space_not_mem
    rw [text, List.splitOn_intercalate ' ' apart some_]
    exact words
  · intro words
    exact ⟨_, List.splitOn_ne_nil ' ' row.toList, words, (List.intercalate_splitOn ' ').symm⟩

theorem splitOn_of_plain {row : String} (plain : Plain row) :
    row.toList.splitOn ' ' = fields row.toList := by
  obtain ⟨pieces, some_, words, text⟩ := plain
  have apart : ∀ piece ∈ pieces, ' ' ∉ piece := fun piece member =>
    (words piece member).space_not_mem
  rw [text, List.splitOn_intercalate ' ' apart some_, fields_intercalate words]

theorem words_eq (some_ : rows ≠ []) :
    words rows = rows.flatMap fun row => (row.toList.splitOn ' ').map String.ofList := by
  have texts : rows.map String.toList ≠ [] := fun none => some_ (List.map_eq_nil_iff.mp none)
  rw [words, splitOn_intercalate_rows texts, List.flatMap_map, List.map_flatMap]

/-- The reference count, as the counter of all words of the rows. -/
theorem seqCounts_eq (rows : List String) : seqCounts rows = Dict.counter (rows.flatMap split) := by
  rw [seqCounts, Dict.counter, List.foldl_flatMap]

end Splitting

/-- The mapper and the reference count the same words of a file exactly if it has a row, and all
its rows are plain. -/
theorem counts_agree_iff (rows : List String) :
    (∀ w, (Dict.counter (words rows)).get? w = (seqCounts rows).get? w) ↔
      rows ≠ [] ∧ ∀ row ∈ rows, Plain row := by
  rw [seqCounts_eq]
  constructor
  · intro agree
    -- every word of the mapper is one that `split()` finds
    have found : ∀ w ∈ words rows, w ∈ rows.flatMap split := by
      intro w member
      have same := agree w
      have counted : (words rows).count w ≠ 0 := (List.count_pos_iff.mpr member).ne'
      rw [Dict.get?_counter, Dict.get?_counter, if_neg counted] at same
      by_contra absent
      rw [if_pos (List.count_eq_zero.mpr absent)] at same
      cases same
    have some_ : rows ≠ [] := by
      rintro rfl
      exact List.not_mem_nil (found "" (by decide))
    refine ⟨some_, fun row inside => (plain_iff row).mpr fun piece member => ?_⟩
    have token : String.ofList piece ∈ words rows := by
      rw [words_eq some_]
      exact List.mem_flatMap.mpr ⟨row, inside, List.mem_map_of_mem member⟩
    obtain ⟨row', _, there⟩ := List.mem_flatMap.mp (found _ token)
    obtain ⟨word, isField, same⟩ := List.mem_map.mp there
    rw [← String.ofList_injective same]
    exact isWord_of_mem_fields isField
  · rintro ⟨some_, plain⟩ w
    have same : words rows = rows.flatMap split := by
      rw [words_eq some_]
      apply List.flatMap_congr
      intro row member
      rw [splitOn_of_plain (plain row member), split]
    rw [same]

/-- Two spaces between two words: the mapper counts an empty word as well. -/
theorem not_counts_agree :
    ¬ ∀ rows w, (Dict.counter (words rows)).get? w = (seqCounts rows).get? w := by
  intro agree
  have same := agree ["a  b"] ""
  revert same
  decide

end Col733.Lab2

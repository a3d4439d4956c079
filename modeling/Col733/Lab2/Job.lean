import Col733.Lab2.Progress
import Col733.Lab2.Seq

/-!
# The whole job: `main.py`, the checkpoints, `seq.py` and `checker.py`

`main.py` adds every file of the folder to the stream of a mapper. `checker.py` compares what
the reducers have written in checkpoint 0 with what `seq.py` has counted in the same folder.
`checkpoint` is there, and the handlers of the markers that are to call it are left to the
reader of the repository; so it is a premise that checkpoint 0 has been written when all words
were counted. Mappers and `seq.py` read the column `text` of a file as the same strings.
-/

namespace Col733.Lab2

open scoped BigOperators

/-- A file of the folder `csv_files`: its name and its column `text`. -/
structure CsvFile where
  name : String
  rows : List String
  deriving DecidableEq

namespace CsvFile

/-- `filename.endswith('.csv')`. -/
def isCsv (file : CsvFile) : Bool := ".csv".toList.isSuffixOf file.name.toList

/-- The file is one of `glob.glob("csv_files/*.csv")`, which does not list hidden files. -/
def isGlobbed (file : CsvFile) : Bool := file.isCsv && !".".toList.isPrefixOf file.name.toList

/-- What the mapper counts of a file. -/
def tokens (file : CsvFile) : List String := words file.rows

/-- What `seq.py` counts of it. -/
def seqTokens (file : CsvFile) : List String := file.rows.flatMap split

/-- The file has a row, and all its rows are words that stand one space apart. -/
def IsPlain (file : CsvFile) : Prop := file.rows ≠ [] ∧ ∀ row ∈ file.rows, Plain row

end CsvFile

/-! ## `main.py` -/

namespace Stream

/-- A stream to which nothing has been added. -/
def empty : Stream := ⟨[], List.Pairwise.nil, List.forall_mem_nil _⟩

/-- `xadd`, which raises unless the id is greater than that of the last entry. -/
def xadd (stream : Stream) (e : Entry) : Option Stream :=
  if above : 0 < e.id ∧ ∀ x ∈ stream.entries, x.id < e.id then
    some {
      entries := stream.entries ++ [e]
      increasing := by
        rw [List.map_append]
        refine List.pairwise_append.mpr ⟨stream.increasing, List.pairwise_singleton _ _, ?_⟩
        intro x before y last
        obtain ⟨other, member, rfl⟩ := List.mem_map.mp before
        rw [List.mem_singleton.mp last]
        exact above.2 other member
      positive := by
        intro x member
        rcases List.mem_append.mp member with before | last
        · exact stream.positive x before
        · exact List.mem_singleton.mp last ▸ above.1 }
  else none

end Stream

/-- The id `j-0`: its two parts, of 64 bits each, in one number. -/
def entryId (j : Nat) : Nat := j * 2 ^ 64

/-- The loop of `main.py`: `rds.add_file(STREAMS[j % NUM_MAPPERS], file, j)`. -/
def addFiles {m : Nat} [NeZero m] (streams : Fin m → Stream) (j : Nat) :
    List CsvFile → Option (Fin m → Stream)
  | [] => some streams
  | file :: files => do
    let i := Fin.ofNat m j
    let stream ← (streams i).xadd { id := entryId j, rows := file.rows }
    addFiles (Function.update streams i stream) (j + 1) files

/-- The streams for the files that `glob` has listed. -/
def main (m : Nat) [NeZero m] (files : List CsvFile) : Option (Fin m → Stream) :=
  addFiles (fun _ => Stream.empty) 1 files

/-! ## Checkpoints, `seq.py` and `checker.py` -/

/-- `json.dump` of a dictionary of counts. -/
def dumpCounts (json : JsonModule) (counts : Dict String Int) : List UInt8 :=
  json.dumps (counts.entries.map fun item => (item.1, Json.int item.2))

/-- The count under a key of a file. No other value than a whole number is ever written. -/
def countItem (item : String × Json) : Option (String × Int) :=
  match item.2 with
  | .int n => some (item.1, n)
  | _ => none

/-- `json.loads` of a file of counts. -/
def loadCounts (json : JsonModule) (text : List UInt8) : Option (Dict String Int) :=
  match json.loads text with
  | some (.obj items) => (items.mapM countItem).map Dict.ofList
  | _ => none

/-- The file of a checkpoint. -/
def checkpointFile (id : String) (checkpointId : Nat) : String :=
  "checkpoints/" ++ id ++ "_" ++ toString checkpointId ++ ".txt"

/-- `ReducerState.checkpoint`: the counts are written to a file of their own. -/
def ReducerState.checkpoint (json : JsonModule) (id : String) (state : ReducerState)
    (checkpointId : Nat) (disk : Dict String (List UInt8)) :
    ReducerState × Dict String (List UInt8) :=
  ({ state with lastCpId := checkpointId },
    disk.set (checkpointFile id checkpointId) (dumpCounts json state.wc))

/-- Both reducers have written their counts in checkpoint 0. -/
def Checkpointed {m : Nat} (json : JsonModule) (s : State m) (disk : Dict String (List UInt8)) :
    Prop :=
  ∀ r, disk.get? (checkpointFile (reducerId r) 0) = some (dumpCounts json (s.reducers r).state.wc)

/-- `checkpoint(0)` of one reducer after the other. -/
def writeCheckpoints {m : Nat} (json : JsonModule) (s : State m)
    (disk : Dict String (List UInt8)) : Dict String (List UInt8) :=
  [(⟨0, Nat.zero_lt_two⟩ : Fin 2), ⟨1, Nat.one_lt_two⟩].foldl
    (fun disk r => ((s.reducers r).state.checkpoint json (reducerId r) 0 disk).2) disk

/-- `word_counts` of `seq.py`, for the files of the folder in the order of `os.listdir`. -/
def seq (folder : List CsvFile) : Dict String Int :=
  (folder.filter CsvFile.isCsv).foldl
    (fun counts file => file.rows.foldl
      (fun counts text => (split text).foldl (fun d token => d.add token 1) counts) counts)
    Dict.empty

/-- `checker.py`: what it prints, `none` when it raises. -/
def checker (json : JsonModule) (disk : Dict String (List UInt8)) : Option String := do
  let r1 ← (disk.get? "checkpoints/Reducer_0_0.txt").bind (loadCounts json)
  let r2 ← (disk.get? "checkpoints/Reducer_1_0.txt").bind (loadCounts json)
  let correct ← (disk.get? "seq.txt").bind (loadCounts json)
  return if (r1.merge r2).equals correct then "CORRECT" else "INCORRECT"

/-- `seq.py` writes its counts, and `checker.py` is run. -/
def check (json : JsonModule) (folder : List CsvFile) (disk : Dict String (List UInt8)) :
    Option String :=
  checker json (disk.set "seq.txt" (dumpCounts json (seq folder)))

/-! ## What is added to the streams -/

section Main

variable {m : Nat} [NeZero m] {streams streams' : Fin m → Stream} {j : Nat}
  {files : List CsvFile}

theorem xadd_of_below {stream : Stream} {e : Entry} (positive : 0 < e.id)
    (below : ∀ x ∈ stream.entries, x.id < e.id) :
    ∃ stream', stream.xadd e = some stream' ∧ stream'.entries = stream.entries ++ [e] := by
  unfold Stream.xadd
  rw [dif_pos ⟨positive, below⟩]
  exact ⟨_, rfl, rfl⟩

theorem entryId_lt_succ (j : Nat) : entryId j < entryId (j + 1) :=
  Nat.mul_lt_mul_of_pos_right (Nat.lt_succ_self j) (Nat.two_pow_pos 64)

/-- All files are added, as their numbers grow, and each stands in one stream. -/
theorem exists_addFiles (streams : Fin m → Stream) (files : List CsvFile) (positive : 0 < j)
    (below : ∀ i, ∀ x ∈ (streams i).entries, x.id < entryId j) :
    ∃ streams', addFiles streams j files = some streams' ∧
      (∀ w, ∑ i, (streams' i).occurrences w =
        ∑ i, (streams i).occurrences w + (files.flatMap CsvFile.tokens).count w) ∧
      ∀ i, ∀ e ∈ (streams' i).entries, e ∈ (streams i).entries ∨
        ∃ file ∈ files, e.rows = file.rows := by
  induction files generalizing streams j with
  | nil => exact ⟨streams, rfl, fun _ => rfl, fun _ e member => .inl member⟩
  | cons file files ih =>
    obtain ⟨stream, added, entries⟩ := xadd_of_below
      (e := { id := entryId j, rows := file.rows }) (Nat.mul_pos positive (Nat.two_pow_pos 64))
      (below (Fin.ofNat m j))
    have below' : ∀ i, ∀ x ∈ (Function.update streams (Fin.ofNat m j) stream i).entries,
        x.id < entryId (j + 1) := by
      apply System.holds_update (P := fun _ (stream : Stream) =>
        ∀ x ∈ stream.entries, x.id < entryId (j + 1))
      · intro i x member
        exact Nat.lt_trans (below i x member) (entryId_lt_succ j)
      · intro x member
        rw [entries] at member
        rcases List.mem_append.mp member with before | last
        · exact Nat.lt_trans (below _ x before) (entryId_lt_succ j)
        · rw [List.mem_singleton.mp last]
          exact entryId_lt_succ j
    obtain ⟨streams', rest, occurrences, origin⟩ := ih _ (Nat.succ_pos j) below'
    refine ⟨streams', ?_, fun w => ?_, fun i e member => ?_⟩
    · simp only [addFiles, added]
      exact rest
    · have total := natSum_update (fun _ (stream : Stream) => stream.occurrences w) streams
        (Fin.ofNat m j) stream
      have here : stream.occurrences w =
          (streams (Fin.ofNat m j)).occurrences w + file.tokens.count w := by
        unfold Stream.occurrences
        rw [entries, List.map_append, List.sum_append]
        rfl
      rw [occurrences w, List.flatMap_cons, List.count_append]
      omega
    · rcases origin i e member with before | ⟨other, later, same⟩
      · by_cases here : i = Fin.ofNat m j
        · subst here
          rw [Function.update_self, entries] at before
          rcases List.mem_append.mp before with old | last
          · exact .inl old
          · exact .inr ⟨file, List.mem_cons_self, congrArg Entry.rows (List.mem_singleton.mp last)⟩
        · rw [Function.update_of_ne here] at before
          exact .inl before
      · exact .inr ⟨other, List.mem_cons_of_mem _ later, same⟩

/-- `main.py` adds every file; the streams have exactly the words of the files. -/
theorem exists_main (m : Nat) [NeZero m] (files : List CsvFile) :
    ∃ streams, main m files = some streams ∧
      (∀ w, ∑ i, (streams i).occurrences w = (files.flatMap CsvFile.tokens).count w) ∧
      ∀ i, ∀ e ∈ (streams i).entries, ∃ file ∈ files, e.rows = file.rows := by
  obtain ⟨streams, added, occurrences, origin⟩ := exists_addFiles
    (fun _ : Fin m => Stream.empty) files Nat.one_pos
    (fun _ x member => absurd member List.not_mem_nil)
  refine ⟨streams, added, fun w => ?_, fun i e member => ?_⟩
  · have none : ∑ i : Fin m, Stream.empty.occurrences w = 0 := Finset.sum_eq_zero fun _ _ => rfl
    rw [occurrences w, none, Nat.zero_add]
  · rcases origin i e member with nothing | found
    · exact absurd nothing List.not_mem_nil
    · exact found

theorem main_spec (added : main m files = some streams) :
    (∀ w, ∑ i, (streams i).occurrences w = (files.flatMap CsvFile.tokens).count w) ∧
      ∀ i, ∀ e ∈ (streams i).entries, ∃ file ∈ files, e.rows = file.rows := by
  obtain ⟨others, same, spec⟩ := exists_main m files
  rw [added] at same
  cases same
  exact spec

end Main

/-! ## What is compared -/

section Check

variable {m : Nat} {json : JsonModule} {folder globbed : List CsvFile} {file : CsvFile}

theorem mapM_countItem (items : List (String × Int)) :
    (items.map fun item => (item.1, Json.int item.2)).mapM countItem = some items := by
  induction items with
  | nil => rfl
  | cons item items ih =>
    rw [List.map_cons, List.mapM_cons, ih]
    rfl

/-- Counts are read back as they were written. -/
theorem loadCounts_dumpCounts (counts : Dict String Int) :
    loadCounts json (dumpCounts json counts) = some counts := by
  have distinct : ((counts.entries.map fun item => (item.1, Json.int item.2)).map Prod.fst).Nodup := by
    rw [List.map_map]
    exact counts.nodup
  unfold loadCounts dumpCounts
  rw [json.loads_dumps _ distinct]
  dsimp only
  rw [mapM_countItem, Option.map_some, Dict.ofList_entries]

theorem checkpointFile_reducers :
    checkpointFile (reducerId ⟨0, Nat.zero_lt_two⟩) 0 = "checkpoints/Reducer_0_0.txt" ∧
      checkpointFile (reducerId ⟨1, Nat.one_lt_two⟩) 0 = "checkpoints/Reducer_1_0.txt" := by
  decide

/-- The two files are there when both reducers have called `checkpoint`. -/
theorem checkpointed_writeCheckpoints (s : State m) (disk : Dict String (List UInt8)) :
    Checkpointed json s (writeCheckpoints json s disk) := by
  have differ : checkpointFile (reducerId ⟨0, Nat.zero_lt_two⟩) 0 ≠
      checkpointFile (reducerId ⟨1, Nat.one_lt_two⟩) 0 := by decide
  intro r
  obtain rfl | rfl : r = ⟨0, Nat.zero_lt_two⟩ ∨ r = ⟨1, Nat.one_lt_two⟩ := by
    rcases r with ⟨r, below⟩
    rcases (by omega : r = 0 ∨ r = 1) with rfl | rfl
    · exact .inl rfl
    · exact .inr rfl
  · exact (Dict.get?_set_of_ne _ differ _).trans (Dict.get?_set_self _ _ _)
  · exact Dict.get?_set_self _ _ _

/-- `checker.py` compares the merged dictionary with that of `seq.py`. -/
theorem check_eq (folder : List CsvFile) {s : State m} {disk : Dict String (List UInt8)}
    (written : Checkpointed json s disk) :
    check json folder disk =
      some (if s.merged.equals (seq folder) then "CORRECT" else "INCORRECT") := by
  have zero := written ⟨0, Nat.zero_lt_two⟩
  have one := written ⟨1, Nat.one_lt_two⟩
  rw [checkpointFile_reducers.1] at zero
  rw [checkpointFile_reducers.2] at one
  have notSeq : "checkpoints/Reducer_0_0.txt" ≠ "seq.txt" ∧
      "checkpoints/Reducer_1_0.txt" ≠ "seq.txt" := by decide
  simp only [check, checker, Dict.get?_set_self, Dict.get?_set_of_ne _ notSeq.1,
    Dict.get?_set_of_ne _ notSeq.2, zero, one, Option.bind_eq_bind, Option.bind_some,
    loadCounts_dumpCounts]
  rfl

/-- `seq.py` counts the words of all files that end in `.csv`. -/
theorem seq_eq (folder : List CsvFile) :
    seq folder = Dict.counter ((folder.filter CsvFile.isCsv).flatMap CsvFile.seqTokens) := by
  unfold seq Dict.counter CsvFile.seqTokens
  rw [List.foldl_flatMap]
  simp only [List.foldl_flatMap]

/-- Both find the same words in a plain file. -/
theorem CsvFile.IsPlain.tokens_eq (plain : file.IsPlain) : file.tokens = file.seqTokens := by
  unfold CsvFile.tokens CsvFile.seqTokens
  rw [words_eq plain.1]
  apply List.flatMap_congr
  intro row member
  rw [splitOn_of_plain (plain.2 row member), split]

/-- A file in which the mapper finds only words is plain. -/
theorem CsvFile.isPlain_of_tokens (isWord : ∀ w ∈ file.tokens, IsWord w.toList) :
    file.IsPlain := by
  have some_ : file.rows ≠ [] := by
    intro none
    have empty : "" ∈ file.tokens := by
      unfold CsvFile.tokens
      rw [none]
      decide
    exact (isWord "" empty).1 rfl
  refine ⟨some_, fun row inside => (plain_iff row).mpr fun piece member => ?_⟩
  have token : String.ofList piece ∈ file.tokens := by
    unfold CsvFile.tokens
    rw [words_eq some_]
    exact List.mem_flatMap.mpr ⟨row, inside, List.mem_map_of_mem member⟩
  have found := isWord _ token
  rwa [String.toList_ofList] at found

theorem isWord_of_mem_seqTokens {w : String} (member : w ∈ file.seqTokens) : IsWord w.toList := by
  obtain ⟨row, _, here⟩ := List.mem_flatMap.mp member
  obtain ⟨word, isField, rfl⟩ := List.mem_map.mp here
  rw [String.toList_ofList]
  exact isWord_of_mem_fields isField

/-- The files that `seq.py` counts and `main.py` does not list. -/
def hidden (folder : List CsvFile) : List CsvFile :=
  folder.filter fun file => file.isCsv && !file.isGlobbed

/-- What `seq.py` counts are the listed files and the hidden ones. -/
theorem count_csv (listed : globbed.Perm (folder.filter CsvFile.isGlobbed)) (w : String) :
    ((folder.filter CsvFile.isCsv).flatMap CsvFile.seqTokens).count w =
      (globbed.flatMap CsvFile.seqTokens).count w +
        ((hidden folder).flatMap CsvFile.seqTokens).count w := by
  have both : (folder.filter CsvFile.isCsv).Perm (globbed ++ hidden folder) := by
    have parts := List.filter_append_perm CsvFile.isGlobbed (folder.filter CsvFile.isCsv)
    rw [List.filter_filter, List.filter_filter] at parts
    have first : (folder.filter fun file => file.isGlobbed && file.isCsv) =
        folder.filter CsvFile.isGlobbed := by
      apply List.filter_congr
      intro file _
      unfold CsvFile.isGlobbed
      cases file.isCsv <;> simp
    have second : (folder.filter fun file => !file.isGlobbed && file.isCsv) = hidden folder := by
      apply List.filter_congr
      intro file _
      rw [Bool.and_comm]
    rw [first, second] at parts
    exact parts.symm.trans (listed.symm.append_right _)
  rw [(both.flatMap_right CsvFile.seqTokens).count_eq, List.flatMap_append, List.count_append]

/-- The mappers count in the listed files what `seq.py` counts in all of them exactly if the
listed ones are plain, and the others have no words. -/
theorem counts_agree (listed : globbed.Perm (folder.filter CsvFile.isGlobbed)) :
    (∀ w, (globbed.flatMap CsvFile.tokens).count w =
      ((folder.filter CsvFile.isCsv).flatMap CsvFile.seqTokens).count w) ↔
    (∀ file ∈ globbed, file.IsPlain) ∧ ∀ file ∈ hidden folder, file.seqTokens = [] := by
  simp only [count_csv listed]
  have same (plain : ∀ file ∈ globbed, file.IsPlain) :
      globbed.flatMap CsvFile.tokens = globbed.flatMap CsvFile.seqTokens :=
    List.flatMap_congr fun file member => (plain file member).tokens_eq
  constructor
  · intro agree
    have plain : ∀ file ∈ globbed, file.IsPlain := by
      intro file inside
      apply CsvFile.isPlain_of_tokens
      intro w member
      -- a word of the mapper is one that `split()` has found in some file
      have counted := List.count_pos_iff.mpr (List.mem_flatMap.mpr ⟨file, inside, member⟩)
      rw [agree w, ← List.count_append] at counted
      rcases List.mem_append.mp (List.count_pos_iff.mp counted) with found | found
      all_goals
        obtain ⟨other, _, there⟩ := List.mem_flatMap.mp found
        exact isWord_of_mem_seqTokens there
    refine ⟨plain, fun file inside => List.eq_nil_iff_forall_not_mem.mpr fun w member => ?_⟩
    have equal := agree w
    rw [same plain] at equal
    have counted := List.count_pos_iff.mpr (List.mem_flatMap.mpr ⟨file, inside, member⟩)
    omega
  · rintro ⟨plain, blank⟩ w
    have none : (hidden folder).flatMap CsvFile.seqTokens = [] :=
      List.flatMap_eq_nil_iff.mpr blank
    rw [same plain, none, List.count_nil, Nat.add_zero]

end Check

section Quiet

variable {m : Nat} {json : JsonModule} {streams : Fin m → Stream} {as : List (Action m)}
  {s : State m} {folder globbed : List CsvFile}

/-- When everything is drained, the merged dictionary has the words of the streams. -/
theorem merged_of_quiet (short : Short json streams) (run : (system json streams).Run as s)
    (quiet : s.Quiet) (w : String) :
    s.merged.get? w = if ∑ i, (streams i).occurrences w = 0 then none
      else some ((∑ i, (streams i).occurrences w : Nat) : Int) := by
  obtain ⟨t, refines⟩ := (sound_run short run).refines
  have state (r : Fin 2) : (s.reducers r).state = _ := refines.state r
  rw [State.merged, state, state]
  exact Words.get?_merge_of_quiet refines.inv (quiet_words refines quiet) w

/-- What `checker.py` prints depends on the files alone. -/
theorem check_of_quiet (short : Short json streams) (run : (system json streams).Run as s)
    (quiet : s.Quiet) (listed : globbed.Perm (folder.filter CsvFile.isGlobbed))
    (occurrences : ∀ w, ∑ i, (streams i).occurrences w = (globbed.flatMap CsvFile.tokens).count w) :
    s.merged.equals (seq folder) = true ↔
      (∀ file ∈ globbed, file.IsPlain) ∧ ∀ file ∈ hidden folder, file.seqTokens = [] := by
  rw [Dict.equals_iff, ← counts_agree listed]
  simp only [merged_of_quiet short run quiet, occurrences, seq_eq, Dict.get?_counter]
  constructor
  · intro agree w
    have same := agree w
    split at same
    all_goals split at same
    · omega
    · cases same
    · cases same
    · exact Int.ofNat_inj.mp (Option.some.inj same)
  · intro agree w
    rw [agree w]

end Quiet

/-- `main.py` adds every file that is listed. Whenever everything is done and drained and the
reducers have written their checkpoints, `checker.py` prints `CORRECT` exactly if all files that
were listed are plain and no hidden one has a word; otherwise it prints `INCORRECT`. -/
theorem checker_correct_iff (json : JsonModule) (m : Nat) [NeZero m] {folder globbed : List CsvFile}
    (listed : globbed.Perm (folder.filter CsvFile.isGlobbed)) :
    ∃ streams : Fin m → Stream, main m globbed = some streams ∧ (Short json streams →
      ∀ as s, (system json streams).Run as s → s.Quiet → ∀ disk, Checkpointed json s disk →
        (check json folder disk = some "CORRECT" ↔
          (∀ file ∈ globbed, file.IsPlain) ∧ ∀ file ∈ hidden folder, file.seqTokens = []) ∧
        (check json folder disk = some "INCORRECT" ↔
          ¬ ((∀ file ∈ globbed, file.IsPlain) ∧ ∀ file ∈ hidden folder, file.seqTokens = []))) := by
  obtain ⟨streams, added, occurrences, _⟩ := exists_main m globbed
  refine ⟨streams, added, fun short as s run quiet disk written => ?_⟩
  have differ : "INCORRECT" ≠ "CORRECT" := by decide
  rw [← check_of_quiet short run quiet listed occurrences, check_eq folder written]
  cases s.merged.equals (seq folder) with
  | true => simp [differ.symm]
  | false => simp [differ]

/-- Two files for two mappers, listed in another order than in the folder, and a hidden one
without a word. -/
theorem checker_correct_iff_two :
    ∃ (streams : Fin 2 → Stream) (as : List (Action 2)) (s : State 2),
      main 2 [⟨"b.csv", ["song"]⟩, ⟨"a.csv", ["cloud song"]⟩] = some streams ∧
      (system Json.objectModule streams).Run as s ∧ ∀ disk,
        check Json.objectModule
          [⟨"a.csv", ["cloud song"]⟩, ⟨".c.csv", [" "]⟩, ⟨"b.csv", ["song"]⟩]
          (writeCheckpoints Json.objectModule s disk) = some "CORRECT" := by
  have listed : [⟨"b.csv", ["song"]⟩, ⟨"a.csv", ["cloud song"]⟩].Perm
      ([⟨"a.csv", ["cloud song"]⟩, ⟨".c.csv", [" "]⟩, ⟨"b.csv", ["song"]⟩].filter
        CsvFile.isGlobbed) := by decide +kernel
  obtain ⟨streams, added, outcome⟩ := checker_correct_iff Json.objectModule 2 listed
  have fits : ∀ i : Fin 2, ∀ file ∈ [⟨"b.csv", ["song"]⟩, ⟨"a.csv", ["cloud song"]⟩],
      ∀ item ∈ (Dict.counter (CsvFile.tokens file)).entries,
        WordCount.Fits Json.objectModule (mapperId i) (wordCount item) ∧
          word2Socket item.1 ≠ none := by decide +kernel
  have short : Short Json.objectModule streams := by
    intro i e member item counted
    obtain ⟨file, inside, same⟩ := (main_spec added).2 i e member
    rw [Entry.counts, same] at counted
    exact (fits i file inside item counted).1
  have routable : Routable streams := by
    intro i e member item counted
    obtain ⟨file, inside, same⟩ := (main_spec added).2 i e member
    rw [Entry.counts, same] at counted
    exact (fits i file inside item counted).2
  obtain ⟨as, s, run, quiet⟩ := exists_quiet short routable (System.run_nil _)
  refine ⟨streams, _, s, added, run, fun disk => ?_⟩
  rw [(outcome short _ s run quiet _ (checkpointed_writeCheckpoints s disk)).1]
  constructor
  · intro file member
    apply CsvFile.isPlain_of_tokens
    revert file
    decide +kernel
  · decide +kernel

end Col733.Lab2

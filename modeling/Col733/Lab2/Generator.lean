import Col733.Lab2.Job

/-!
# `generator.py`: files on which the job is right

The generator writes sentences of random words, one space apart. Whatever it chooses, the two
counts agree on its files, so that the job ends with `CORRECT`.
-/

namespace Col733.Lab2

/-- `word_list` of `generate_csv_files`. -/
def wordList : List String :=
  ["the", "quick", "brown", "fox", "jumps", "over", "lazy", "dog",
   "hello", "world", "python", "code", "generate", "csv", "file",
   "random", "sentence", "data", "test", "example", "text", "string",
   "physics", "machine", "working", "macbook", "cloud", "system",
   "logic", "chandy", "lamport", "teams", "master", "architect",
   "destination", "song"]

/-- `generate_random_sentence`, where `choice k` is the place of the word that `random.choice`
returns for the `k`-th time. -/
def generateRandomSentence (choice : Nat → Fin wordList.length) (numWords : Nat) : String :=
  String.ofList ([' '].intercalate
    ((List.range numWords).map fun k => (wordList.get (choice k)).toList))

/-- `generate_csv_files`: the files that are written to the folder. -/
def generateCsvFiles (choice : Nat → Nat → Nat → Fin wordList.length)
    (n fileSizeMb numWordsPerRow : Nat) : List CsvFile :=
  let rowsPerFile := fileSizeMb * 1024
  (List.range n).map fun i =>
    { name := "file_" ++ toString (i + 1) ++ ".csv"
      rows := (List.range rowsPerFile).map fun row =>
        generateRandomSentence (choice i row) numWordsPerRow }

section Generated

variable {m : Nat} {choice : Nat → Nat → Nat → Fin wordList.length}
  {n fileSizeMb numWordsPerRow : Nat} {file : CsvFile}

theorem isWord_wordList (place : Fin wordList.length) : IsWord (wordList.get place).toList := by
  have all : ∀ word ∈ wordList, IsWord word.toList := by decide +kernel
  exact all _ (List.get_mem wordList place)

theorem plain_sentence (choice : Nat → Fin wordList.length) {numWords : Nat}
    (some_ : 0 < numWords) : Plain (generateRandomSentence choice numWords) := by
  refine ⟨_, ?_, ?_, String.toList_ofList⟩
  · intro none
    have length := congrArg List.length none
    rw [List.length_map, List.length_range, List.length_nil] at length
    omega
  · intro piece member
    obtain ⟨k, _, rfl⟩ := List.mem_map.mp member
    exact isWord_wordList (choice k)

theorem isPlain_generated (size : 0 < fileSizeMb) (some_ : 0 < numWordsPerRow)
    (member : file ∈ generateCsvFiles choice n fileSizeMb numWordsPerRow) : file.IsPlain := by
  obtain ⟨i, _, rfl⟩ := List.mem_map.mp member
  constructor
  · intro none
    have length := congrArg List.length none
    rw [List.length_map, List.length_range, List.length_nil] at length
    omega
  · intro row inside
    obtain ⟨r, _, rfl⟩ := List.mem_map.mp inside
    exact plain_sentence (choice i r) some_

/-- All files of the generator are listed. -/
theorem isGlobbed_generated
    (member : file ∈ generateCsvFiles choice n fileSizeMb numWordsPerRow) :
    file.isGlobbed = true := by
  obtain ⟨i, _, rfl⟩ := List.mem_map.mp member
  have ends : ".csv".toList <:+ ("file_" ++ toString (i + 1) ++ ".csv").toList := by
    rw [String.toList_append]
    exact List.suffix_append _ _
  unfold CsvFile.isGlobbed CsvFile.isCsv
  rw [List.isSuffixOf_iff_suffix.mpr ends, String.toList_append, String.toList_append]
  rfl

/-- A word of a plain file has a socket. -/
theorem word2Socket_of_isPlain (plain : file.IsPlain) {w : String} (member : w ∈ file.tokens) :
    word2Socket w ≠ none := by
  rw [plain.tokens_eq] at member
  have isWord := isWord_of_mem_seqTokens member
  unfold word2Socket
  cases chars : w.toList with
  | nil => exact absurd chars isWord.1
  | cons c rest =>
    show (if c < 'm' then some 0 else some 1) ≠ none
    split <;> exact Option.some_ne_none _

/-- Streams of plain files can be read to the end. -/
theorem routable_of_isPlain [NeZero m] {files : List CsvFile} {streams : Fin m → Stream}
    (added : main m files = some streams) (plain : ∀ file ∈ files, file.IsPlain) :
    Routable streams := by
  intro i e member item counted
  obtain ⟨file, inside, same⟩ := (main_spec added).2 i e member
  apply word2Socket_of_isPlain (plain file inside)
  rw [Entry.counts, same] at counted
  by_contra absent
  have none := Dict.get?_counter_of_not_mem absent
  rw [show Dict.counter file.tokens = Dict.counter (words file.rows) from rfl,
    Dict.get?_of_mem counted] at none
  cases none

end Generated

/-- Whatever words the generator chooses, however many files, rows and words there are, but at
least one row and one word, in whatever order the files are listed and the program moves: as
long as its messages fit, the job takes at most as many steps as there is work, and when it can
go no further and the reducers have written checkpoint 0, `checker.py` prints `CORRECT`. -/
theorem generated_job_correct (json : JsonModule) (m : Nat) [NeZero m]
    (choice : Nat → Nat → Nat → Fin wordList.length) {n fileSizeMb numWordsPerRow : Nat}
    (size : 0 < fileSizeMb) (some_ : 0 < numWordsPerRow) {globbed : List CsvFile}
    (listed : globbed.Perm ((generateCsvFiles choice n fileSizeMb numWordsPerRow).filter
      CsvFile.isGlobbed)) :
    ∃ streams : Fin m → Stream, main m globbed = some streams ∧ (Short json streams →
      ∀ as s, (system json streams).Run as s → as.length ≤ totalWork streams ∧
        ((∀ a, step json streams s a = none) → ∀ disk, Checkpointed json s disk →
          check json (generateCsvFiles choice n fileSizeMb numWordsPerRow) disk =
            some "CORRECT")) := by
  obtain ⟨streams, added, occurrences, _⟩ := exists_main m globbed
  have plain : ∀ file ∈ globbed, file.IsPlain := by
    intro file member
    have inside := List.mem_of_mem_filter (listed.mem_iff.mp member)
    exact isPlain_generated size some_ inside
  have none : hidden (generateCsvFiles choice n fileSizeMb numWordsPerRow) = [] := by
    apply List.filter_eq_nil_iff.mpr
    intro file member
    rw [isGlobbed_generated member, Bool.not_true, Bool.and_false]
    exact Bool.false_ne_true
  refine ⟨streams, added, fun short as s run => ⟨?_, fun stuck disk written => ?_⟩⟩
  · exact length_le_totalWork short (routable_of_isPlain added plain) run
  · have quiet := quiet_of_stuck short run stuck
    rw [check_eq _ written, (check_of_quiet short run quiet listed occurrences).mpr ⟨plain, ?_⟩, if_pos rfl]
    rw [none]
    exact List.forall_mem_nil _

/-- Every sentence is of the first word. -/
def alwaysThe : Nat → Nat → Nat → Fin wordList.length := fun _ _ _ => ⟨0, by decide⟩

/-- One row after the other, the file has the same word. -/
theorem tokens_alwaysThe {file : CsvFile} (member : file ∈ generateCsvFiles alwaysThe 1 1 1) :
    file.tokens = List.replicate 1024 "the" := by
  have sentence : split (generateRandomSentence (fun _ => ⟨0, by decide⟩) 1) = ["the"] := by
    decide
  rw [(isPlain_generated Nat.one_pos Nat.one_pos member).tokens_eq]
  obtain ⟨i, _, rfl⟩ := List.mem_map.mp member
  unfold CsvFile.seqTokens alwaysThe
  rw [List.map_const', List.flatMap_replicate, sentence, List.flatten_replicate_singleton,
    List.length_range, Nat.one_mul]

/-- A file of 1024 rows of one word each. -/
theorem generated_job_correct_one :
    ∃ (streams : Fin 2 → Stream) (as : List (Action 2)) (s : State 2),
      (system Json.objectModule streams).Run as s ∧ ∀ disk,
        check Json.objectModule (generateCsvFiles alwaysThe 1 1 1)
          (writeCheckpoints Json.objectModule s disk) = some "CORRECT" := by
  obtain ⟨streams, added, outcome⟩ := generated_job_correct Json.objectModule 2 alwaysThe
    Nat.one_pos Nat.one_pos
    (List.Perm.refl ((generateCsvFiles alwaysThe 1 1 1).filter CsvFile.isGlobbed))
  have fits : ∀ i : Fin 2, WordCount.Fits Json.objectModule (mapperId i) (wordCount ("the", 1024)) := by
    decide
  have short : Short Json.objectModule streams := by
    intro i e member item counted
    obtain ⟨file, inside, same⟩ := (main_spec added).2 i e member
    have tokens := tokens_alwaysThe (List.mem_of_mem_filter inside)
    unfold CsvFile.tokens at tokens
    rw [Entry.counts, same, tokens, Dict.entries_counter_replicate] at counted
    rw [List.mem_singleton.mp counted]
    exact fits i
  have routable := routable_of_isPlain added fun file member =>
    isPlain_generated Nat.one_pos Nat.one_pos (List.mem_of_mem_filter member)
  obtain ⟨as, s, run, quiet⟩ := exists_quiet short routable (System.run_nil _)
  have stuck : ∀ a, step Json.objectModule streams s a = none := fun a =>
    step_of_quiet (sound_run short run) quiet
  exact ⟨streams, _, s, run, fun disk =>
    (outcome short _ s run).2 stuck _ (checkpointed_writeCheckpoints s disk)⟩

end Col733.Lab2

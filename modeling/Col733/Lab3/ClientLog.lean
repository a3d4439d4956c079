import Col733.Lab3.ParseLog

/-!
# What the client log says

The lines of the format that the README gives for the client log, and what each of the
four patterns of `parseLog` finds in them. None of them finds anything in a line of
another kind before it, and none finds anything inside a key, since `INFO` must be
followed by the name of a worker.
-/

namespace Col733.Lab3.ClientLog

open Col733 (Pattern Atom)

/-- A text of digits. -/
structure Digits where
  bytes : List UInt8
  nonempty : bytes ≠ []
  all : ∀ b ∈ bytes, digit b = true

/-- A key: word characters. -/
structure Key where
  bytes : List UInt8
  nonempty : bytes ≠ []
  all : ∀ b ∈ bytes, wordChar b = true

def capitalI : UInt8 := 73

/-- What stands at the beginning of a line: the time, or any text without the letter with
which `INFO` begins, and the number in the name of the worker. -/
structure Sender where
  stamp : List UInt8
  plain : capitalI ∉ stamp
  number : Digits

def Sender.worker (s : Sender) : Nat := decimal s.number.bytes

inductive Verb where
  | setting
  | set
  | getting
  | get
  deriving DecidableEq, Repr

def Verb.word : Verb → String
  | .setting => "Setting"
  | .set => "Set"
  | .getting => "Getting"
  | .get => "Get"

/-- A line of the format `HH:mm:ss INFO worker_0 Setting key = 0`. -/
def logLine (sender : Sender) (verb : Verb) (args : List UInt8) : List UInt8 :=
  sender.stamp ++ (ascii "INFO" ++ (ascii " " ++ (ascii "worker_" ++ (sender.number.bytes ++
    (ascii " " ++ (ascii verb.word ++ (ascii " " ++ args)))))))

/-- The key, and what may stand behind it. -/
def keyValue (key : Key) : Option Digits → List UInt8
  | none => key.bytes
  | some value => key.bytes ++ (ascii " = " ++ value.bytes)

section Classes

variable {b : UInt8}

theorem space_of_wordChar (word : wordChar b = true) : space b = false := by
  unfold wordChar digit at word
  unfold space
  grind

theorem wordChar_of_digit (dig : digit b = true) : wordChar b = true := by
  unfold wordChar
  rw [dig, Bool.true_or, Bool.true_or, Bool.true_or]

theorem space_of_digit (dig : digit b = true) : space b = false :=
  space_of_wordChar (wordChar_of_digit dig)

/-- Text without the letter, as the patterns look for it. -/
theorem plain_of_not_mem {text : List UInt8} (absent : capitalI ∉ text) :
    ∀ b ∈ text, decide (b = capitalI) = false :=
  fun _ member => decide_eq_false fun same => absent (same ▸ member)

theorem Digits.plain (number : Digits) : ∀ b ∈ number.bytes, decide (b = capitalI) = false :=
  plain_of_not_mem fun member => by cases number.all capitalI member

end Classes

/-! ## The patterns on a line -/

theorem logPattern_eq (verb : String) (args : Pattern UInt8) :
    logPattern verb args = .one (fun b => decide (b = capitalI)) ::
      (Pattern.lit (ascii "NFO") ++ .plus false space :: (Pattern.lit (ascii "worker_") ++
        .plus true digit :: .plus false space :: (Pattern.lit (ascii verb) ++ args))) := rfl

theorem Verb.rejects_space (verb : Verb) (args : Pattern UInt8) :
    (Pattern.lit (ascii verb.word) ++ args).Rejects space := by
  cases verb with
  | setting => exact Pattern.rejects_lit_cons rfl
  | set => exact Pattern.rejects_lit_cons rfl
  | getting => exact Pattern.rejects_lit_cons rfl
  | get => exact Pattern.rejects_lit_cons rfl

theorem Verb.plain (verb : Verb) : ∀ b ∈ ascii verb.word, decide (b = capitalI) = false := by
  apply plain_of_not_mem
  cases verb <;> decide

/-- Neither the verbs nor the names begin with a space. -/
theorem Verb.takeWhile_space (verb : Verb) (rest : List UInt8) :
    (ascii verb.word ++ rest).takeWhile space = [] := by
  cases verb <;> rfl

theorem Digits.takeWhile_space (number : Digits) (rest : List UInt8) :
    (number.bytes ++ rest).takeWhile space = [] := by
  obtain ⟨b, bytes, cons⟩ := List.exists_cons_of_ne_nil number.nonempty
  have first := space_of_digit (number.all b (cons ▸ List.mem_cons_self))
  rw [cons, List.cons_append, List.takeWhile_cons, if_neg (by rw [first]; exact Bool.false_ne_true)]

theorem blank_takeWhile {cls : UInt8 → Bool} (blank : cls 32 = false) (rest : List UInt8) :
    (ascii " " ++ rest).takeWhile cls = [] := by
  show List.takeWhile cls (32 :: rest) = []
  rw [List.takeWhile_cons, if_neg (by rw [blank]; exact Bool.false_ne_true)]

/-- From `INFO` on, the pattern reads the number, and the verb decides. -/
theorem matchAt_logPattern (sender : Sender) (verb verb' : Verb) (args : Pattern UInt8)
    (rest : List UInt8) :
    (logPattern verb.word args).matchAt (ascii "INFO" ++ (ascii " " ++ (ascii "worker_" ++
        (sender.number.bytes ++ (ascii " " ++ (ascii verb'.word ++ rest)))))) =
      ((Pattern.lit (ascii verb.word) ++ args).matchAt (ascii verb'.word ++ rest)).map
        (sender.number.bytes :: ·) := by
  have some_ : ascii " " ≠ [] := by decide
  have blanks : ∀ b ∈ ascii " ", space b = true := List.all_eq_true.mp rfl
  have worker : (Pattern.lit (ascii "worker_") ++ .plus true digit :: .plus false space ::
      (Pattern.lit (ascii verb.word) ++ args)).Rejects space := Pattern.rejects_lit_cons rfl
  rw [logPattern, Pattern.matchAt_lit_append,
    Pattern.matchAt_plus some_ blanks rfl worker,
    Pattern.matchAt_lit_append,
    Pattern.matchAt_plus sender.number.nonempty sender.number.all (blank_takeWhile rfl _)
      (Pattern.rejects_plus fun b => space_of_digit),
    Pattern.matchAt_plus some_ blanks (verb'.takeWhile_space rest)
      (verb.rejects_space args)]
  cases (Pattern.lit (ascii verb.word) ++ args).matchAt (ascii verb'.word ++ rest) with
  | none => rfl
  | some groups => rfl

/-- Within a key no match begins, even if `INFO` stands in it: no `worker_` can follow. -/
theorem find_keyValue_none (verb : Verb) (args : Pattern UInt8) {tail : List UInt8}
    (behind : tail = [] ∨ ∃ value : Digits, tail = ascii " = " ++ value.bytes)
    {word : List UInt8} (inWord : ∀ b ∈ word, wordChar b = true) :
    (logPattern verb.word args).find (word ++ tail) = none := by
  have ends : tail.takeWhile wordChar = [] := by
    rcases behind with rfl | ⟨value, rfl⟩ <;> rfl
  have fails : Pattern.matchAt (.plus false space :: (Pattern.lit (ascii "worker_") ++
      .plus true digit :: .plus false space :: (Pattern.lit (ascii verb.word) ++ args))) tail =
      none := by
    rcases behind with rfl | ⟨value, rfl⟩ <;> rfl
  have inside : ∀ atom ∈ Pattern.lit (ascii "INFO"),
      ∃ cls, atom = .one cls ∧ ∀ b, cls b = true → wordChar b = true := by
    intro atom member
    obtain ⟨letter, isLetter, rfl⟩ := List.mem_map.mp member
    have letters : ∀ b ∈ ascii "INFO", wordChar b = true := List.all_eq_true.mp rfl
    refine ⟨_, rfl, fun b same => ?_⟩
    rw [of_decide_eq_true same]
    exact letters letter isLetter
  induction word with
  | nil =>
    rcases behind with rfl | ⟨value, rfl⟩
    · rfl
    · rw [List.nil_append, logPattern_eq]
      rw [Pattern.find_append (plain_of_not_mem (by decide))]
      exact Pattern.find_eq_none_of_absent value.plain
  | cons b word ih =>
    rw [List.cons_append, Pattern.find_cons_of_none]
    · exact ih fun c member => inWord c (List.mem_cons_of_mem b member)
    · exact Pattern.matchAt_ones_none inside ends
        (Pattern.rejects_plus fun c => space_of_wordChar) fails inWord

/-- What a pattern finds in a line of the log. -/
theorem find_logLine (sender : Sender) (verb verb' : Verb) (args : Pattern UInt8) (key : Key)
    (value : Option Digits) :
    (logPattern verb.word args).find (logLine sender verb' (keyValue key value)) =
      ((Pattern.lit (ascii verb.word) ++ args).matchAt
        (ascii verb'.word ++ (ascii " " ++ keyValue key value))).map
        (sender.number.bytes :: ·) := by
  have here := matchAt_logPattern sender verb verb' args (ascii " " ++ keyValue key value)
  rw [logLine, logPattern_eq, Pattern.find_append (plain_of_not_mem sender.plain), ← logPattern_eq]
  cases found : (Pattern.lit (ascii verb.word) ++ args).matchAt
      (ascii verb'.word ++ (ascii " " ++ keyValue key value)) with
  | some groups =>
    rw [found] at here
    exact Pattern.find_of_matchAt here
  | none =>
    rw [found] at here
    obtain ⟨tail, behind, split⟩ : ∃ tail, (tail = [] ∨ ∃ value : Digits,
        tail = ascii " = " ++ value.bytes) ∧ keyValue key value = key.bytes ++ tail := by
      cases value with
      | none => exact ⟨[], .inl rfl, (List.append_nil _).symm⟩
      | some value => exact ⟨_, .inr ⟨value, rfl⟩, rfl⟩
    have later := find_keyValue_none verb args behind key.all
    rw [← split, logPattern_eq] at later
    have nfo : capitalI ∉ ascii "NFO" := by decide
    have blank : capitalI ∉ ascii " " := by decide
    have worker : capitalI ∉ ascii "worker_" := by decide
    rw [show ascii "INFO" = capitalI :: ascii "NFO" from rfl, List.cons_append] at here ⊢
    rw [Pattern.find_cons_of_none here, logPattern_eq,
      Pattern.find_append (plain_of_not_mem nfo), Pattern.find_append (plain_of_not_mem blank),
      Pattern.find_append (plain_of_not_mem worker), Pattern.find_append sender.number.plain,
      Pattern.find_append (plain_of_not_mem blank), Pattern.find_append verb'.plain,
      Pattern.find_append (plain_of_not_mem blank), later]
    rfl

/-! ## What is captured -/

/-- A key is read to its end, where the line ends or a space follows. -/
theorem matchAt_keyPattern (key : Key) {rest : List UInt8} {p : Pattern UInt8}
    {groups : List (List UInt8)} (ends : rest.takeWhile wordChar = [])
    (found : p.matchAt rest = some groups) :
    (keyPattern ++ p).matchAt (ascii " " ++ (key.bytes ++ rest)) =
      some (key.bytes :: groups) := by
  show Pattern.matchAt (.one space :: .plus true wordChar :: p) (32 :: (key.bytes ++ rest)) = _
  rw [Pattern.matchAt_one rfl, Pattern.matchAt_plus_of_some key.nonempty key.all ends found]
  rfl

theorem matchAt_keyValuePattern (key : Key) (value : Digits) :
    keyValuePattern.matchAt (ascii " " ++ keyValue key (some value)) =
      some [key.bytes, value.bytes] := by
  refine matchAt_keyPattern key rfl ?_
  have last : Pattern.matchAt [.plus true digit] (value.bytes ++ []) = some [value.bytes] :=
    Pattern.matchAt_plus_of_some value.nonempty value.all rfl rfl
  rw [List.append_nil] at last
  show Pattern.matchAt (.one space :: (Pattern.lit (ascii "=") ++ [.one space, .plus true digit]))
    (32 :: (ascii "=" ++ (32 :: value.bytes))) = _
  rw [Pattern.matchAt_one rfl, Pattern.matchAt_lit_append, Pattern.matchAt_one rfl, last]

variable (sender : Sender) (key : Key) (value : Digits) (args : Option Digits)

theorem reSetter_setting :
    reSetter.find (logLine sender .setting (keyValue key (some value))) =
      some [sender.number.bytes, key.bytes, value.bytes] := by
  refine (find_logLine sender .setting .setting _ key _).trans ?_
  rw [Pattern.matchAt_lit_append, matchAt_keyValuePattern, Option.map_some]

theorem reSetter_none (verb : Verb) (other : verb ≠ .setting) :
    reSetter.find (logLine sender verb (keyValue key args)) = none := by
  refine (find_logLine sender .setting verb _ key _).trans ?_
  cases verb with
  | setting => exact absurd rfl other
  | set => rfl
  | getting => rfl
  | get => rfl

theorem reSetterSet_set :
    reSetterSet.find (logLine sender .set (keyValue key (some value))) =
      some [sender.number.bytes, key.bytes, value.bytes] := by
  refine (find_logLine sender .set .set _ key _).trans ?_
  rw [Pattern.matchAt_lit_append, matchAt_keyValuePattern, Option.map_some]

theorem reSetterSet_none {verb : Verb} (getter : verb = .getting ∨ verb = .get) :
    reSetterSet.find (logLine sender verb (keyValue key args)) = none := by
  refine (find_logLine sender .set verb _ key _).trans ?_
  rcases getter with rfl | rfl <;> rfl

theorem reGetter_getting :
    reGetter.find (logLine sender .getting (keyValue key none)) =
      some [sender.number.bytes, key.bytes] := by
  refine (find_logLine sender .getting .getting _ key _).trans ?_
  have found : (keyPattern ++ []).matchAt (ascii " " ++ (key.bytes ++ [])) = some [key.bytes] :=
    matchAt_keyPattern key rfl rfl
  rw [List.append_nil, List.append_nil] at found
  rw [Pattern.matchAt_lit_append]
  exact congrArg (Option.map _) found

theorem reGetter_get : reGetter.find (logLine sender .get (keyValue key args)) = none :=
  find_logLine sender .getting .get _ key _

theorem reGetterGet_get :
    reGetterGet.find (logLine sender .get (keyValue key (some value))) =
      some [sender.number.bytes, key.bytes, value.bytes] := by
  refine (find_logLine sender .get .get _ key _).trans ?_
  rw [Pattern.matchAt_lit_append, matchAt_keyValuePattern, Option.map_some]

end Col733.Lab3.ClientLog

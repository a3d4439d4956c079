import Mathlib.Data.List.TakeWhile
import Mathlib.Data.List.Range

/-!
# Patterns without alternatives

The regular expressions that are a sequence of symbol classes, each of them taken once
or repeated with `+`. A match is the one that a backtracking matcher finds first: the
leftmost, with every repetition as long as it can be. Where a repetition is followed by
something that none of its own symbols can begin, only the longest run has to be tried
(`matchAt_plus`).
-/

namespace Col733

variable {α : Type}

/-- One symbol of a class, or a repetition of such symbols, which may be a capture group. -/
inductive Atom (α : Type) where
  | one (cls : α → Bool)
  | plus (captured : Bool) (cls : α → Bool)

/-- A sequence of atoms. -/
abbrev Pattern (α : Type) := List (Atom α)

namespace Pattern

/-- The pattern that a word alone matches. -/
def lit [DecidableEq α] (word : List α) : Pattern α :=
  word.map fun a => .one fun b => decide (b = a)

/-- The captured groups of the first match at the beginning of the text. -/
def matchAt : Pattern α → List α → Option (List (List α))
  | [], _ => some []
  | .one _ :: _, [] => none
  | .one cls :: rest, a :: text => if cls a then matchAt rest text else none
  | .plus captured cls :: rest, text =>
    (List.range (text.takeWhile cls).length).reverse.findSome? fun k =>
      (matchAt rest (text.drop (k + 1))).map fun groups =>
        if captured then text.take (k + 1) :: groups else groups

/-- The captured groups of the leftmost match. -/
def find (p : Pattern α) : List α → Option (List (List α))
  | [] => p.matchAt []
  | a :: text =>
    match p.matchAt (a :: text) with
    | some groups => some groups
    | none => find p text

/-- Nothing that begins with a symbol of the class is matched. -/
def Rejects (p : Pattern α) (cls : α → Bool) : Prop :=
  ∀ a text, cls a = true → p.matchAt (a :: text) = none

section Rules

variable {p : Pattern α} {cls other : α → Bool} {captured : Bool} {a : α} {run text : List α}

theorem matchAt_one (fits : cls a = true) :
    matchAt (.one cls :: p) (a :: text) = p.matchAt text := by
  rw [matchAt, if_pos fits]

theorem matchAt_one_of_not (fails : cls a = false) :
    matchAt (.one cls :: p) (a :: text) = none := by
  rw [matchAt, if_neg (by rw [fails]; exact Bool.false_ne_true)]

theorem rejects_one (apart : ∀ a, other a = true → cls a = false) :
    Rejects (.one cls :: p) other :=
  fun a _ belongs => matchAt_one_of_not (apart a belongs)

/-- Where its own symbols do not begin, a repetition fails. -/
theorem matchAt_plus_of_not (ends : text.takeWhile cls = []) :
    matchAt (.plus captured cls :: p) text = none := by
  rw [matchAt, ends]
  rfl

theorem rejects_plus (apart : ∀ a, other a = true → cls a = false) :
    Rejects (.plus captured cls :: p) other := by
  intro a text belongs
  apply matchAt_plus_of_not
  rw [List.takeWhile_cons, if_neg (by rw [apart a belongs]; exact Bool.false_ne_true)]

theorem takeWhile_run (inRun : ∀ a ∈ run, cls a = true) (ends : text.takeWhile cls = []) :
    (run ++ text).takeWhile cls = run := by
  rw [List.takeWhile_append_of_pos inRun, ends, List.append_nil]

/-- The longest run is tried first. -/
theorem matchAt_plus_of_some {groups : List (List α)} (nonempty : run ≠ [])
    (inRun : ∀ a ∈ run, cls a = true) (ends : text.takeWhile cls = [])
    (found : p.matchAt text = some groups) :
    matchAt (.plus captured cls :: p) (run ++ text) =
      some (if captured then run :: groups else groups) := by
  obtain ⟨n, length⟩ : ∃ n, run.length = n + 1 :=
    Nat.exists_eq_succ_of_ne_zero fun zero => nonempty (List.length_eq_zero_iff.mp zero)
  rw [matchAt, takeWhile_run inRun ends, length, List.range_succ, List.reverse_append,
    List.reverse_singleton, List.singleton_append, List.findSome?_cons, ← length,
    List.drop_left, List.take_left, found]
  rfl

/-- When what follows cannot begin inside the run, only the longest run can match. -/
theorem matchAt_plus (nonempty : run ≠ []) (inRun : ∀ a ∈ run, cls a = true)
    (ends : text.takeWhile cls = []) (rejects : p.Rejects cls) :
    matchAt (.plus captured cls :: p) (run ++ text) =
      (p.matchAt text).map fun groups => if captured then run :: groups else groups := by
  cases found : p.matchAt text with
  | some groups => exact matchAt_plus_of_some nonempty inRun ends found
  | none =>
    rw [matchAt, takeWhile_run inRun ends]
    apply List.findSome?_eq_none_iff.mpr
    intro k member
    have inside : k < run.length := List.mem_range.mp (List.mem_reverse.mp member)
    rw [Option.map_eq_none_iff]
    rcases Nat.lt_or_ge (k + 1) run.length with shorter | whole
    · -- a shorter run leaves one of its symbols to what follows
      rw [List.drop_append_of_le_length shorter.le, List.drop_eq_getElem_cons shorter,
        List.cons_append]
      exact rejects _ _ (inRun _ (List.getElem_mem shorter))
    · have same : k + 1 = run.length := by omega
      rw [same, List.drop_left]
      exact found

section Literal

variable [DecidableEq α]

theorem matchAt_lit_append (word : List α) :
    (lit word ++ p).matchAt (word ++ text) = p.matchAt text := by
  induction word with
  | nil => rfl
  | cons b word ih =>
    show matchAt (.one (fun x => decide (x = b)) :: (lit word ++ p)) (b :: (word ++ text)) = _
    rw [matchAt, if_pos (decide_eq_true rfl), ih]

theorem rejects_lit_cons {word : List α} (apart : cls a = false) :
    Rejects (lit (a :: word) ++ p) cls := by
  refine rejects_one fun b belongs => decide_eq_false ?_
  rintro rfl
  rw [apart] at belongs
  cases belongs

end Literal

/-! ## The leftmost match -/

theorem find_of_matchAt {groups : List (List α)} (found : p.matchAt text = some groups) :
    p.find text = some groups := by
  cases text with
  | nil => exact found
  | cons a text => rw [find, found]

theorem find_cons_of_none (fails : p.matchAt (a :: text) = none) :
    p.find (a :: text) = p.find text := by
  rw [find, fails]

/-- No match begins in a part of the text where the first symbol of the pattern does not
occur. -/
theorem find_append {front : List α} (absent : ∀ a ∈ front, cls a = false) :
    find (.one cls :: p) (front ++ text) = find (.one cls :: p) text := by
  induction front with
  | nil => rfl
  | cons b front ih =>
    rw [List.cons_append, find_cons_of_none (matchAt_one_of_not (absent b List.mem_cons_self))]
    exact ih fun a member => absent a (List.mem_cons_of_mem b member)

theorem find_eq_none_of_absent (absent : ∀ a ∈ text, cls a = false) :
    find (.one cls :: p) text = none := by
  rw [← List.append_nil text, find_append absent]
  rfl

/-- A sequence of single symbols of the class `other` does not reach beyond a run of
`other`, which stops it; so behind it `p` begins in the run or where the run ends. -/
theorem matchAt_ones_none {ones : Pattern α} {word : List α}
    (inside : ∀ atom ∈ ones, ∃ cls, atom = .one cls ∧ ∀ a, cls a = true → other a = true)
    (ends : text.takeWhile other = []) (rejects : p.Rejects other)
    (fails : p.matchAt text = none) (inWord : ∀ a ∈ word, other a = true) :
    matchAt (ones ++ p) (word ++ text) = none := by
  induction ones generalizing word with
  | nil =>
    cases word with
    | nil => exact fails
    | cons a word => exact rejects a _ (inWord a List.mem_cons_self)
  | cons atom ones ih =>
    obtain ⟨cls, rfl, within⟩ := inside atom List.mem_cons_self
    have fewer : ∀ atom ∈ ones, ∃ cls, atom = .one cls ∧ ∀ a, cls a = true → other a = true :=
      fun next member => inside next (List.mem_cons_of_mem _ member)
    cases word with
    | nil =>
      cases text with
      | nil => rfl
      | cons a text =>
        apply matchAt_one_of_not
        rw [List.takeWhile_cons] at ends
        split at ends
        · cases ends
        · rename_i outside
          exact Bool.eq_false_iff.mpr fun fits => outside (within a fits)
    | cons a word =>
      show matchAt (.one cls :: (ones ++ p)) (a :: (word ++ text)) = none
      cases fits : cls a with
      | false => exact matchAt_one_of_not fits
      | true =>
        rw [matchAt_one fits]
        exact ih fewer fun b member => inWord b (List.mem_cons_of_mem a member)

end Rules

end Pattern

end Col733

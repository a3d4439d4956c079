import Col733.Misc.Grid
import Col733.Misc.Lcs

/-!
# `ray_lcs.py`: the table of the longest common subsequence, in blocks

A task fills one block of the table from the blocks at its left, above and at its diagonal. The
cell for the positions `left` and `up` compares `X[left-1]` with `Y[up-1]`, also where the
position is 0 and the index is -1, and overwrites the 0 that it has just been given. So the
table is that of the two strings with their last characters moved to the front. What Ray adds to
a call, its own process and a reference for the result, is left out.
-/

namespace Col733.Demos.RayLcs

variable {α : Type}

/-- `xs[k]`, where a negative index counts from the end; `none` is an `IndexError`. -/
def index (xs : List α) (k : Int) : Option α :=
  if 0 ≤ k then xs[k.toNat]?
  else if 0 ≤ xs.length + k then xs[(xs.length + k).toNat]?
  else none

/-- A block of the table. -/
abbrev Block := Grid Nat

/-- The arguments of `lcs`. -/
structure Args (α : Type) where
  X : List α
  Y : List α
  bleft : Nat
  bup : Nat
  bsize : Nat
  Lleft : Option Block
  Lup : Option Block
  Ldiag : Option Block

/-- The local function `l` of `lcs`; `none` where the cell is missing. -/
def l (t : Args α) (L : Block) (i j : Int) : Option Nat :=
  if 0 ≤ i ∧ 0 ≤ j then L i.toNat j.toNat
  else if i < 0 ∧ j < 0 then
    match t.Ldiag with
    | some B => B (t.bsize + i).toNat (t.bsize + j).toNat
    | none => some 0
  else if i < 0 then
    match t.Lleft with
    | some B => B (t.bsize + i).toNat j.toNat
    | none => some 0
  else
    match t.Lup with
    | some B => B i.toNat (t.bsize + j).toNat
    | none => some 0

section Program

variable [DecidableEq α]

/-- The body of the loops of `lcs`; `none` is an exception, which is what reading a missing cell
ends in. -/
def cell (t : Args α) (L : Block) (i j : Nat) : Option Block := do
  let left := t.bleft * t.bsize + i
  let up := t.bup * t.bsize + j
  let L := if left = 0 ∨ up = 0 then L.set i j 0 else L
  let x ← index t.X ((left : Int) - 1)
  let y ← index t.Y ((up : Int) - 1)
  if x = y then
    let diagonal ← l t L ((i : Int) - 1) ((j : Int) - 1)
    some (L.set i j (diagonal + 1))
  else
    let above ← l t L ((i : Int) - 1) j
    let before ← l t L i ((j : Int) - 1)
    some (L.set i j (max above before))

/-- The task `lcs`. -/
def lcs (t : Args α) : Option Block := Grid.fill t.bsize t.bsize (cell t) Grid.empty

/-- The body of the loops of the driver. -/
def submit (X Y : List α) (bsize : Nat) (f : Grid Block) (bleft bup : Nat) :
    Option (Grid Block) := do
  let fleft := if 0 < bleft then f (bleft - 1) bup else none
  let fup := if 0 < bup then f bleft (bup - 1) else none
  let fdiag := if 0 < bleft ∧ 0 < bup then f (bleft - 1) (bup - 1) else none
  let block ← lcs { X, Y, bleft, bup, bsize, Lleft := fleft, Lup := fup, Ldiag := fdiag }
  some (f.set bleft bup block)

/-- The driver: the blocks, once all tasks have returned. -/
def driver (X Y : List α) (bsize : Nat) : Option (Grid Block) :=
  if bsize = 0 ∨ X.length % bsize ≠ 0 ∨ Y.length % bsize ≠ 0 then none
  else Grid.fill (X.length / bsize) (Y.length / bsize) (submit X Y bsize) Grid.empty

/-- The length that the driver prints. -/
def printed (X Y : List α) (bsize : Nat) : Option Nat := do
  let f ← driver X Y bsize
  let L ← f (X.length / bsize - 1) (Y.length / bsize - 1)
  L (bsize - 1) (bsize - 1)

end Program

/-! ## The table -/

/-- The string with its last character moved to the front. -/
def turned (xs : List α) : List α := xs.getLast?.toList ++ xs.dropLast

/-- The cell for the first `a` and `b` characters of the turned strings. -/
noncomputable def table (X Y : List α) (a b : Nat) : Nat :=
  lcsLength ((turned X).take a) ((turned Y).take b)

/-- All cells of a block are those of the table. -/
def IsBlock (X Y : List α) (bsize bleft bup : Nat) (B : Block) : Prop :=
  ∀ i j, i < bsize → j < bsize →
    ∃ v, B i j = some v ∧ v = table X Y (bleft * bsize + i + 1) (bup * bsize + j + 1)

section Table

variable {X Y : List α} {a b bsize : Nat}

theorem turned_concat (front : List α) (last : α) : turned (front ++ [last]) = last :: front := by
  rw [turned, List.getLast?_concat, List.dropLast_concat]
  rfl

/-- The code's index, one to the left with the first position at the end, is a position of the
turned string. -/
theorem index_pred (bound : a < X.length) :
    ∃ c, index X ((a : Int) - 1) = some c ∧ (turned X).take (a + 1) = (turned X).take a ++ [c] := by
  rcases List.eq_nil_or_concat X with rfl | ⟨front, last, rfl⟩
  · cases bound
  · rw [List.concat_eq_append] at bound ⊢
    rw [List.length_append, List.length_singleton] at bound
    rw [turned_concat]
    cases a with
    | zero =>
      refine ⟨last, ?_, rfl⟩
      simp [index]
    | succ a =>
      have inside : a < front.length := by omega
      refine ⟨front[a], ?_, ?_⟩
      · have position : ((a + 1 : Nat) : Int) - 1 = a := by omega
        rw [index, position, if_pos (by omega), Int.toNat_natCast,
          List.getElem?_append_left inside, List.getElem?_eq_getElem inside]
      · rw [List.take_succ_cons, List.take_succ_cons, List.take_succ_eq_append_getElem inside,
          List.cons_append]

@[simp] theorem table_zero_left (X Y : List α) (b : Nat) : table X Y 0 b = 0 := by
  rw [table, List.take_zero, lcsLength_nil_left]

@[simp] theorem table_zero_right (X Y : List α) (a : Nat) : table X Y a 0 = 0 := by
  rw [table, List.take_zero, lcsLength_nil_right]

/-- The recurrence, at the characters that the code compares. -/
theorem table_succ [DecidableEq α] {x y : α} (atX : (turned X).take (a + 1) = (turned X).take a ++ [x])
    (atY : (turned Y).take (b + 1) = (turned Y).take b ++ [y]) :
    table X Y (a + 1) (b + 1) =
      if x = y then table X Y a b + 1 else max (table X Y a (b + 1)) (table X Y (a + 1) b) := by
  simp only [table, atX, atY]
  split
  · rename_i same
    rw [same, lcsLength_concat_self]
  · rename_i differ
    exact lcsLength_concat_of_ne differ _ _

end Table

/-! ## The blocks -/

/-- The blocks that a task is given are those around its own, none where there is none. -/
structure Fed (t : Args α) : Prop where
  left : t.bleft = 0 ∧ t.Lleft = none ∨
    ∃ p B, t.bleft = p + 1 ∧ t.Lleft = some B ∧ IsBlock t.X t.Y t.bsize p t.bup B
  up : t.bup = 0 ∧ t.Lup = none ∨
    ∃ q B, t.bup = q + 1 ∧ t.Lup = some B ∧ IsBlock t.X t.Y t.bsize t.bleft q B
  diagonal : (t.bleft = 0 ∨ t.bup = 0) ∧ t.Ldiag = none ∨
    ∃ p q B, t.bleft = p + 1 ∧ t.bup = q + 1 ∧ t.Ldiag = some B ∧ IsBlock t.X t.Y t.bsize p q B

section Blocks

variable {t : Args α} {L : Block} {a b : Nat}

/-- The last position of a block is the one before the first position of the next. -/
theorem last_of_block {bsize : Nat} (some_ : 0 < bsize) (p : Nat) :
    p * bsize + (bsize - 1) + 1 = (p + 1) * bsize := by
  rw [Nat.succ_mul]
  omega

/-- `l` reads the cell of the table one to the left and above of `(a, b)`, be it in the block, in
one of the neighbours or outside of the table. -/
theorem l_eq (fed : Fed t) (some_ : 0 < t.bsize) (lowA : a ≤ t.bsize) (lowB : b ≤ t.bsize)
    (inside : ∀ i j, a = i + 1 → b = j + 1 →
      L i j = some (table t.X t.Y (t.bleft * t.bsize + a) (t.bup * t.bsize + b))) :
    l t L ((a : Int) - 1) ((b : Int) - 1) =
      some (table t.X t.Y (t.bleft * t.bsize + a) (t.bup * t.bsize + b)) := by
  have edge : ((t.bsize : Int) + (((0 : Nat) : Int) - 1)).toNat = t.bsize - 1 := by omega
  have here : ∀ n : Nat, (((n + 1 : Nat) : Int) - 1).toNat = n := by omega
  cases a with
  | zero =>
    cases b with
    | zero =>
      rw [l, if_neg (by omega), if_pos (by omega)]
      rcases fed.diagonal with ⟨first | first, none_⟩ | ⟨p, q, B, row, column, found, isBlock⟩
      · simp [none_, first]
      · simp [none_, first]
      · obtain ⟨v, held, rfl⟩ := isBlock (t.bsize - 1) (t.bsize - 1) (by omega) (by omega)
        rw [found]
        simp only [edge]
        rw [held, last_of_block some_, last_of_block some_, row, column]
        rfl
    | succ j =>
      rw [l, if_neg (by omega), if_neg (by omega), if_pos (by omega)]
      rcases fed.left with ⟨first, none_⟩ | ⟨p, B, row, found, isBlock⟩
      · simp [none_, first]
      · obtain ⟨v, held, rfl⟩ := isBlock (t.bsize - 1) j (by omega) (by omega)
        rw [found]
        simp only [edge, here]
        rw [held, last_of_block some_, row]
        rfl
  | succ i =>
    cases b with
    | zero =>
      rw [l, if_neg (by omega), if_neg (by omega), if_neg (by omega)]
      rcases fed.up with ⟨first, none_⟩ | ⟨q, B, column, found, isBlock⟩
      · simp [none_, first]
      · obtain ⟨v, held, rfl⟩ := isBlock i (t.bsize - 1) (by omega) (by omega)
        rw [found]
        simp only [edge, here]
        rw [held, last_of_block some_, column]
        rfl
    | succ j =>
      rw [l, if_pos (by omega), here, here]
      exact inside i j rfl rfl

/-- The assignment of 0 touches the cell itself only. -/
theorem zeroed_of_ne {P : Prop} [Decidable P] {i j i' j' : Nat} (other : ¬ (i' = i ∧ j' = j)) :
    (if P then L.set i j 0 else L) i' j' = L i' j' := by
  split
  · exact Grid.set_of_ne L 0 other
  · rfl

/-- The assignment that follows it overwrites it. -/
theorem set_zeroed {P : Prop} [Decidable P] (L : Block) (i j v : Nat) :
    (if P then L.set i j 0 else L).set i j v = L.set i j v := by
  split
  · exact Grid.set_set L i j 0 v
  · rfl

/-- One turn of the loops of `lcs` fills its cell. -/
theorem cell_eq [DecidableEq α] {i j : Nat} (fed : Fed t) (row : i < t.bsize) (column : j < t.bsize)
    (inX : t.bleft * t.bsize + i < t.X.length) (inY : t.bup * t.bsize + j < t.Y.length)
    (before : Grid.FilledTo
      (fun i j v => v = table t.X t.Y (t.bleft * t.bsize + i + 1) (t.bup * t.bsize + j + 1))
      t.bsize i j L) :
    ∃ v, cell t L i j = some (L.set i j v) ∧
      v = table t.X t.Y (t.bleft * t.bsize + i + 1) (t.bup * t.bsize + j + 1) := by
  obtain ⟨x, atX, growsX⟩ := index_pred inX
  obtain ⟨y, atY, growsY⟩ := index_pred inY
  have reads : ∀ a b, a ≤ i + 1 → b ≤ j + 1 → ¬ (a = i + 1 ∧ b = j + 1) →
      l t (if t.bleft * t.bsize + i = 0 ∨ t.bup * t.bsize + j = 0 then L.set i j 0 else L)
          ((a : Int) - 1) ((b : Int) - 1) =
        some (table t.X t.Y (t.bleft * t.bsize + a) (t.bup * t.bsize + b)) := by
    intro a b lowA lowB other
    refine l_eq fed (by omega) (by omega) (by omega) ?_
    rintro i' j' rfl rfl
    obtain ⟨v, held, rfl⟩ := before i' j' (by omega) (by omega)
    rw [zeroed_of_ne (by omega), held]
    rfl
  have diagonal := reads i j (by omega) (by omega) (by omega)
  have above := reads i (j + 1) (by omega) (by omega) (by omega)
  have left := reads (i + 1) j (by omega) (by omega) (by omega)
  rw [show ((j + 1 : Nat) : Int) - 1 = j by omega] at above
  rw [show ((i + 1 : Nat) : Int) - 1 = i by omega] at left
  unfold cell
  simp only [atX, atY, Option.bind_eq_bind, Option.bind_some]
  rw [table_succ growsX growsY]
  by_cases equal : x = y
  · rw [if_pos equal, if_pos equal, diagonal]
    exact ⟨_, congrArg some (set_zeroed L i j _), rfl⟩
  · rw [if_neg equal, if_neg equal, above, left]
    exact ⟨_, congrArg some (set_zeroed L i j _), rfl⟩

/-- A task that is given the blocks around its own fills a block of the table. -/
theorem lcs_eq [DecidableEq α] (fed : Fed t) (rows : (t.bleft + 1) * t.bsize ≤ t.X.length)
    (columns : (t.bup + 1) * t.bsize ≤ t.Y.length) :
    ∃ B, lcs t = some B ∧ IsBlock t.X t.Y t.bsize t.bleft t.bup B := by
  rw [Nat.succ_mul] at rows columns
  exact Grid.exists_fill (fun i j L row column before =>
    cell_eq fed row column (by omega) (by omega) before) Grid.empty

end Blocks

section Driver

variable {X Y : List α} {bsize : Nat}

/-- The driver hands out the blocks around a block, once they are filled. -/
theorem fed_submit {bleft bup : Nat} {f : Grid Block} (column : bup < Y.length / bsize)
    (before : Grid.FilledTo (IsBlock X Y bsize) (Y.length / bsize) bleft bup f) :
    Fed {
      X, Y, bleft, bup, bsize
      Lleft := if 0 < bleft then f (bleft - 1) bup else none
      Lup := if 0 < bup then f bleft (bup - 1) else none
      Ldiag := if 0 < bleft ∧ 0 < bup then f (bleft - 1) (bup - 1) else none } := by
  constructor
  case left =>
    cases bleft with
    | zero => exact .inl ⟨rfl, rfl⟩
    | succ p =>
      obtain ⟨B, found, isBlock⟩ := before p bup column (by omega)
      exact .inr ⟨p, B, rfl, found, isBlock⟩
  case up =>
    cases bup with
    | zero => exact .inl ⟨rfl, rfl⟩
    | succ q =>
      obtain ⟨B, found, isBlock⟩ := before bleft q (by omega) (by omega)
      exact .inr ⟨q, B, rfl, found, isBlock⟩
  case diagonal =>
    cases bleft with
    | zero => exact .inl ⟨.inl rfl, rfl⟩
    | succ p =>
      cases bup with
      | zero => exact .inl ⟨.inr rfl, rfl⟩
      | succ q =>
        obtain ⟨B, found, isBlock⟩ := before p q (by omega) (by omega)
        exact .inr ⟨p, q, B, rfl, rfl, found, isBlock⟩

/-- The blocks of a row or column lie in the string. -/
theorem block_le {length bleft : Nat} (row : bleft < length / bsize) :
    (bleft + 1) * bsize ≤ length :=
  (Nat.mul_le_mul_right bsize row).trans (Nat.div_mul_le_self length bsize)

/-- The driver fills the table, whatever the size of the blocks. -/
theorem driver_eq [DecidableEq α] (pos : 1 ≤ bsize) (dividesX : bsize ∣ X.length) (dividesY : bsize ∣ Y.length) :
    ∃ f, driver X Y bsize = some f ∧
      ∀ bleft bup, bleft < X.length / bsize → bup < Y.length / bsize →
        ∃ B, f bleft bup = some B ∧ IsBlock X Y bsize bleft bup B := by
  have accepted : ¬ (bsize = 0 ∨ X.length % bsize ≠ 0 ∨ Y.length % bsize ≠ 0) := by
    rw [Nat.mod_eq_zero_of_dvd dividesX, Nat.mod_eq_zero_of_dvd dividesY]
    omega
  rw [driver, if_neg accepted]
  refine Grid.exists_fill (fun bleft bup f row column before => ?_) Grid.empty
  obtain ⟨B, filled, isBlock⟩ :=
    lcs_eq (fed_submit column before) (block_le row) (block_le column)
  refine ⟨B, ?_, isBlock⟩
  unfold submit
  simp only [filled, Option.bind_eq_bind, Option.bind_some]

/-- What the driver prints is the last cell of the table, which is about the turned strings. -/
theorem printed_eq [DecidableEq α] (someX : X ≠ []) (someY : Y ≠ []) (pos : 1 ≤ bsize)
    (dividesX : bsize ∣ X.length) (dividesY : bsize ∣ Y.length) :
    printed X Y bsize = some (table X Y X.length Y.length) := by
  obtain ⟨f, run, blocks⟩ := driver_eq pos dividesX dividesY
  have rows := Nat.div_pos (Nat.le_of_dvd (List.length_pos_iff.mpr someX) dividesX) pos
  have columns := Nat.div_pos (Nat.le_of_dvd (List.length_pos_iff.mpr someY) dividesY) pos
  obtain ⟨L, found, isBlock⟩ := blocks (X.length / bsize - 1) (Y.length / bsize - 1)
    (Nat.sub_lt rows Nat.one_pos) (Nat.sub_lt columns Nat.one_pos)
  obtain ⟨v, held, isEntry⟩ := isBlock (bsize - 1) (bsize - 1) (by omega) (by omega)
  rw [last_of_block pos, last_of_block pos, Nat.sub_add_cancel rows, Nat.sub_add_cancel columns,
    Nat.div_mul_cancel dividesX, Nat.div_mul_cancel dividesY] at isEntry
  unfold printed
  simp only [run, found, held, isEntry, Option.bind_eq_bind, Option.bind_some]

theorem table_last (x y : List α) (a b : α) :
    table (x ++ [a]) (y ++ [b]) (x ++ [a]).length (y ++ [b]).length =
      lcsLength (a :: x) (b :: y) := by
  have whole : ∀ (z : List α) (c : α), (turned (z ++ [c])).take (z ++ [c]).length = c :: z := by
    intro z c
    rw [turned_concat, List.length_append]
    exact List.take_of_length_le (Nat.le_refl _)
  rw [table, whole, whole]

end Driver

/-- Splitting the table into blocks changes nothing: the driver succeeds, so that no task has read
a missing cell, and every cell of every block is the cell of the table with blocks of size 1. -/
theorem blocks_agree [DecidableEq α] {X Y : List α} {bsize : Nat} (pos : 1 ≤ bsize)
    (dividesX : bsize ∣ X.length) (dividesY : bsize ∣ Y.length) :
    ∃ f f₁, driver X Y bsize = some f ∧ driver X Y 1 = some f₁ ∧
      ∀ bleft bup i j, bleft < X.length / bsize → bup < Y.length / bsize → i < bsize → j < bsize →
        ∃ L L₁ v, f bleft bup = some L ∧ f₁ (bleft * bsize + i) (bup * bsize + j) = some L₁ ∧
          L i j = some v ∧ L₁ 0 0 = some v := by
  obtain ⟨f, run, blocks⟩ := driver_eq pos dividesX dividesY
  obtain ⟨f₁, run₁, single⟩ := driver_eq (Nat.le_refl 1) (Nat.one_dvd X.length) (Nat.one_dvd Y.length)
  refine ⟨f, f₁, run, run₁, fun bleft bup i j row column inRow inColumn => ?_⟩
  have rows := block_le row
  have columns := block_le column
  rw [Nat.succ_mul] at rows columns
  obtain ⟨L, found, isBlock⟩ := blocks bleft bup row column
  obtain ⟨L₁, found₁, isCell⟩ := single (bleft * bsize + i) (bup * bsize + j)
    (by rw [Nat.div_one]; omega) (by rw [Nat.div_one]; omega)
  obtain ⟨v, held, isEntry⟩ := isBlock i j inRow inColumn
  obtain ⟨v₁, held₁, isEntry₁⟩ := isCell 0 0 Nat.one_pos Nat.one_pos
  simp only [Nat.mul_one, Nat.add_zero] at isEntry₁
  exact ⟨L, L₁, v, found, found₁, held, by rw [held₁, isEntry₁, ← isEntry]⟩

/-- Two blocks, one beside the other. -/
theorem blocks_agree_abab :
    ∃ f f₁, driver ['a', 'b', 'a', 'b'] ['b', 'a'] 2 = some f ∧
      driver ['a', 'b', 'a', 'b'] ['b', 'a'] 1 = some f₁ ∧
      ∀ bleft bup i j, bleft < 2 → bup < 1 → i < 2 → j < 2 →
        ∃ L L₁ v, f bleft bup = some L ∧ f₁ (bleft * 2 + i) (bup * 2 + j) = some L₁ ∧
          L i j = some v ∧ L₁ 0 0 = some v :=
  blocks_agree (Nat.le_succ 1) ⟨2, rfl⟩ ⟨1, rfl⟩

/-- The last characters of the strings may as well stand in front: they are equal, or putting
them there adds to the longest common subsequences of what is before them exactly if leaving
them where they are does. -/
def Movable (X Y : List α) : Prop :=
  ∀ x a y b, X = x ++ [a] → Y = y ++ [b] →
    a = b ∨ (Behind a x y ∨ Behind b y x ↔ InFront a x y ∨ InFront b y x)

/-- The driver prints the length of a longest common subsequence exactly if the last characters
may as well stand in front. -/
theorem printed_longest_iff [DecidableEq α] {X Y : List α} {bsize : Nat} (someX : X ≠ [])
    (someY : Y ≠ []) (pos : 1 ≤ bsize) (dividesX : bsize ∣ X.length)
    (dividesY : bsize ∣ Y.length) :
    (∃ k, printed X Y bsize = some k ∧ IsGreatest (commonLengths X Y) k) ↔ Movable X Y := by
  have result := printed_eq someX someY pos dividesX dividesY
  obtain ⟨x, a, rfl⟩ := (List.eq_nil_or_concat' X).resolve_left someX
  obtain ⟨y, b, rfl⟩ := (List.eq_nil_or_concat' Y).resolve_left someY
  rw [result, table_last]
  have longest : (∃ k, some (lcsLength (a :: x) (b :: y)) = some k ∧
      IsGreatest (commonLengths (x ++ [a]) (y ++ [b])) k) ↔
        lcsLength (a :: x) (b :: y) = lcsLength (x ++ [a]) (y ++ [b]) := by
    constructor
    · rintro ⟨k, same, greatest⟩
      cases same
      exact greatest.unique (isGreatest_lcsLength _ _)
    · intro same
      exact ⟨_, rfl, same ▸ isGreatest_lcsLength _ _⟩
  have movable : Movable (x ++ [a]) (y ++ [b]) ↔
      a = b ∨ (Behind a x y ∨ Behind b y x ↔ InFront a x y ∨ InFront b y x) := by
    constructor
    · exact fun movable => movable x a y b rfl rfl
    · intro here x' a' y' b' splitX splitY
      obtain ⟨rfl, rfl⟩ := List.append_singleton_inj.mp splitX
      obtain ⟨rfl, rfl⟩ := List.append_singleton_inj.mp splitY
      exact here
  rw [longest, movable]
  by_cases same : a = b
  · rw [same]
    exact iff_of_true (lcsLength_first_self b x y) (.inl rfl)
  · rw [lcsLength_first_eq_last_iff same, or_iff_right same]

/-- The last characters occur nowhere else, in one block of four cells. -/
theorem printed_longest_iff_ab :
    ∃ k, printed ['a', 'b'] ['a', 'c'] 2 = some k ∧
      IsGreatest (commonLengths ['a', 'b'] ['a', 'c']) k := by
  have movable : Movable ['a', 'b'] ['a', 'c'] := by
    intro x a y b splitX splitY
    obtain ⟨rfl, rfl⟩ := List.append_singleton_inj.mp (splitX.symm.trans (rfl : _ = ['a'] ++ ['b']))
    obtain ⟨rfl, rfl⟩ := List.append_singleton_inj.mp (splitY.symm.trans (rfl : _ = ['a'] ++ ['c']))
    have absent : ∀ c ≠ 'a', ¬ ∃ front back, ['a'] = front ++ c :: back := by
      rintro c other ⟨front, back, split⟩
      have member : c ∈ ['a'] := by
        rw [split]
        exact List.mem_append_right _ List.mem_cons_self
      exact other (List.mem_singleton.mp member)
    refine .inr (iff_of_false ?_ ?_)
    · rintro (⟨front, back, split, -⟩ | ⟨front, back, split, -⟩)
      · exact absent 'b' (by decide) ⟨front, back, split⟩
      · exact absent 'c' (by decide) ⟨front, back, split⟩
    · rintro (⟨front, back, split, -⟩ | ⟨front, back, split, -⟩)
      · exact absent 'b' (by decide) ⟨front, back, split⟩
      · exact absent 'c' (by decide) ⟨front, back, split⟩
  exact (printed_longest_iff (X := ['a', 'b']) (Y := ['a', 'c']) (List.cons_ne_nil _ _)
    (List.cons_ne_nil _ _) (Nat.le_succ 1) (Nat.dvd_refl 2) (Nat.dvd_refl 2)).mpr movable

theorem not_printed_longest :
    ¬ ∀ (X Y : List Char) bsize, X ≠ [] → Y ≠ [] → 1 ≤ bsize → bsize ∣ X.length →
      bsize ∣ Y.length → ∃ k, printed X Y bsize = some k ∧ IsGreatest (commonLengths X Y) k := by
  intro longest
  obtain ⟨k, result, greatest⟩ := longest ['a', 'b'] ['a', 'b', 'c'] 1 (List.cons_ne_nil _ _)
    (List.cons_ne_nil _ _) (Nat.le_refl 1) (Nat.one_dvd _) (Nat.one_dvd _)
  have one : printed ['a', 'b'] ['a', 'b', 'c'] 1 = some 1 := by decide
  cases one.symm.trans result
  have both : 2 ≤ 1 :=
    greatest.2 ⟨['a', 'b'], List.Sublist.refl _, List.sublist_append_left ['a', 'b'] ['c'], rfl⟩
  omega

end Col733.Demos.RayLcs

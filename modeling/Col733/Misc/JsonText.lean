import Col733.Misc.Json
import Mathlib.Data.Char
import Mathlib.Data.List.TakeWhile
import Mathlib.Data.List.Infix

/-!
# The text of JSON values

`Json.text` writes a value as `json.dumps` does with its default arguments: `", "`
and `": "` as separators and every character outside ASCII escaped. `Json.readValue`
reads back what it writes.
-/

namespace Col733

namespace Json

/-! ## Strings -/

/-- The escapes of one letter. -/
def shortEscapes : List (Char × Char) :=
  [('"', '"'), ('\\', '\\'), ('\n', 'n'), ('\r', 'r'), ('\t', 't'), ('\x08', 'b'), ('\x0c', 'f')]

def hex4 (n : Nat) : List Char :=
  [Nat.digitChar (n / 4096 % 16), Nat.digitChar (n / 256 % 16), Nat.digitChar (n / 16 % 16),
    Nat.digitChar (n % 16)]

/-- `\uXXXX`. -/
def unicodeEscape (n : Nat) : List Char := '\\' :: 'u' :: hex4 n

/-- A character of a string: printable ASCII stands for itself, a character beyond the
first 65536 is written as a surrogate pair. -/
def escape (c : Char) : List Char :=
  match shortEscapes.lookup c with
  | some letter => ['\\', letter]
  | none =>
    if 0x20 ≤ c.toNat ∧ c.toNat ≤ 0x7e then [c]
    else if c.toNat < 0x10000 then unicodeEscape c.toNat
    else unicodeEscape (0xd800 + (c.toNat - 0x10000) / 1024) ++
      unicodeEscape (0xdc00 + (c.toNat - 0x10000) % 1024)

/-- The characters of a string and the closing quote. -/
def charsText (cs : List Char) : List Char := cs.flatMap escape ++ ['"']

def hexValue (c : Char) : Option Nat :=
  if c.isDigit then some (c.toNat - 48)
  else if 97 ≤ c.toNat ∧ c.toNat ≤ 102 then some (c.toNat - 87)
  else none

def readHex4 : List Char → Option (Nat × List Char)
  | a :: b :: c :: d :: rest => do
    let a ← hexValue a
    let b ← hexValue b
    let c ← hexValue c
    let d ← hexValue d
    return (((a * 16 + b) * 16 + c) * 16 + d, rest)
  | _ => none

/-- What follows `\u`: the digits of one character or of a surrogate pair. -/
def readUnicode (cs : List Char) : Option (Char × List Char) := do
  let (n, rest) ← readHex4 cs
  if 0xd800 ≤ n ∧ n < 0xdc00 then
    match rest with
    | '\\' :: 'u' :: low => do
      let (m, rest) ← readHex4 low
      return (Char.ofNat (0x10000 + (n - 0xd800) * 1024 + (m - 0xdc00)), rest)
    | _ => none
  else return (Char.ofNat n, rest)

/-- One character of a string. -/
def readChar : List Char → Option (Char × List Char)
  | [] => none
  | '\\' :: 'u' :: rest => readUnicode rest
  | '\\' :: letter :: rest =>
    (shortEscapes.find? fun e => e.2 == letter).map fun e => (e.1, rest)
  | c :: rest => some (c, rest)

/-- The characters up to the closing quote. -/
def readChars : Nat → List Char → Option (List Char × List Char)
  | 0, _ => none
  | fuel + 1, cs =>
    if cs.head? = some '"' then some ([], cs.tail)
    else do
      let (c, cs) ← readChar cs
      let (more, cs) ← readChars fuel cs
      return (c :: more, cs)

theorem hexValue_digitChar {n : Nat} (small : n < 16) : hexValue (Nat.digitChar n) = some n := by
  have all : ∀ n : Fin 16, hexValue (Nat.digitChar n) = some n.val := by decide
  exact all ⟨n, small⟩

theorem readHex4_hex4 {n : Nat} (small : n < 65536) (rest : List Char) :
    readHex4 (hex4 n ++ rest) = some (n, rest) := by
  have value : ((n / 4096 % 16 * 16 + n / 256 % 16) * 16 + n / 16 % 16) * 16 + n % 16 = n := by
    omega
  simp [hex4, readHex4, hexValue_digitChar, Nat.mod_lt, value]

theorem readChar_unicodeEscape {n : Nat} (rest : List Char) :
    readChar (unicodeEscape n ++ rest) = readUnicode (hex4 n ++ rest) := rfl

theorem readUnicode_one {n : Nat} (small : n < 65536) (single : n < 0xd800 ∨ 0xdc00 ≤ n)
    (rest : List Char) : readUnicode (hex4 n ++ rest) = some (Char.ofNat n, rest) := by
  simp only [readUnicode, readHex4_hex4 small, bind, Option.bind]
  rw [if_neg (by omega)]
  rfl

theorem readUnicode_pair {n m : Nat} (high : 0xd800 ≤ n ∧ n < 0xdc00) (low : m < 65536)
    (rest : List Char) :
    readUnicode (hex4 n ++ (unicodeEscape m ++ rest)) =
      some (Char.ofNat (0x10000 + (n - 0xd800) * 1024 + (m - 0xdc00)), rest) := by
  simp only [readUnicode, readHex4_hex4 (show n < 65536 by omega), bind, Option.bind]
  rw [if_pos high]
  simp only [unicodeEscape, List.cons_append, readHex4_hex4 low, pure]

/-- A character is no surrogate. -/
theorem toNat_not_surrogate (c : Char) : c.toNat < 0xd800 ∨ 0xe000 ≤ c.toNat := by
  rcases c.valid with small | large
  · exact .inl small
  · exact .inr (by have := large.1; show 0xe000 ≤ c.val.toNat; omega)

theorem toNat_lt (c : Char) : c.toNat < 0x110000 := by
  rcases c.valid with small | large
  · show c.val.toNat < _; omega
  · exact large.2

/-- What `escape` writes is read as the character, and does not begin with a quote. -/
theorem readChar_escape (c : Char) (rest : List Char) :
    readChar (escape c ++ rest) = some (c, rest) ∧ (escape c ++ rest).head? ≠ some '"' := by
  unfold escape
  cases short : shortEscapes.lookup c with
  | some letter =>
    have entries : ∀ e ∈ shortEscapes, e.2 ≠ 'u' ∧
        (shortEscapes.find? fun e' => e'.2 == e.2) = some e := by decide
    have listed : (c, letter) ∈ shortEscapes := by
      obtain ⟨front, back, split, _⟩ := List.lookup_eq_some_iff.mp short
      rw [split]
      simp
    obtain ⟨notU, found⟩ := entries (c, letter) listed
    refine ⟨?_, by simp⟩
    have step : readChar ('\\' :: letter :: rest) =
        (shortEscapes.find? fun e => e.2 == letter).map fun e => (e.1, rest) := by
      unfold readChar
      split
      · rename_i same
        cases same
      · rename_i same
        cases same
        exact absurd rfl notU
      · rename_i same
        cases same
        rfl
      · rename_i other same
        cases same
        exact (other letter rest rfl rfl).elim
    show readChar ('\\' :: letter :: rest) = _
    rw [step]
    simp only at found
    rw [found]
    rfl
  | none =>
    have plain : c ≠ '\\' ∧ c ≠ '"' := by
      constructor <;> rintro rfl <;> cases short
    dsimp only
    split
    · refine ⟨?_, by simpa using plain.2⟩
      show readChar (c :: rest) = _
      unfold readChar
      split
      · rename_i same
        cases same
      · rename_i same
        cases same
        exact absurd rfl plain.1
      · rename_i same
        cases same
        exact absurd rfl plain.1
      · rename_i same
        cases same
        rfl
    · split
      · rename_i small
        refine ⟨?_, by simp [unicodeEscape]⟩
        rw [readChar_unicodeEscape, readUnicode_one small (by have := toNat_not_surrogate c; omega),
          Char.ofNat_toNat]
      · rename_i large
        have bound := toNat_lt c
        refine ⟨?_, by simp [unicodeEscape]⟩
        rw [List.append_assoc, readChar_unicodeEscape, readUnicode_pair (by omega) (by omega)]
        have value : 0x10000 + (0xd800 + (c.toNat - 0x10000) / 1024 - 0xd800) * 1024 +
            (0xdc00 + (c.toNat - 0x10000) % 1024 - 0xdc00) = c.toNat := by omega
        rw [value, Char.ofNat_toNat]

theorem readChars_charsText (fuel : Nat) (cs rest : List Char) (enough : cs.length < fuel) :
    readChars fuel (charsText cs ++ rest) = some (cs, rest) := by
  induction cs generalizing fuel with
  | nil =>
    cases fuel with
    | zero => omega
    | succ fuel => rfl
  | cons c cs ih =>
    cases fuel with
    | zero => omega
    | succ fuel =>
      have shape : charsText (c :: cs) ++ rest = escape c ++ (charsText cs ++ rest) := by
        simp [charsText]
      obtain ⟨read, inside⟩ := readChar_escape c (charsText cs ++ rest)
      rw [shape, readChars, if_neg inside]
      simp only [read, ih fuel (by simpa using enough), bind, Option.bind, pure]

/-! ## Numbers -/

def intText : Int → List Char
  | .ofNat n => Nat.toDigits 10 n
  | .negSucc n => '-' :: Nat.toDigits 10 (n + 1)

def intOf : List Char → Option Int
  | '-' :: digits => some (-(Nat.ofDigitChars 10 digits 0 : Nat))
  | digits => if digits = [] then none else some (Nat.ofDigitChars 10 digits 0 : Nat)

/-- A number is the longest run of characters of numbers. -/
def readNumber (cs : List Char) : Option (Json × List Char) :=
  let token := cs.takeWhile isNumberChar
  if fractional : token.any (fun c => c == '.' || c == 'e') = true then
    some (.float ⟨token, fun _ member => List.mem_takeWhile_imp member, fractional⟩,
      cs.dropWhile isNumberChar)
  else (intOf token).map fun n => (.int n, cs.dropWhile isNumberChar)

/-- No number goes on in the text. -/
def Stops (rest : List Char) : Prop := ∀ c ∈ rest.head?, isNumberChar c = false

theorem takeWhile_of_stops {token rest : List Char} (number : ∀ c ∈ token, isNumberChar c = true)
    (stops : Stops rest) :
    (token ++ rest).takeWhile isNumberChar = token ∧
      (token ++ rest).dropWhile isNumberChar = rest := by
  have none : rest.takeWhile isNumberChar = [] ∧ rest.dropWhile isNumberChar = rest := by
    cases rest with
    | nil => exact ⟨rfl, rfl⟩
    | cons c rest =>
      have other := stops c rfl
      constructor
      · rw [List.takeWhile_cons_of_neg (by simp [other])]
      · rw [List.dropWhile_cons_of_neg (by simp [other])]
  rw [List.takeWhile_append_of_pos number, List.dropWhile_append_of_pos number, none.1, none.2,
    List.append_nil]
  exact ⟨rfl, rfl⟩

theorem isDigit_of_mem_intText {n : Int} {c : Char} (member : c ∈ intText n) :
    c.isDigit = true ∨ c = '-' := by
  have digits : ∀ m, c ∈ Nat.toDigits 10 m → c.isDigit = true := fun m =>
    Nat.isDigit_of_mem_toDigits (by omega) (by omega)
  cases n with
  | ofNat m => exact .inl (digits m member)
  | negSucc m =>
    rcases List.mem_cons.mp member with minus | digit
    · exact .inr minus
    · exact .inl (digits (m + 1) digit)

theorem intOf_intText (n : Int) : intOf (intText n) = some n := by
  cases n with
  | ofNat m =>
    have first : ∀ rest, Nat.toDigits 10 m ≠ '-' :: rest := by
      intro rest same
      have digit := Nat.isDigit_of_mem_toDigits (n := m) (b := 10) (c := '-') (by omega) (by omega)
        (by rw [same]; exact List.mem_cons_self)
      cases digit
    unfold intText intOf
    split
    · rename_i rest same
      exact absurd same (first rest)
    · rw [if_neg Nat.toDigits_ne_nil, Nat.ofDigitChars_ten_toDigits]
      rfl
  | negSucc m =>
    show some (-((Nat.ofDigitChars 10 (Nat.toDigits 10 (m + 1)) 0 : Nat) : Int)) = _
    rw [Nat.ofDigitChars_ten_toDigits]
    rfl

theorem readNumber_intText (n : Int) {rest : List Char} (stops : Stops rest) :
    readNumber (intText n ++ rest) = some (.int n, rest) := by
  have number : ∀ c ∈ intText n, isNumberChar c = true := by
    intro c member
    rcases isDigit_of_mem_intText member with digit | rfl
    · simp [isNumberChar, digit]
    · rfl
  have whole : ¬ (intText n).any (fun c => c == '.' || c == 'e') = true := by
    intro fractional
    obtain ⟨c, member, point⟩ := List.any_eq_true.mp fractional
    rw [Bool.or_eq_true, beq_iff_eq, beq_iff_eq] at point
    rcases isDigit_of_mem_intText member with digit | rfl
    · rcases point with rfl | rfl <;> cases digit
    · rcases point with same | same <;> cases same
  obtain ⟨token, after⟩ := takeWhile_of_stops number stops
  unfold readNumber
  simp only [token, after]
  rw [dif_neg whole, intOf_intText]
  rfl

theorem readNumber_float (x : FloatText) {rest : List Char} (stops : Stops rest) :
    readNumber (x.text ++ rest) = some (.float x, rest) := by
  obtain ⟨token, after⟩ := takeWhile_of_stops x.number stops
  unfold readNumber
  simp only [token, after]
  rw [dif_pos x.fractional]

/-! ## Values -/

/-- The separator before an element, if it is not the first. -/
def separator (first : Bool) : List Char := if first then [] else [',', ' ']

mutual

/-- The text of a value. -/
def text : Json → List Char
  | .null => ['n', 'u', 'l', 'l']
  | .bool true => ['t', 'r', 'u', 'e']
  | .bool false => ['f', 'a', 'l', 's', 'e']
  | .int n => intText n
  | .float x => x.text
  | .str s => '"' :: charsText s.toList
  | .arr xs => '[' :: elemsText true xs
  | .obj items => '{' :: itemsText true items

/-- The elements of a list and the closing bracket. -/
def elemsText (first : Bool) : List Json → List Char
  | [] => [']']
  | x :: xs => separator first ++ (text x ++ elemsText false xs)

/-- The items of an object and the closing brace. -/
def itemsText (first : Bool) : List (String × Json) → List Char
  | [] => ['}']
  | (k, v) :: items =>
    separator first ++ ('"' :: charsText k.toList ++ ([':', ' '] ++ (text v ++ itemsText false items)))

end

/-- What is left when the text begins with `pre`. -/
def strip (pre cs : List Char) : Option (List Char) :=
  if pre <+: cs then some (cs.drop pre.length) else none

theorem strip_append (pre rest : List Char) : strip pre (pre ++ rest) = some rest := by
  rw [strip, if_pos (List.prefix_append pre rest), List.drop_left]

mutual

/-- Reads one value and leaves the rest of the text. -/
def readValue : Nat → List Char → Option (Json × List Char)
  | 0, _ => none
  | fuel + 1, cs =>
    match cs.head? with
    | some 'n' => (strip ['n', 'u', 'l', 'l'] cs).map fun rest => (.null, rest)
    | some 't' => (strip ['t', 'r', 'u', 'e'] cs).map fun rest => (.bool true, rest)
    | some 'f' => (strip ['f', 'a', 'l', 's', 'e'] cs).map fun rest => (.bool false, rest)
    | some '"' => (readChars cs.length cs.tail).map fun (s, rest) => (.str (String.ofList s), rest)
    | some '[' => (readElems true fuel cs.tail).map fun (xs, rest) => (.arr xs, rest)
    | some '{' => (readItems true fuel cs.tail).map fun (items, rest) => (.obj items, rest)
    | _ => readNumber cs

def readElems (first : Bool) : Nat → List Char → Option (List Json × List Char)
  | 0, _ => none
  | fuel + 1, cs =>
    if cs.head? = some ']' then some ([], cs.tail)
    else do
      let cs ← strip (separator first) cs
      let (x, cs) ← readValue fuel cs
      let (xs, cs) ← readElems false fuel cs
      return (x :: xs, cs)

def readItems (first : Bool) : Nat → List Char → Option (List (String × Json) × List Char)
  | 0, _ => none
  | fuel + 1, cs =>
    if cs.head? = some '}' then some ([], cs.tail)
    else do
      let cs ← strip (separator first) cs
      let cs ← strip ['"'] cs
      let (k, cs) ← readChars (cs.length + 1) cs
      let cs ← strip [':', ' '] cs
      let (v, cs) ← readValue fuel cs
      let (items, cs) ← readItems false fuel cs
      return ((String.ofList k, v) :: items, cs)

end

/-! ## Reading undoes writing -/

def isNumber : Json → Bool
  | .int _ | .float _ => true
  | _ => false

theorem intText_cons (n : Int) : ∃ c cs, intText n = c :: cs := by
  cases n with
  | ofNat m => exact List.exists_cons_of_ne_nil Nat.toDigits_ne_nil
  | negSucc m => exact ⟨'-', _, rfl⟩

/-- The first character of a text: it begins with a character of a number if and only if
the value is a number, and never closes a bracket. -/
theorem text_cons (j : Json) : ∃ c cs, text j = c :: cs ∧ c ≠ ']' ∧ c ≠ '}' ∧
    (j.isNumber = true → isNumberChar c = true) := by
  have numeric : ∀ c, isNumberChar c = true → c ≠ ']' ∧ c ≠ '}' := by
    intro c number
    constructor <;> rintro rfl <;> cases number
  cases j with
  | int n =>
    obtain ⟨c, cs, shape⟩ := intText_cons n
    have number : isNumberChar c = true := by
      rcases isDigit_of_mem_intText (shape ▸ List.mem_cons_self : c ∈ intText n) with digit | rfl
      · simp [isNumberChar, digit]
      · rfl
    exact ⟨c, cs, by rw [text, shape], (numeric c number).1, (numeric c number).2, fun _ => number⟩
  | float x =>
    obtain ⟨d, member, _⟩ := List.any_eq_true.mp x.fractional
    obtain ⟨c, cs, shape⟩ := List.exists_cons_of_ne_nil (List.ne_nil_of_mem member)
    have number := x.number c (shape ▸ List.mem_cons_self)
    exact ⟨c, cs, by rw [text, shape], (numeric c number).1, (numeric c number).2, fun _ => number⟩
  | null => exact ⟨_, _, by rw [text], by decide, by decide, fun number => nomatch number⟩
  | bool b =>
    cases b with
    | true => exact ⟨_, _, by rw [text], by decide, by decide, fun number => nomatch number⟩
    | false => exact ⟨_, _, by rw [text], by decide, by decide, fun number => nomatch number⟩
  | str s => exact ⟨_, _, by rw [text], by decide, by decide, fun number => nomatch number⟩
  | arr xs => exact ⟨_, _, by rw [text], by decide, by decide, fun number => nomatch number⟩
  | obj items => exact ⟨_, _, by rw [text], by decide, by decide, fun number => nomatch number⟩

theorem length_text_pos (j : Json) : 0 < (text j).length := by
  obtain ⟨c, cs, shape, _⟩ := text_cons j
  rw [shape]
  exact Nat.succ_pos _

theorem elemsText_stops (xs : List Json) (rest : List Char) :
    Stops (elemsText false xs ++ rest) := by
  intro c first
  cases xs with
  | nil =>
    cases first
    rfl
  | cons x xs =>
    cases first
    rfl

theorem itemsText_stops (items : List (String × Json)) (rest : List Char) :
    Stops (itemsText false items ++ rest) := by
  intro c first
  cases items with
  | nil =>
    cases first
    rfl
  | cons item items =>
    cases first
    rfl

theorem length_elemsText_pos (first : Bool) (xs : List Json) :
    0 < (elemsText first xs).length := by
  cases xs with
  | nil => exact Nat.succ_pos 0
  | cons x xs =>
    have := length_text_pos x
    simp only [elemsText, List.length_append]
    omega

/-- A value that begins with a character of a number is read as a number. -/
theorem readValue_number {fuel : Nat} {c : Char} {cs : List Char}
    (number : isNumberChar c = true) :
    readValue (fuel + 1) (c :: cs) = readNumber (c :: cs) := by
  unfold readValue
  split
  all_goals first
    | rfl
    | rename_i same; cases same; exact absurd number (by decide)

/-- An escape has at least one character. -/
theorem length_le_charsText (cs : List Char) : cs.length < (charsText cs).length := by
  induction cs with
  | nil => exact Nat.one_pos
  | cons c cs ih =>
    have one : 0 < (escape c).length := by
      have inside := (readChar_escape c []).1
      cases shape : escape c with
      | nil =>
        rw [shape] at inside
        cases inside
      | cons => exact Nat.succ_pos _
    simp only [charsText, List.flatMap_cons, List.length_append, List.length_cons] at ih ⊢
    omega

/-- The three readers, by induction on the fuel, of which a text needs no more than its
length. -/
theorem read_text (fuel : Nat) :
    (∀ j rest, (text j).length < fuel → (j.isNumber = true → Stops rest) →
      readValue fuel (text j ++ rest) = some (j, rest)) ∧
    (∀ first xs rest, (elemsText first xs).length < fuel →
      readElems first fuel (elemsText first xs ++ rest) = some (xs, rest)) ∧
    (∀ first items rest, (itemsText first items).length < fuel →
      readItems first fuel (itemsText first items ++ rest) = some (items, rest)) := by
  induction fuel with
  | zero => exact ⟨fun _ _ h => by omega, fun _ _ _ h => by omega, fun _ _ _ h => by omega⟩
  | succ fuel ih =>
    obtain ⟨ihValue, ihElems, ihItems⟩ := ih
    refine ⟨?_, ?_, ?_⟩
    · intro j rest enough stops
      cases j with
      | null => rfl
      | bool b => cases b <;> rfl
      | int n =>
        obtain ⟨c, cs, shape, _, _, number⟩ := text_cons (.int n)
        rw [shape, List.cons_append, readValue_number (number rfl), ← List.cons_append, ← shape]
        exact readNumber_intText n (stops rfl)
      | float x =>
        obtain ⟨c, cs, shape, _, _, number⟩ := text_cons (.float x)
        rw [shape, List.cons_append, readValue_number (number rfl), ← List.cons_append, ← shape]
        exact readNumber_float x (stops rfl)
      | str s =>
        have read := readChars_charsText (text (.str s) ++ rest).length s.toList rest (by
          have := length_le_charsText s.toList
          simp only [text, List.length_append, List.length_cons]
          omega)
        show (readChars (text (.str s) ++ rest).length (charsText s.toList ++ rest)).map _ = _
        rw [read]
        simp
      | arr xs =>
        have read := ihElems true xs rest (by simpa [text] using enough)
        show (readElems true fuel (elemsText true xs ++ rest)).map _ = _
        rw [read]
        rfl
      | obj items =>
        have read := ihItems true items rest (by simpa [text] using enough)
        show (readItems true fuel (itemsText true items ++ rest)).map _ = _
        rw [read]
        rfl
    · intro first xs rest enough
      cases xs with
      | nil => rfl
      | cons x xs =>
        have lengths : (text x).length + (elemsText false xs).length < fuel + 1 := by
          simp only [elemsText, List.length_append] at enough
          omega
        have posX := length_text_pos x
        have posXs := length_elemsText_pos false xs
        have value := ihValue x (elemsText false xs ++ rest) (by omega)
          fun _ => elemsText_stops xs rest
        have more := ihElems false xs rest (by omega)
        have shape : elemsText first (x :: xs) ++ rest =
            separator first ++ (text x ++ (elemsText false xs ++ rest)) := by
          simp [elemsText]
        have inside : (separator first ++ (text x ++ (elemsText false xs ++ rest))).head? ≠
            some ']' := by
          cases first with
          | true =>
            obtain ⟨c, cs, shape, notClose, _⟩ := text_cons x
            rw [shape]
            simpa [separator] using notClose
          | false => simp [separator]
        rw [shape, readElems, if_neg inside]
        simp only [strip_append, value, more, bind, Option.bind, pure]
    · intro first items rest enough
      cases items with
      | nil => rfl
      | cons item items =>
        obtain ⟨k, v⟩ := item
        have lengths : (text v).length + (itemsText false items).length < fuel := by
          simp only [itemsText, List.length_append, List.length_cons] at enough
          omega
        have posV := length_text_pos v
        have value := ihValue v (itemsText false items ++ rest) (by omega)
          fun _ => itemsText_stops items rest
        have more := ihItems false items rest (by omega)
        have shape : itemsText first ((k, v) :: items) ++ rest =
            separator first ++ (['"'] ++ (charsText k.toList ++
              ([':', ' '] ++ (text v ++ (itemsText false items ++ rest))))) := by
          simp [itemsText]
        have inside : (separator first ++ (['"'] ++ (charsText k.toList ++
            ([':', ' '] ++ (text v ++ (itemsText false items ++ rest)))))).head? ≠ some '}' := by
          cases first <;> simp [separator]
        have key := fun more => readChars_charsText ((charsText k.toList ++ more).length + 1)
          k.toList more (by
            have := length_le_charsText k.toList
            simp only [List.length_append]
            omega)
        rw [shape, readItems, if_neg inside]
        simp only [strip_append, key, value, more, bind, Option.bind, pure, String.ofList_toList]

end Json

end Col733

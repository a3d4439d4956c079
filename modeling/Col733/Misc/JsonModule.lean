import Col733.Misc.JsonText

/-!
# The module `json`

A program that uses the `json` module takes it as a `JsonModule`, which states what
the program relies on. The functions of `Json.text` and `Json.readValue`, over
bytes, are one: a text in ASCII is encoded byte by byte, and as a text is read back
from the front of a longer one, no text is the beginning of another.
-/

namespace Col733

/-- What a program relies on of `json`, with the encoding of texts as UTF-8: reading
undoes writing, and the text of a dictionary is refused when it is cut short. The items
of a dictionary have different keys. -/
structure JsonModule where
  /-- `json.dumps(d).encode()` for a dictionary. -/
  dumps : List (String × Json) → List UInt8
  /-- `json.loads(b.decode())`, `none` when one of them raises. -/
  loads : List UInt8 → Option Json
  loads_dumps : ∀ d, (d.map Prod.fst).Nodup → loads (dumps d) = some (.obj d)
  loads_prefix : ∀ d, (d.map Prod.fst).Nodup → ∀ cut, cut <+: dumps d → cut ≠ dumps d →
    loads cut = none

namespace Json

/-- `str.encode()` of a text in ASCII. -/
def encode (cs : List Char) : List UInt8 := cs.map fun c => c.toNat.toUInt8

/-- The characters whose codes the bytes are. -/
def decode (bytes : List UInt8) : List Char := bytes.map fun b => Char.ofNat b.toNat

def Ascii (cs : List Char) : Prop := ∀ c ∈ cs, c.toNat < 128

instance (cs : List Char) : Decidable (Ascii cs) :=
  List.decidableBAll (fun c : Char => c.toNat < 128) cs

theorem Ascii.append {cs ds : List Char} (first : Ascii cs) (second : Ascii ds) :
    Ascii (cs ++ ds) := by
  intro c member
  rcases List.mem_append.mp member with here | there
  · exact first c here
  · exact second c there

theorem Ascii.cons {c : Char} {cs : List Char} (first : c.toNat < 128) (rest : Ascii cs) :
    Ascii (c :: cs) := by
  intro d member
  rcases List.mem_cons.mp member with rfl | there
  · exact first
  · exact rest d there

theorem ascii_hex4 (n : Nat) : Ascii (hex4 n) := by
  have digits : ∀ n : Fin 16, (Nat.digitChar n).toNat < 128 := by decide
  have digit : ∀ m, (Nat.digitChar (m % 16)).toNat < 128 := fun m =>
    digits ⟨m % 16, Nat.mod_lt m (by omega)⟩
  intro c member
  simp only [hex4, List.mem_cons, List.not_mem_nil, or_false] at member
  rcases member with rfl | rfl | rfl | rfl <;> exact digit _

theorem ascii_unicodeEscape (n : Nat) : Ascii (unicodeEscape n) :=
  Ascii.cons (by decide) (Ascii.cons (by decide) (ascii_hex4 n))

theorem ascii_escape (c : Char) : Ascii (escape c) := by
  unfold escape
  split
  · rename_i letter short
    obtain ⟨front, back, listed, _⟩ := List.lookup_eq_some_iff.mp short
    have letters : ∀ e ∈ shortEscapes, e.2.toNat < 128 := by decide
    have small := letters (c, letter) (by rw [listed]; simp)
    exact Ascii.cons (by decide) (Ascii.cons small fun _ none => nomatch none)
  · split
    · rename_i printable
      exact Ascii.cons (by omega) fun _ none => nomatch none
    · split
      · exact ascii_unicodeEscape _
      · exact (ascii_unicodeEscape _).append (ascii_unicodeEscape _)

theorem ascii_charsText (cs : List Char) : Ascii (charsText cs) := by
  apply Ascii.append
  · intro c member
    obtain ⟨d, _, inside⟩ := List.mem_flatMap.mp member
    exact ascii_escape d c inside
  · exact Ascii.cons (by decide) fun _ none => nomatch none

theorem toNat_lt_of_isNumberChar {c : Char} (number : isNumberChar c = true) : c.toNat < 128 := by
  simp only [isNumberChar, Bool.or_eq_true, beq_iff_eq] at number
  rcases number with (((digit | rfl) | rfl) | rfl) | rfl
  · simp only [Char.isDigit, Bool.and_eq_true, decide_eq_true_eq] at digit
    have := digit.2
    show c.val.toNat < 128
    exact Nat.lt_of_le_of_lt (UInt32.le_iff_toNat_le.mp this) (by decide)
  all_goals decide

theorem ascii_separator (first : Bool) : Ascii (separator first) := by
  cases first <;> decide

mutual

/-- The text of a value is in ASCII. -/
theorem ascii_text : ∀ j : Json, Ascii (text j)
  | .null => by unfold text; decide
  | .bool true => by unfold text; decide
  | .bool false => by unfold text; decide
  | .int n => by
    intro c member
    rw [text] at member
    rcases isDigit_of_mem_intText member with digit | rfl
    · exact toNat_lt_of_isNumberChar (by simp [isNumberChar, digit])
    · decide
  | .float x => by
    intro c member
    rw [text] at member
    exact toNat_lt_of_isNumberChar (x.number c member)
  | .str s => by
    rw [text]
    exact Ascii.cons (by decide) (ascii_charsText _)
  | .arr xs => by
    rw [text]
    exact Ascii.cons (by decide) (ascii_elemsText true xs)
  | .obj items => by
    rw [text]
    exact Ascii.cons (by decide) (ascii_itemsText true items)

theorem ascii_elemsText (first : Bool) : ∀ xs : List Json, Ascii (elemsText first xs)
  | [] => by unfold elemsText; decide
  | x :: xs => by
    rw [elemsText]
    exact (ascii_separator first).append ((ascii_text x).append (ascii_elemsText false xs))

theorem ascii_itemsText (first : Bool) :
    ∀ items : List (String × Json), Ascii (itemsText first items)
  | [] => by unfold itemsText; decide
  | (k, v) :: items => by
    rw [itemsText]
    refine (ascii_separator first).append (Ascii.append ?_ (Ascii.append (by decide) ?_))
    · exact Ascii.cons (by decide) (ascii_charsText _)
    · exact (ascii_text v).append (ascii_itemsText false items)

end

theorem decode_encode {cs : List Char} (ascii : Ascii cs) : decode (encode cs) = cs := by
  unfold decode encode
  rw [List.map_map]
  refine (List.map_congr_left fun c member => ?_).trans (List.map_id cs)
  have small := ascii c member
  have same : c.toNat.toUInt8.toNat = c.toNat := by
    rw [Nat.toUInt8, UInt8.toNat_ofNat']
    omega
  simp only [Function.comp_apply, same, Char.ofNat_toNat, id]

/-- Reads an object. What is read is written again and compared, so that exactly the texts
that are written are accepted. -/
def loadsObject (bytes : List UInt8) : Option Json :=
  match readValue (bytes.length + 1) (decode bytes) with
  | some (.obj d, []) => if encode (text (.obj d)) = bytes then some (.obj d) else none
  | _ => none

theorem readValue_obj {fuel : Nat} (d : List (String × Json)) (rest : List Char)
    (enough : (text (.obj d)).length < fuel) :
    readValue fuel (text (.obj d) ++ rest) = some (.obj d, rest) :=
  (read_text fuel).1 (.obj d) rest enough fun number => nomatch number

theorem encode_of_loadsObject {bytes : List UInt8} {j : Json}
    (read : loadsObject bytes = some j) : ∃ d, j = .obj d ∧ encode (text (.obj d)) = bytes := by
  unfold loadsObject at read
  split at read
  · rename_i d _
    split at read
    · rename_i same
      cases read
      exact ⟨d, rfl, same⟩
    · cases read
  · cases read

/-- The functions of this module as a `JsonModule`, for programs that read objects. -/
def objectModule : JsonModule where
  dumps d := encode (text (.obj d))
  loads := loadsObject
  loads_dumps d _ := by
    have read := readValue_obj d [] (Nat.lt_succ_self _)
    rw [List.append_nil] at read
    unfold loadsObject
    rw [decode_encode (ascii_text _), show (encode (text (.obj d))).length = _ from List.length_map _,
      read]
    simp only
    rw [if_pos trivial]
  loads_prefix d _ cut isPrefix differs := by
    cases accepted : loadsObject cut with
    | none => rfl
    | some j =>
      obtain ⟨d', _, same⟩ := encode_of_loadsObject accepted
      obtain ⟨more, whole⟩ := isPrefix
      -- both texts are read from the beginning of the longer one
      have decoded : text (.obj d) = text (.obj d') ++ decode more := by
        rw [← decode_encode (ascii_text (.obj d)), ← whole, ← same]
        simp only [decode, List.map_append]
        congr 1
        exact decode_encode (ascii_text (.obj d'))
      have long := readValue_obj d [] (Nat.lt_succ_self (text (.obj d)).length)
      rw [List.append_nil] at long
      have inside : (text (.obj d')).length < (text (.obj d)).length + 1 := by
        rw [decoded, List.length_append]
        omega
      have short := readValue_obj d' (decode more) inside
      rw [← decoded, long] at short
      have rest : decode more = [] := by
        injection short with pair
        injection pair with _ left
        exact left.symm
      have none : more = [] := List.map_eq_nil_iff.mp rest
      rw [none, List.append_nil] at whole
      exact absurd whole differs

end Json

end Col733

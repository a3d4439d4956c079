import Col733.Misc.JsonText

/-!
# `str` of JSON values

What Python's `str` gives for a value that `json.loads` has returned: a string is taken as it is,
and every other value as `repr` writes it, with its strings in quotes.
-/

namespace Col733.Json

/-- The last `width` hexadecimal digits of a number. -/
def hexDigits : Nat → Nat → List Char
  | 0, _ => []
  | width + 1, n => hexDigits width (n / 16) ++ [Nat.digitChar (n % 16)]

/-- A character between two quotes. Beyond ASCII it stands for itself if it is printable, which
depends on the version of Unicode. -/
def reprChar (printable : Char → Bool) (quote c : Char) : List Char :=
  if c = quote ∨ c = '\\' then ['\\', c]
  else if c = '\t' then ['\\', 't']
  else if c = '\n' then ['\\', 'n']
  else if c = '\r' then ['\\', 'r']
  else if c.toNat < 0x20 ∨ c.toNat = 0x7f then '\\' :: 'x' :: hexDigits 2 c.toNat
  else if c.toNat < 0x7f ∨ printable c then [c]
  else if c.toNat ≤ 0xff then '\\' :: 'x' :: hexDigits 2 c.toNat
  else if c.toNat ≤ 0xffff then '\\' :: 'u' :: hexDigits 4 c.toNat
  else '\\' :: 'U' :: hexDigits 8 c.toNat

/-- A string stands in single quotes, unless it has these and no double ones. -/
def quoteOf (cs : List Char) : Char := if '\'' ∈ cs ∧ '"' ∉ cs then '"' else '\''

def reprString (printable : Char → Bool) (s : String) : List Char :=
  quoteOf s.toList :: s.toList.flatMap (reprChar printable (quoteOf s.toList)) ++
    [quoteOf s.toList]

mutual

/-- `repr`. -/
def reprText (printable : Char → Bool) : Json → List Char
  | .null => ['N', 'o', 'n', 'e']
  | .bool true => ['T', 'r', 'u', 'e']
  | .bool false => ['F', 'a', 'l', 's', 'e']
  | .int n => intText n
  | .float x => x.text
  | .str s => reprString printable s
  | .arr xs => '[' :: reprElems printable true xs
  | .obj items => '{' :: reprItems printable true items

/-- The elements of a list and the closing bracket. -/
def reprElems (printable : Char → Bool) (first : Bool) : List Json → List Char
  | [] => [']']
  | x :: xs => separator first ++ (reprText printable x ++ reprElems printable false xs)

/-- The items of a dictionary and the closing brace. -/
def reprItems (printable : Char → Bool) (first : Bool) : List (String × Json) → List Char
  | [] => ['}']
  | (k, v) :: items =>
    separator first ++ (reprString printable k ++ ':' :: ' ' ::
      (reprText printable v ++ reprItems printable false items))

end

/-- `str`. -/
def toStr (printable : Char → Bool) : Json → String
  | .str s => s
  | x => String.ofList (reprText printable x)

@[simp] theorem toStr_str (printable : Char → Bool) (s : String) :
    toStr printable (.str s) = s := rfl

example : toStr (fun _ => true) (.arr [.str "it's", .null, .obj [("a\n", .int (-7))]]) =
    "[\"it's\", None, \x7b'a\\n': -7\x7d]" := by decide

end Col733.Json

import Mathlib.Data.List.Basic

/-!
# JSON values

The values that `json.loads` returns and `json.dumps` writes. Python's `bool` is
a subclass of `int`, which only `isInt` sees. An object is the list of its items
in order; a dictionary that a program works on is a `Dict` of values, which holds
no key twice.
-/

namespace Col733

/-- The characters of the text of a number. -/
def isNumberChar (c : Char) : Bool :=
  c.isDigit || c == '-' || c == '+' || c == '.' || c == 'e'

/-- A float, by the text that `repr` gives it. The point or the exponent tells the
text from that of an integer. -/
structure FloatText where
  text : List Char
  number : ∀ c ∈ text, isNumberChar c = true
  fractional : text.any (fun c => c == '.' || c == 'e') = true

inductive Json where
  | null
  | bool (b : Bool)
  | int (n : Int)
  | float (x : FloatText)
  | str (s : String)
  | arr (xs : List Json)
  | obj (items : List (String × Json))

namespace Json

/-- `isinstance(x, int)`: a `bool` is an `int` too. -/
def isInt : Json → Bool
  | .int _ | .bool _ => true
  | _ => false

/-- The value of an `int`; `True` is 1 and `False` is 0. -/
def intValue : Json → Int
  | .int n => n
  | .bool true => 1
  | _ => 0

end Json

end Col733

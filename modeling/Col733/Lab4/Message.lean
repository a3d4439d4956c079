import Col733.Misc.Dict
import Col733.Misc.Json

/-!
# `core/message.py` of lab 4

A `JsonMessage` is a dictionary of JSON values. A missing key raises, in `pop`
as in `__getitem__`.
-/

namespace Col733.Lab4

/-- The exceptions that the modelled code can raise. -/
inductive Raised where
  | assertionError (text : String)
  | keyError (key : Json)
  | typeError
  | indexError
  | simulatedConnectionError

abbrev JsonMessage := Dict String Json

namespace JsonMessage

/-- `__getitem__`. -/
def getItem (msg : JsonMessage) (key : String) : Except Raised Json :=
  match msg.get? key with
  | some val => .ok val
  | none => .error (.keyError (.str key))

/-- `pop`: the value of the key and the message without it. -/
def pop (msg : JsonMessage) (key : String) : Except Raised (Json × JsonMessage) :=
  match msg.get? key with
  | some val => .ok (val, msg.erase key)
  | none => .error (.keyError (.str key))

theorem pop_eq_ok {msg body : JsonMessage} {key : String} {val : Json}
    (popped : pop msg key = .ok (val, body)) : msg.get? key = some val ∧ body = msg.erase key := by
  unfold pop at popped
  split at popped
  · rename_i val' found
    cases popped
    exact ⟨found, rfl⟩
  · cases popped

theorem getItem_of_get? {msg : JsonMessage} {key : String} {val : Json}
    (found : msg.get? key = some val) : getItem msg key = .ok val := by
  rw [getItem, found]

theorem getItem_of_missing {msg : JsonMessage} {key : String} (missing : msg.get? key = none) :
    getItem msg key = .error (.keyError (.str key)) := by
  rw [getItem, missing]

end JsonMessage

/-- `assert cond, text`. -/
def assertThat (cond : Bool) (text : String) : Except Raised Unit :=
  if cond then .ok () else .error (.assertionError text)

/-- A computation of two parts that succeeds: both parts do. -/
theorem bind_eq_ok {α β : Type} {x : Except Raised α} {f : α → Except Raised β} {b : β}
    (success : (x >>= f) = .ok b) : ∃ a, x = .ok a ∧ f a = .ok b := by
  cases x with
  | error raised => cases success
  | ok a => exact ⟨a, rfl, success⟩

/-- A computation of two parts that raises: one of them does. -/
theorem bind_eq_error {α β : Type} {x : Except Raised α} {f : α → Except Raised β}
    {raised : Raised} (failure : (x >>= f) = .error raised) :
    x = .error raised ∨ ∃ a, x = .ok a ∧ f a = .error raised := by
  cases x with
  | error _ =>
    cases failure
    exact .inl rfl
  | ok a => exact .inr ⟨a, rfl, failure⟩

theorem assertThat_eq_ok {cond : Bool} {text : String} {u : Unit}
    (passed : assertThat cond text = .ok u) : cond = true := by
  cases cond with
  | true => rfl
  | false => cases passed

/-- The computation raises nothing but `AssertionError`. -/
def OnlyAsserts {α : Type} (x : Except Raised α) : Prop :=
  ∀ raised, x = .error raised → ∃ text, raised = .assertionError text

theorem onlyAsserts_ok {α : Type} (a : α) : OnlyAsserts (.ok a) :=
  fun _ error => nomatch error

theorem onlyAsserts_assertThat (cond : Bool) (text : String) :
    OnlyAsserts (assertThat cond text) := by
  intro raised error
  cases cond with
  | true => cases error
  | false =>
    cases error
    exact ⟨text, rfl⟩

theorem onlyAsserts_getItem {msg : JsonMessage} {key : String} (has : msg.contains key = true) :
    OnlyAsserts (JsonMessage.getItem msg key) := by
  obtain ⟨val, found⟩ := Dict.contains_iff_get?.mp has
  rw [JsonMessage.getItem_of_get? found]
  exact onlyAsserts_ok val

theorem OnlyAsserts.bind {α β : Type} {x : Except Raised α} {f : α → Except Raised β}
    (first : OnlyAsserts x) (second : ∀ a, x = .ok a → OnlyAsserts (f a)) :
    OnlyAsserts (x >>= f) := by
  intro raised error
  cases x with
  | error _ =>
    cases error
    exact first _ rfl
  | ok a => exact second a rfl raised error

/-- `x[i]` for an `int` index on a value that `json.loads` returned. A string is
indexed by its characters; the keys of an object are strings, none is an `int`. -/
def subscript (x : Json) (i : Nat) : Except Raised Json :=
  match x with
  | .arr xs =>
    match xs[i]? with
    | some val => .ok val
    | none => .error .indexError
  | .str s =>
    match s.toList[i]? with
    | some c => .ok (.str (String.singleton c))
    | none => .error .indexError
  | .obj _ => .error (.keyError (.int i))
  | .null | .bool _ | .int _ | .float _ => .error .typeError

end Col733.Lab4

import Col733.Lab4.Message

/-!
# `BayouResponse` of `bayou/ctrlmsg.py`

A response is made with a Boolean status, but `from_json_message` makes it with the string that
it finds. `to_json_message` tests the status for truth, where a string that is not empty is
true, and the property `status` compares its text with `OK`, which the text of a Boolean never
is.
-/

namespace Col733.Lab4

inductive WriteState where
  | tentative
  | committed
  | rejected
  deriving DecidableEq, Repr

namespace WriteState

/-- `WriteState.X.name`. -/
def name : WriteState → String
  | tentative => "TENTATIVE"
  | committed => "COMMITTED"
  | rejected => "REJECTED"

def all : List WriteState := [tentative, committed, rejected]

/-- `WriteState[name]` for a field that is one of the names. -/
def ofField : Json → Option WriteState
  | .str s => all.find? fun w => w.name == s
  | _ => none

theorem ofField_name (w : WriteState) : ofField (.str w.name) = some w := by
  cases w <;> rfl

theorem ofField_eq_some {field : Json} {w : WriteState} (named : ofField field = some w) :
    field = .str w.name := by
  cases field with
  | str s =>
    have same := List.find?_some named
    simp only [beq_iff_eq] at same
    rw [same]
  | _ => cases named

end WriteState

/-- What `_status` can be: the Boolean of the annotation, or a string. -/
inductive Status where
  | bool (b : Bool)
  | str (s : String)

/-- Its truth. -/
def Status.truth : Status → Bool
  | .bool b => b
  | .str s => s != ""

/-- `str(_status)`. -/
def Status.text : Status → String
  | .bool true => "True"
  | .bool false => "False"
  | .str s => s

/-- A `BayouResponse`; the payload is the items of a dictionary. -/
structure BayouResponse where
  rawStatus : Status
  writeState : WriteState
  payload : List (String × Json)

namespace BayouResponse

/-- `to_json_message`. -/
def toJsonMessage (r : BayouResponse) : JsonMessage :=
  Dict.ofList [("status", .str (if r.rawStatus.truth then "OK" else "Err")),
    ("write_state", .str r.writeState.name), ("payload", .obj r.payload)]

/-- The property `status`. -/
def status (r : BayouResponse) : Bool := r.rawStatus.text == "OK"

/-- `x in {"OK", "Err"}`, and then the string. A list or a dictionary has no hash. -/
def checkStatus : Json → Except Raised String
  | .str s =>
    if s = "OK" ∨ s = "Err" then .ok s else .error (.assertionError "Status must be {OK, Err}")
  | .arr _ | .obj _ => .error .typeError
  | .null | .bool _ | .int _ | .float _ =>
    .error (.assertionError "Status must be {OK, Err}")

/-- The payload, if it is a dictionary. -/
def checkPayload : Json → Except Raised (List (String × Json))
  | .obj items => .ok items
  | _ => .error (.assertionError "Payload must be dict")

def checkWriteState (field : Json) : Except Raised WriteState :=
  match WriteState.ofField field with
  | some w => .ok w
  | none => .error (.assertionError
      "write state must be ['TENTATIVE', 'COMMITTED', 'REJECTED']")

/-- `from_json_message`. -/
def fromJsonMessage (msg : JsonMessage) : Except Raised BayouResponse := do
  assertThat (msg.contains "status") "Status must be in msg"
  let rawStatus ← checkStatus (← JsonMessage.getItem msg "status")
  assertThat (msg.contains "payload") "Payload must be present"
  let payload ← checkPayload (← JsonMessage.getItem msg "payload")
  assertThat (msg.contains "write_state") "write state must be in msg"
  let writeState ← checkWriteState (← JsonMessage.getItem msg "write_state")
  return { rawStatus := .str rawStatus, writeState, payload }

/-- The message has no fields but the three. -/
def OnlyFields (msg : JsonMessage) : Prop :=
  ∀ key, msg.contains key = true → key = "status" ∨ key = "write_state" ∨ key = "payload"

section Response

variable {r : BayouResponse} {msg : JsonMessage}

/-- A response is always accepted back, with its truth for a status. -/
theorem fromJsonMessage_toJsonMessage (r : BayouResponse) :
    fromJsonMessage r.toJsonMessage =
      .ok { r with rawStatus := .str (if r.rawStatus.truth then "OK" else "Err") } := by
  rcases r with ⟨rawStatus, writeState, payload⟩
  cases writeState <;> cases truth : rawStatus.truth <;> simp only [toJsonMessage, truth] <;> rfl

/-- The status that comes back is the Boolean that the response was made with; it is the response
itself that tells another one. -/
theorem status_fromJsonMessage {b : Bool} (made : r.rawStatus = .bool b) :
    ∃ r', fromJsonMessage r.toJsonMessage = .ok r' ∧ r'.status = b ∧ r.status = false := by
  refine ⟨_, fromJsonMessage_toJsonMessage r, ?_, ?_⟩
  · rw [made]
    cases b <;> rfl
  · rw [status, made]
    cases b <;> rfl

theorem checkStatus_eq_ok {field : Json} {s : String} (accepted : checkStatus field = .ok s) :
    field = .str s ∧ (s = "OK" ∨ s = "Err") := by
  cases field with
  | str t =>
    simp only [checkStatus] at accepted
    split at accepted
    · cases accepted
      exact ⟨rfl, ‹_›⟩
    · cases accepted
  | null | bool | int | float | arr | obj => cases accepted

theorem checkPayload_eq_ok {field : Json} {items : List (String × Json)}
    (accepted : checkPayload field = .ok items) : field = .obj items := by
  cases field with
  | obj items' =>
    cases accepted
    rfl
  | null | bool | int | float | arr | str => cases accepted

theorem checkWriteState_eq_ok {field : Json} {w : WriteState}
    (accepted : checkWriteState field = .ok w) : field = .str w.name := by
  unfold checkWriteState at accepted
  split at accepted
  · cases accepted
    exact WriteState.ofField_eq_some ‹_›
  · cases accepted

/-- A field that was read. -/
theorem get?_of_getItem {key : String} {val : Json} (read : JsonMessage.getItem msg key = .ok val) :
    msg.get? key = some val := by
  unfold JsonMessage.getItem at read
  split at read
  · cases read
    assumption
  · cases read

theorem get?_of_not_contains {key : String} (missing : ¬ msg.contains key = true) :
    msg.get? key = none := by
  rw [Dict.contains, Bool.not_eq_true, Option.isSome_eq_false_iff] at missing
  exact Option.isNone_iff_eq_none.mp missing

/-- What `from_json_message` has read. -/
theorem fields_of_fromJsonMessage (accepted : fromJsonMessage msg = .ok r) :
    ∃ s, r.rawStatus = .str s ∧ (s = "OK" ∨ s = "Err") ∧ msg.get? "status" = some (.str s) ∧
      msg.get? "write_state" = some (.str r.writeState.name) ∧
        msg.get? "payload" = some (.obj r.payload) := by
  unfold fromJsonMessage at accepted
  obtain ⟨_, _, accepted⟩ := bind_eq_ok accepted
  obtain ⟨status, readStatus, accepted⟩ := bind_eq_ok accepted
  obtain ⟨s, checked, accepted⟩ := bind_eq_ok accepted
  obtain ⟨_, _, accepted⟩ := bind_eq_ok accepted
  obtain ⟨payload, readPayload, accepted⟩ := bind_eq_ok accepted
  obtain ⟨items, checkedItems, accepted⟩ := bind_eq_ok accepted
  obtain ⟨_, _, accepted⟩ := bind_eq_ok accepted
  obtain ⟨state, readState, accepted⟩ := bind_eq_ok accepted
  obtain ⟨w, checkedState, accepted⟩ := bind_eq_ok accepted
  cases accepted
  obtain ⟨rfl, known⟩ := checkStatus_eq_ok checked
  cases checkPayload_eq_ok checkedItems
  cases checkWriteState_eq_ok checkedState
  exact ⟨s, rfl, known, get?_of_getItem readStatus, get?_of_getItem readState,
    get?_of_getItem readPayload⟩

/-- The string of the message is not empty, so that it is written as `OK`. -/
theorem get?_toJsonMessage {s : String} (read : r.rawStatus = .str s)
    (known : s = "OK" ∨ s = "Err") :
    r.toJsonMessage.get? "status" = some (.str "OK") := by
  have truth : r.rawStatus.truth = true := by
    rw [read]
    rcases known with rfl | rfl <;> rfl
  rw [toJsonMessage, truth]
  rfl

end Response

/-- A response made with a Boolean comes back as it was if and only if the Boolean is `False`. -/
theorem comes_back_iff (b : Bool) (writeState : WriteState) (payload : List (String × Json)) :
    (∃ r', fromJsonMessage (toJsonMessage { rawStatus := .bool b, writeState, payload }) =
        .ok r' ∧
      r'.status = status { rawStatus := .bool b, writeState, payload } ∧
      r'.writeState = writeState ∧ r'.payload = payload) ↔ b = false := by
  rw [fromJsonMessage_toJsonMessage]
  cases b with
  | false => exact ⟨fun _ => rfl, fun _ => ⟨_, rfl, rfl, rfl, rfl⟩⟩
  | true =>
    constructor
    · intro same
      obtain ⟨r', read, status, _⟩ := same
      cases read
      cases status
    · intro other
      cases other

/-- An accepted message with only the three fields is written again as it was if and only if its
status is `OK`. -/
theorem written_again_iff {msg : JsonMessage} {r : BayouResponse}
    (accepted : fromJsonMessage msg = .ok r) (only : OnlyFields msg) :
    (∀ key, r.toJsonMessage.get? key = msg.get? key) ↔ msg.get? "status" = some (.str "OK") := by
  obtain ⟨s, read, known, status, writeState, payload⟩ := fields_of_fromJsonMessage accepted
  have written := get?_toJsonMessage read known
  constructor
  · intro same
    rw [← same, written]
  · intro ok key
    by_cases held : msg.contains key = true
    · rcases only key held with rfl | rfl | rfl
      · rw [written, ok]
      · exact writeState.symm ▸ rfl
      · exact payload.symm ▸ rfl
    · have missing := get?_of_not_contains held
      have other : ¬ r.toJsonMessage.contains key = true := by
        intro written
        have field : key ∈ ["status", "write_state", "payload"] := Dict.contains_ofList.mp written
        simp only [List.mem_cons, List.not_mem_nil, or_false] at field
        rcases field with rfl | rfl | rfl
        · exact Option.some_ne_none _ (status.symm.trans missing)
        · exact Option.some_ne_none _ (writeState.symm.trans missing)
        · exact Option.some_ne_none _ (payload.symm.trans missing)
      rw [missing, get?_of_not_contains other]

/-- The two directions. A response made with a Boolean comes back with the same status, write
state and payload if and only if the Boolean is `False`; a message that is accepted and has only
the three fields is written again as it was if and only if its status is `OK`. -/
theorem response_round_trips_iff (b : Bool) (writeState : WriteState)
    (payload : List (String × Json)) (msg : JsonMessage) (r : BayouResponse) :
    ((∃ r', fromJsonMessage (toJsonMessage { rawStatus := .bool b, writeState, payload }) =
          .ok r' ∧
        r'.status = status { rawStatus := .bool b, writeState, payload } ∧
        r'.writeState = writeState ∧ r'.payload = payload) ↔ b = false) ∧
    (fromJsonMessage msg = .ok r → OnlyFields msg →
      ((∀ key, r.toJsonMessage.get? key = msg.get? key) ↔
        msg.get? "status" = some (.str "OK"))) :=
  ⟨comes_back_iff b writeState payload, written_again_iff⟩

/-- A message with the three fields. -/
def messageOf (status : String) : JsonMessage :=
  Dict.ofList [("status", .str status), ("write_state", .str "COMMITTED"), ("payload", .obj [])]

theorem onlyFields_messageOf (status : String) : OnlyFields (messageOf status) := by
  intro key held
  have field : key ∈ ["status", "write_state", "payload"] := Dict.contains_ofList.mp held
  simpa only [List.mem_cons, List.not_mem_nil, or_false] using field

/-- A response with `False` comes back, and a message with status `OK` is written again as it
was. -/
theorem response_round_trips_iff_ok :
    (∃ r, fromJsonMessage (toJsonMessage
        { rawStatus := .bool false, writeState := .rejected, payload := [] }) = .ok r ∧
        r.status = status { rawStatus := .bool false, writeState := .rejected, payload := [] }) ∧
    ∃ r, fromJsonMessage (messageOf "OK") = .ok r ∧
      ∀ key, r.toJsonMessage.get? key = (messageOf "OK").get? key := by
  obtain ⟨r, accepted⟩ : ∃ r, fromJsonMessage (messageOf "OK") = .ok r := ⟨_, rfl⟩
  obtain ⟨response, message⟩ := response_round_trips_iff false .rejected [] (messageOf "OK") r
  obtain ⟨r', read, same, _⟩ := response.mpr rfl
  exact ⟨⟨r', read, same⟩, r, accepted,
    (message accepted (onlyFields_messageOf "OK")).mpr rfl⟩

/-- A response with `True` comes back with another status, and a message with `Err` is written
again with `OK`. -/
theorem not_response_round_trips :
    (¬ ∃ r, fromJsonMessage (toJsonMessage
        { rawStatus := .bool true, writeState := .committed, payload := [] }) = .ok r ∧
        r.status = status { rawStatus := .bool true, writeState := .committed, payload := [] }) ∧
    ∃ r, fromJsonMessage (messageOf "Err") = .ok r ∧ OnlyFields (messageOf "Err") ∧
      ¬ ∀ key, r.toJsonMessage.get? key = (messageOf "Err").get? key := by
  constructor
  · intro same
    obtain ⟨r, read, status⟩ := same
    rw [fromJsonMessage_toJsonMessage] at read
    cases read
    cases status
  · refine ⟨_, rfl, onlyFields_messageOf "Err", ?_⟩
    intro same
    have status := same "status"
    rw [get?_toJsonMessage rfl (.inr rfl)] at status
    have differs := Json.str.inj (Option.some.inj status)
    exact absurd differs (by decide)

end BayouResponse

end Col733.Lab4

import Col733.Lab4.Storage

/-!
# `bayou/ctrlmsg.py`

The kinds of requests and the classes that check the fields of a request.
-/

namespace Col733.Lab4

inductive RequestTypes where
  | severConn
  | unseverConn
  | antiEntropy
  | appendChar
  | getString
  deriving DecidableEq, Repr

namespace RequestTypes

/-- `RequestTypes.X.name`. -/
def name : RequestTypes → String
  | severConn => "SEVER_CONN"
  | unseverConn => "UNSEVER_CONN"
  | antiEntropy => "ANTI_ENTROPY"
  | appendChar => "APPEND_CHAR"
  | getString => "GET_STRING"

def all : List RequestTypes := [severConn, unseverConn, antiEntropy, appendChar, getString]

/-- The kind that a `type` field names: the case of the `match` that it takes. -/
def ofField : Json → Option RequestTypes
  | .str s => all.find? fun t => t.name == s
  | _ => none

theorem ofField_name (t : RequestTypes) : ofField (.str t.name) = some t := by
  cases t <;> rfl

theorem ofField_eq_some {field : Json} {t : RequestTypes} (named : ofField field = some t) :
    field = .str t.name := by
  cases field with
  | str s =>
    have same := List.find?_some named
    simp only [beq_iff_eq] at same
    rw [same]
  | _ => cases named

end RequestTypes

/-- `SeverConnRequest(msg).peer_name` and `UnSeverConnRequest(msg).peer_name`, which
differ in the name of the class alone. -/
def peerName (env : Env) (cls : String) (msg : JsonMessage) : Except Raised String := do
  assertThat (msg.contains "peer_name") ("peer_name is required in " ++ cls ++ ".")
  let peer ← JsonMessage.getItem msg "peer_name"
  return env.str peer

def SeverConnRequest.peerName (env : Env) (msg : JsonMessage) : Except Raised String :=
  Lab4.peerName env "SeverConnRequest" msg

def UnSeverConnRequest.peerName (env : Env) (msg : JsonMessage) : Except Raised String :=
  Lab4.peerName env "UnSeverConnRequest" msg

theorem peerName_of_missing (env : Env) (cls : String) {msg : JsonMessage}
    (missing : msg.get? "peer_name" = none) :
    peerName env cls msg =
      .error (.assertionError ("peer_name is required in " ++ cls ++ ".")) := by
  simp [peerName, assertThat, Dict.contains, missing, bind, Except.bind]

theorem peerName_of_found (env : Env) (cls : String) {msg : JsonMessage} {peer : Json}
    (found : msg.get? "peer_name" = some peer) : peerName env cls msg = .ok (env.str peer) := by
  simp [peerName, assertThat, Dict.contains, JsonMessage.getItem, found, bind, Except.bind, pure,
    Except.pure]

/-- An `AntiEntropyReq`. -/
structure AntiEntropyReq where
  c : VectorTime
  f : VectorTime

namespace AntiEntropyReq

/-- The loop of `from_msg` over the items of a vector. -/
def times : List (String × Json) → Except Raised (List LogicalTime)
  | [] => .ok []
  | (n, t) :: items => do
    assertThat t.isInt ""
    let rest ← times items
    return { name := n, ts := t.intValue } :: rest

/-- `assert isinstance(x, dict)`, and its items. -/
def items : Json → Except Raised (List (String × Json))
  | .obj items => .ok items
  | _ => .error (.assertionError "")

/-- `from_msg`. -/
def fromMsg (msg : JsonMessage) : Except Raised AntiEntropyReq := do
  assertThat (msg.contains "c") "c must be in the anti-entropy req"
  assertThat (msg.contains "f") "f must be in the anti-entropy req"
  let cItems ← items (← JsonMessage.getItem msg "c")
  let fItems ← items (← JsonMessage.getItem msg "f")
  let c ← times cItems
  let f ← times fItems
  return { c := VectorTime.ofTimes c, f := VectorTime.ofTimes f }

theorem onlyAsserts_times (items : List (String × Json)) : OnlyAsserts (times items) := by
  induction items with
  | nil => exact onlyAsserts_ok []
  | cons item items ih =>
    apply (onlyAsserts_assertThat _ _).bind
    intro _ _
    apply ih.bind
    intro rest _
    exact onlyAsserts_ok _

theorem onlyAsserts_items (x : Json) : OnlyAsserts (items x) := by
  intro raised error
  cases x with
  | obj items => cases error
  | null | bool | int | float | str | arr =>
    cases error
    exact ⟨"", rfl⟩

/-- `from_msg` checks that a field is there before it reads it. -/
theorem onlyAsserts_fromMsg (msg : JsonMessage) : OnlyAsserts (fromMsg msg) := by
  apply (onlyAsserts_assertThat _ _).bind
  intro _ hasC
  apply (onlyAsserts_assertThat _ _).bind
  intro _ hasF
  apply (onlyAsserts_getItem (assertThat_eq_ok hasC)).bind
  intro c _
  apply (onlyAsserts_items c).bind
  intro cItems _
  apply (onlyAsserts_getItem (assertThat_eq_ok hasF)).bind
  intro f _
  apply (onlyAsserts_items f).bind
  intro fItems _
  apply (onlyAsserts_times cItems).bind
  intro _ _
  apply (onlyAsserts_times fItems).bind
  intro _ _
  exact onlyAsserts_ok _

/-- What `from_msg` accepts has both vectors. -/
theorem fields_of_fromMsg {msg : JsonMessage} {req : AntiEntropyReq}
    (accepted : fromMsg msg = .ok req) :
    msg.contains "c" = true ∧ msg.contains "f" = true := by
  unfold fromMsg at accepted
  obtain ⟨_, hasC, accepted⟩ := bind_eq_ok accepted
  obtain ⟨_, hasF, _⟩ := bind_eq_ok accepted
  exact ⟨assertThat_eq_ok hasC, assertThat_eq_ok hasF⟩

/-- `to_msg`. -/
def toMsg (req : AntiEntropyReq) : JsonMessage :=
  Dict.ofList [("type", .str RequestTypes.antiEntropy.name), ("c", .obj req.c.toDict),
    ("f", .obj req.f.toDict)]

end AntiEntropyReq

end Col733.Lab4

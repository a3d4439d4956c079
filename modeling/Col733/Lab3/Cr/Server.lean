import Col733.Lab3.HandleClient
import Col733.Lab3.Send
import Col733.Misc.Dict

/-!
# `CRServer` and the call to the next server

`_process_req` of one server on any message that `json.loads` returns. A SET that is not at the
tail returns what `send` to the next server returns; so `_process_req` says what is forwarded,
and the call of `send` is put behind it.
-/

namespace Col733.Lab3.Cr

open TcpClient

/-- `==` of the keys of a dictionary. On strings it is equality. -/
structure Keys where
  same : Json → Json → Bool
  str : ∀ s t, same (.str s) (.str t) = (s == t)

/-- The dictionary of a server: what was assigned, the last assignment first. -/
abbrev Store := List (Json × Json)

/-- `d[key]`, `none` for a `KeyError`. -/
def Store.getItem (keys : Keys) (d : Store) (key : Json) : Option Json :=
  (d.find? fun e => keys.same e.1 key).map Prod.snd

/-- Lists and dictionaries are not hashable. -/
def hashable : Json → Bool
  | .arr _ | .obj _ => false
  | .null | .bool _ | .int _ | .float _ | .str _ => true

/-- What `_process_req` does: it returns, it raises, or it returns what `send` returns for the
message. -/
inductive Handling where
  | returns (reply : Json)
  | raises
  | forwards (message : Json)

/-- `_get`, with the assertion of `KVGetRequest`. -/
def get (keys : Keys) (hasNext : Bool) (d : Store) (msg : Dict String Json) : Handling :=
  match msg.get? "key" with
  | none => .raises
  | some key =>
    if hasNext || !hashable key then .raises
    else
      match d.getItem keys key with
      | some val => .returns (.obj [("status", .str "OK"), ("val", val)])
      | none => .raises

/-- `_set`, with the assertions of `KVSetRequest`. -/
def set (hasNext : Bool) (d : Store) (msg : Dict String Json) : Store × Handling :=
  match msg.get? "key", msg.get? "val" with
  | some key, some val =>
    if hashable key then
      ((key, val) :: d,
        if hasNext then .forwards (.obj msg.entries) else .returns (.obj [("status", .str "OK")]))
    else (d, .raises)
  | _, _ => (d, .raises)

/-- `msg.get("type") == name`. -/
def hasType (msg : Dict String Json) (name : String) : Bool :=
  match msg.get? "type" with
  | some (.str s) => s == name
  | _ => false

/-- `_process_req`. A message that is no dictionary has no `get`. -/
def processReq (keys : Keys) (hasNext : Bool) (d : Store) : Json → Store × Handling
  | .obj items =>
    let msg := Dict.ofList items
    if hasType msg "GET" then (d, get keys hasNext d msg)
    else if hasType msg "SET" then set hasNext d msg
    else (d, .returns (.obj [("status", .str "Unexpected type")]))
  | _ => (d, .raises)

/-- `_process_req` with the call of `send`, `none` when that does not return. -/
def processed (codec : Codec) (logged : Bool) (b : Behaviour) : Handling →
    Option (Option (Option Json))
  | .returns reply => some (some (some reply))
  | .raises => some none
  | .forwards message => (send codec logged b message).map Result.returned

/-- The request has a key and a value, and the key is hashable. -/
def accepted (msg : Dict String Json) : Bool :=
  match msg.get? "key", msg.get? "val" with
  | some key, some _ => hashable key
  | _, _ => false

section Set

variable {codec : Codec} {logged : Bool} {keys : Keys} {hasNext : Bool} {d : Store}
  {b : Behaviour} {l : Loop} {rest : List (List UInt8)} {turn : Turn} {message : Json}
  {items : List (String × Json)} {msg : Dict String Json}

/-- An iteration of `handle_client` with a request leaves it unanswered exactly if
`_process_req` returns `None`. -/
theorem iterate_answers_iff (running : l.closed = false)
    (next : recvMessage codec logged l.segments = (.valid message, rest)) :
    ((l.iterate codec logged turn).closed = true ∨
      ∃ reply, (l.iterate codec logged turn).log = l.log ++ [(.valid message, some reply)]) ↔
      turn.process message ≠ some none := by
  cases finished : turn.finish codec (.valid message) with
  | none =>
    rw [iterate_of_raise running next finished]
    have other : turn.process message ≠ some none := by
      intro none
      rw [Turn.finish, Turn.reply, none] at finished
      cases finished
    exact ⟨fun _ => other, fun _ => .inl rfl⟩
  | some sent =>
    rw [iterate_of_finish running next finished]
    rw [Turn.finish, Turn.reply] at finished
    cases processed : turn.process message with
    | none =>
      rw [processed] at finished
      cases finished
    | some reply =>
      rw [processed] at finished
      cases reply with
      | none =>
        cases finished
        simp
      | some reply =>
        simp only at finished
        split at finished
        · cases finished
          simp
        · cases finished

theorem processReq_of_set (isSet : hasType (Dict.ofList items) "SET" = true) :
    processReq keys hasNext d (.obj items) = set hasNext d (Dict.ofList items) := by
  have other : hasType (Dict.ofList items) "GET" = false := by
    unfold hasType at isSet ⊢
    split at isSet
    · rw [beq_iff_eq.mp isSet]
      rfl
    · cases isSet
  rw [processReq]
  simp only [other, isSet, Bool.false_eq_true, if_false, if_true]

/-- What `_set` does. -/
theorem set_handling (hasNext : Bool) (d : Store) (msg : Dict String Json) :
    (set hasNext d msg).2 =
      if accepted msg = true then
        if hasNext = true then .forwards (.obj msg.entries)
        else .returns (.obj [("status", .str "OK")])
      else .raises := by
  unfold set accepted
  cases msg.get? "key" with
  | none => rfl
  | some key =>
    cases msg.get? "val" with
    | none => rfl
    | some val =>
      cases accepted : hashable key <;> simp [accepted]

end Set

/-- Whatever the next server does, if the call to it returns: the SET is answered with one reply
or the connection is closed, if and only if the server is the tail, or the request is refused
with an exception, or there is no socket, or the request is sent and a reply is readable. -/
theorem set_answered_iff (codec : Codec) (logged : Bool) (keys : Keys) (hasNext : Bool) (d : Store)
    (b : Behaviour) {l : Loop} {rest : List (List UInt8)} {turn : Turn}
    {items : List (String × Json)} (running : l.closed = false)
    (next : recvMessage codec logged l.segments = (.valid (.obj items), rest))
    (isSet : hasType (Dict.ofList items) "SET" = true)
    (returned : processed codec logged b (processReq keys hasNext d (.obj items)).2 =
      some (turn.process (.obj items))) :
    ((l.iterate codec logged turn).closed = true ∨
      ∃ reply, (l.iterate codec logged turn).log = l.log ++ [(.valid (.obj items), some reply)]) ↔
      hasNext = false ∨ accepted (Dict.ofList items) = false ∨ b.sock = false ∨
        (codec.serialize (.obj (Dict.ofList items).entries)).isSome = true ∧ b.sends = true ∧
          b.Readable codec logged := by
  rw [iterate_answers_iff running next]
  rw [processReq_of_set isSet, set_handling] at returned
  split_ifs at returned with ok more
  · obtain ⟨result, sent, same⟩ := Option.map_eq_some_iff.mp returned
    rw [← same, send_returned_iff sent]
    simp [ok, more]
  · cases returned_eq : turn.process (.obj items) with
    | none => simp [more]
    | some reply =>
      rw [returned_eq] at returned
      cases returned
      simp [more]
  · rw [processed] at returned
    rw [← Option.some.inj returned]
    simp [ok]

/-- Strings are the keys that occur. -/
def stringKeys : Keys where
  same
    | .str s, .str t => s == t
    | _, _ => false
  str _ _ := rfl

/-- The request of the runs below. -/
def setRequest : List (String × Json) := [("type", .str "SET"), ("key", .str "k"), ("val", .str "v")]

/-- It is received, whatever the logger does. -/
theorem exists_setRequest (logged : Bool) :
    ∃ whole rest, recvMessage (Codec.ofModule Json.objectModule) logged [whole] =
      (.valid (.obj setRequest), rest) := by
  have keeps : (Codec.ofModule Json.objectModule).Keeps (.obj setRequest) :=
    ⟨_, rfl, by decide +kernel, Json.objectModule.loads_dumps setRequest (by decide)⟩
  have refused : (Codec.ofModule Json.objectModule).loads [] = none :=
    Json.objectModule.loads_prefix [] List.nodup_nil [] List.nil_prefix (by decide +kernel)
  obtain ⟨body, whole, _, framed, sent, _⟩ := serialize_of_keeps keeps
  have segmented : Segmented [whole] := by
    intro segment member
    rw [List.mem_singleton.mp member]
    intro empty
    have length := length_of_frame framed
    rw [empty, List.length_nil] at length
    omega
  have stream : [whole].flatten = whole ++ [] := by simp
  obtain ⟨rest, received, _, _⟩ := recvMessage_message logged segmented keeps refused sent stream
  exact ⟨whole, rest, received⟩

/-- The request is a SET that is forwarded. -/
theorem processed_setRequest (codec : Codec) (logged : Bool) (b : Behaviour) :
    processed codec logged b (processReq stringKeys true [] (.obj setRequest)).2 =
      (send codec logged b (.obj (Dict.ofList setRequest).entries)).map Result.returned := rfl

/-- The next server closes the connection before it replies; the client is told so. -/
theorem set_answered_iff_eof :
    ∃ (l : Loop) (turn : Turn) (b : Behaviour), l.closed = false ∧
      processed (Codec.ofModule Json.objectModule) false b
        (processReq stringKeys true [] (.obj setRequest)).2 =
          some (turn.process (.obj setRequest)) ∧
      ((l.iterate (Codec.ofModule Json.objectModule) false turn).closed = true ∨
        ∃ reply, (l.iterate (Codec.ofModule Json.objectModule) false turn).log =
          l.log ++ [(.valid (.obj setRequest), some reply)]) := by
  obtain ⟨whole, rest, received⟩ := exists_setRequest false
  have segmented : Segmented ([] : List (List UInt8)) := fun segment member =>
    absurd member List.not_mem_nil
  have serialized : ((Codec.ofModule Json.objectModule).serialize
      (.obj (Dict.ofList setRequest).entries)).isSome = true := by decide +kernel
  let b : Behaviour :=
    { sock := true, sends := true, segments := [], segmented := segmented, ending := .eof }
  have short : b.segments.flatten.length < 8 := Nat.zero_lt_succ 7
  have ends : b.recvMessage (Codec.ofModule Json.objectModule) false =
      some (.invalid messageHeaderInvalid) := by
    rw [recvMessage_eq, if_pos short]
    rfl
  have returned : processed (Codec.ofModule Json.objectModule) false b
      (processReq stringKeys true [] (.obj setRequest)).2 =
        some (some (some (.obj [("status", .str (statusText messageHeaderInvalid))]))) := by
    rw [processed_setRequest, send, serialized, ends]
    rfl
  refine ⟨{ segments := [whole] },
    { process := fun _ => some (some (.obj [("status", .str (statusText messageHeaderInvalid))]))
      sends := true }, b, rfl, returned, ?_⟩
  refine (set_answered_iff (Codec.ofModule Json.objectModule) false stringKeys true [] b rfl
    received rfl returned).mpr (.inr (.inr (.inr ⟨serialized, rfl, ?_⟩)))
  unfold Behaviour.Readable
  dsimp only
  rw [if_pos short]

/-- `sendall` to the next server raises: `send` returns `None`, nothing is sent to the client,
and the loop goes on. -/
theorem not_set_answered :
    ∃ (l : Loop) (turn : Turn) (b : Behaviour), l.closed = false ∧
      (∃ rest, recvMessage (Codec.ofModule Json.objectModule) false l.segments =
        (.valid (.obj setRequest), rest)) ∧
      processed (Codec.ofModule Json.objectModule) false b
        (processReq stringKeys true [] (.obj setRequest)).2 =
          some (turn.process (.obj setRequest)) ∧
      ¬ ((l.iterate (Codec.ofModule Json.objectModule) false turn).closed = true ∨
        ∃ reply, (l.iterate (Codec.ofModule Json.objectModule) false turn).log =
          l.log ++ [(.valid (.obj setRequest), some reply)]) := by
  obtain ⟨whole, rest, received⟩ := exists_setRequest false
  have segmented : Segmented ([] : List (List UInt8)) := fun segment member =>
    absurd member List.not_mem_nil
  let l : Loop := { segments := [whole] }
  have next : recvMessage (Codec.ofModule Json.objectModule) false l.segments =
    (.valid (.obj setRequest), rest) := received
  refine ⟨l, { process := fun _ => some none, sends := true },
    { sock := true, sends := false, segments := [], segmented := segmented, ending := .raises },
    rfl, ⟨rest, next⟩, ?_, ?_⟩
  · rw [processed_setRequest, send, Bool.and_false]
    rfl
  · rw [iterate_answers_iff rfl next]
    exact fun differs => differs rfl

end Col733.Lab3.Cr

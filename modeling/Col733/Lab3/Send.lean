import Col733.Lab3.RecvMessage

/-!
# `send` on a connection that behaves in any way

One call of `TcpClient.send` as a function of what the connection does: whether a socket is got,
whether `sendall` returns, which bytes arrive and what comes after them.
-/

namespace Col733.Lab3.TcpClient

/-- What comes after the bytes that a peer sends. -/
inductive Ending where
  | eof
  | raises
  | silent

/-- How a connection behaves in a call of `send`. -/
structure Behaviour where
  /-- `get_sock` returns: the pool is not empty, and was connected. -/
  sock : Bool
  /-- `sendall` returns. -/
  sends : Bool
  segments : List (List UInt8)
  segmented : Segmented segments
  ending : Ending

/-- `recvall` has come to the end of what the peer sends; `none` if it waits for ever. -/
def Behaviour.cut (logged : Bool) (got : List UInt8) (b : Behaviour) : Option Received :=
  match b.ending with
  | .eof => some (endOfStream logged got)
  | .raises => some .raised
  | .silent => none

/-- `recv_message` on the connection. -/
def Behaviour.recvMessage (codec : Codec) (logged : Bool) (b : Behaviour) : Option Received :=
  match recvall 8 b.segments with
  | none => b.cut logged []
  | some (header, rest) =>
    match recvall (fromBytes header) rest with
    | none => b.cut logged header
    | some (data, _) => some (codec.received logged (header ++ data))

/-- `TcpClient.send`, blocking; `none` when it does not return. An exception after `get_sock` is
logged, and the result is `None`. -/
def send (codec : Codec) (logged : Bool) (b : Behaviour) (message : Json) : Option Result :=
  if b.sock then
    if (codec.serialize message).isSome && b.sends then
      (b.recvMessage codec logged).map Received.result
    else some .nothing
  else some .raised

/-- What a function returns that returns the result of `send`, `none` when it raises. -/
def Result.returned : Result → Option (Option Json)
  | .decoded reply => some (some reply)
  | .status text => some (some (.obj [("status", .str text)]))
  | .nothing => some none
  | .raised => none

section Send

variable {codec : Codec} {logged : Bool} {b : Behaviour} {message : Json}

/-- A reply is read, or a status is made up for it, unless an exception comes first: the bytes
are a frame whose body parses, or they end with the stream and that can be logged. -/
def Behaviour.Readable (codec : Codec) (logged : Bool) (b : Behaviour) : Prop :=
  let bytes := b.segments.flatten
  if bytes.length < 8 then b.ending = .eof
  else if bytes.length < 8 + fromBytes (bytes.take 8) then b.ending = .eof ∧ logged = true
  else
    let body := (bytes.drop 8).take (fromBytes (bytes.take 8))
    if body = [] then logged = true else (codec.loads body).isSome = true

/-- What `recvall` gets, from the bytes alone. -/
theorem recvMessage_eq (codec : Codec) (logged : Bool) (b : Behaviour) :
    b.recvMessage codec logged =
      if b.segments.flatten.length < 8 then b.cut logged []
      else if b.segments.flatten.length < 8 + fromBytes (b.segments.flatten.take 8) then
        b.cut logged (b.segments.flatten.take 8)
      else some (codec.received logged (b.segments.flatten.take 8 ++
        (b.segments.flatten.drop 8).take (fromBytes (b.segments.flatten.take 8)))) := by
  unfold Behaviour.recvMessage
  by_cases short : b.segments.flatten.length < 8
  · rw [recvall_of_lt short, if_pos short]
  · obtain ⟨rest, first, left, segmented⟩ :=
      recvall_of_le (n := 8) b.segmented (Nat.le_of_not_lt short)
    rw [first, if_neg short]
    have length : rest.flatten.length = b.segments.flatten.length - 8 := by
      rw [left, List.length_drop]
    simp only
    split_ifs with cut
    · rw [recvall_of_lt (by omega)]
    · obtain ⟨_, second, _, _⟩ :=
        recvall_of_le (n := fromBytes (b.segments.flatten.take 8)) segmented (by omega)
      rw [second, left]

theorem cut_ne_raised_iff {got : List UInt8} {received : Received}
    (ends : b.cut logged got = some received) :
    received ≠ .raised ↔ b.ending = .eof ∧ (got.length < 8 ∨ logged = true) := by
  unfold Behaviour.cut at ends
  cases ending : b.ending with
  | eof =>
    rw [ending] at ends
    cases ends
    unfold endOfStream
    by_cases short : got.length < 8
    · simp [short]
    · cases logged <;> simp [short]
  | raises =>
    rw [ending] at ends
    cases ends
    simp
  | silent =>
    rw [ending] at ends
    cases ends

theorem received_ne_raised_iff (codec : Codec) (logged : Bool) (got : List UInt8) :
    codec.received logged got ≠ .raised ↔
      if bodyOf got = [] then logged = true else (codec.loads (bodyOf got)).isSome = true := by
  unfold Codec.received
  split
  · cases logged <;> simp
  · cases codec.loads (bodyOf got) <;> simp

/-- `recv_message` does not raise exactly if a reply is readable. -/
theorem recvMessage_ne_raised_iff {received : Received}
    (ends : b.recvMessage codec logged = some received) :
    received ≠ .raised ↔ b.Readable codec logged := by
  rw [recvMessage_eq] at ends
  unfold Behaviour.Readable
  dsimp only
  split_ifs at ends ⊢ with short cut
  · rw [cut_ne_raised_iff ends]
    simp
  · rw [cut_ne_raised_iff ends, List.length_take, Nat.min_eq_left (Nat.le_of_not_lt short)]
    simp
  all_goals
    cases ends
    have header : (b.segments.flatten.take 8).length = 8 := by
      rw [List.length_take, Nat.min_eq_left (Nat.le_of_not_lt short)]
    rw [received_ne_raised_iff, bodyOf, List.drop_left' header]
    simp_all

/-- A call that has returned: it is not with `None` exactly if there was no socket, or if the
message was sent and a reply was readable. -/
theorem send_returned_iff {result : Result} (returned : send codec logged b message = some result) :
    result.returned ≠ some none ↔ b.sock = false ∨
      (codec.serialize message).isSome = true ∧ b.sends = true ∧ b.Readable codec logged := by
  unfold send at returned
  split_ifs at returned with sock sent
  · obtain ⟨received, ends, rfl⟩ := Option.map_eq_some_iff.mp returned
    rw [Bool.and_eq_true] at sent
    rw [← recvMessage_ne_raised_iff ends]
    cases received <;> simp [Received.result, Result.returned, sock, sent]
  · cases returned
    rw [Bool.and_eq_true, not_and] at sent
    simp only [Result.returned, ne_eq, not_true_eq_false, sock, Bool.true_eq_false, false_or,
      false_iff, not_and]
    exact fun serialized sends => absurd sends (sent serialized)
  · cases returned
    simp [Result.returned, sock]

end Send

end Col733.Lab3.TcpClient

import Col733.Lab3.Crosstalk
import Col733.Misc.ByteStream

/-!
# `recv_message` on a stream

The same `recv_message` as a function of the whole stream that a peer sends before it ends its
side, in the segments in which it arrives. The core of lab 4 has the same format and the same
function; its logging call does not raise.
-/

namespace Col733.Lab3.TcpClient

/-- `recv_message`, and what is left of the stream: nothing, once `recvall` has come to its
end. -/
def recvMessage (codec : Codec) (logged : Bool) (segments : List (List UInt8)) :
    Received × List (List UInt8) :=
  match recvall 8 segments with
  | none => (.invalid messageHeaderInvalid, [])
  | some (header, rest) =>
    match recvall (fromBytes header) rest with
    | none => (endOfStream logged header, [])
    | some (data, rest) => (codec.received logged (header ++ data), rest)

/-- The results of a number of calls, and what is left after them. -/
def recvMessages (codec : Codec) (logged : Bool) :
    Nat → List (List UInt8) → List Received × List (List UInt8)
  | 0, segments => ([], segments)
  | n + 1, segments =>
    let call := recvMessage codec logged segments
    let calls := recvMessages codec logged n call.2
    (call.1 :: calls.1, calls.2)

/-- The bytes of messages that are sent one after the other, `none` when `serialize` raises. -/
def serializeAll (codec : Codec) : List Json → Option (List UInt8)
  | [] => some []
  | message :: messages => do
    let whole ← codec.serialize message
    let rest ← serializeAll codec messages
    return whole ++ rest

/-- What is relied on of a message that is sent: its text has a length of eight bytes, and
`json.loads` undoes `json.dumps` on it. -/
def Codec.Keeps (codec : Codec) (message : Json) : Prop :=
  ∃ text, codec.dumps message = some text ∧ text.length < 18446744073709551616 ∧
    codec.loads text = some message

section Framing

variable {codec : Codec} {logged : Bool} {segments : List (List UInt8)} {message : Json}
  {messages : List Json} {body whole more : List UInt8}

/-- A number of less than `256 ^ w` fits into `w` bytes; here in eight. -/
theorem toBytes_of_lt {n : Nat} (small : n < 18446744073709551616) :
    ∃ bytes, toBytes 8 n = some bytes := by
  have zero : n / 256 / 256 / 256 / 256 / 256 / 256 / 256 / 256 = 0 := by omega
  unfold toBytes toBytes toBytes toBytes toBytes toBytes toBytes toBytes toBytes
  rw [if_pos zero]
  exact ⟨_, rfl⟩

theorem serialize_of_keeps (keeps : codec.Keeps message) :
    ∃ body whole, codec.dumps message = some body ∧ frame body = some whole ∧
      codec.serialize message = some whole ∧ codec.loads body = some message := by
  obtain ⟨body, dumped, small, loaded⟩ := keeps
  obtain ⟨header, written⟩ := toBytes_of_lt small
  have framed : frame body = some (header ++ body) := by
    rw [frame, written]
    rfl
  refine ⟨body, header ++ body, dumped, framed, ?_, loaded⟩
  rw [Codec.serialize, dumped]
  exact framed

/-- A stream that begins with a frame: the call takes exactly the frame. -/
theorem recvMessage_frame (codec : Codec) (logged : Bool) (segmented : Segmented segments) (framed : frame body = some whole)
    (stream : segments.flatten = whole ++ more) :
    ∃ rest, recvMessage codec logged segments = (codec.received logged whole, rest) ∧
      rest.flatten = more ∧ Segmented rest := by
  obtain ⟨header, written, rfl⟩ := Option.map_eq_some_iff.mp framed
  obtain ⟨value, length⟩ := fromBytes_toBytes written
  rw [List.append_assoc] at stream
  obtain ⟨rest, first, left, segmented'⟩ := recvall_of_le (n := 8) segmented (by
    rw [stream, List.length_append]
    omega)
  rw [stream, ← length, List.take_left, length] at first
  rw [stream, ← length, List.drop_left] at left
  obtain ⟨rest', second, left', last⟩ := recvall_of_le (n := body.length) segmented' (by
    rw [left, List.length_append]
    omega)
  rw [left, List.take_left] at second
  rw [left, List.drop_left] at left'
  refine ⟨rest', ?_, left', last⟩
  unfold recvMessage
  rw [first]
  simp only [value, second]

/-- At the end of the stream there is no message. -/
theorem recvMessage_nil (ended : segments.flatten = []) :
    recvMessage codec logged segments = (.invalid messageHeaderInvalid, []) := by
  have none : recvall 8 segments = none := recvall_of_lt (by rw [ended]; decide)
  rw [recvMessage, none]

/-- The frame of a message is received as the message. -/
theorem received_of_keeps (framed : frame body = some whole)
    (loaded : codec.loads body = some message) (refused : codec.loads [] = none) :
    codec.received logged whole = .valid message := by
  have text : bodyOf whole = body := bodyOf_frame framed
  have full : body ≠ [] := by
    rintro rfl
    rw [refused] at loaded
    cases loaded
  unfold Codec.received
  rw [text, if_neg full, loaded]

theorem recvMessage_message (logged : Bool) (segmented : Segmented segments) (keeps : codec.Keeps message)
    (refused : codec.loads [] = none) (sent : codec.serialize message = some whole)
    (stream : segments.flatten = whole ++ more) :
    ∃ rest, recvMessage codec logged segments = (.valid message, rest) ∧ rest.flatten = more ∧
      Segmented rest := by
  obtain ⟨body, whole', _, framed, serialized, loaded⟩ := serialize_of_keeps keeps
  cases serialized.symm.trans sent
  obtain ⟨rest, received, left, segmented'⟩ :=
    recvMessage_frame codec logged segmented framed stream
  rw [received_of_keeps framed loaded refused] at received
  exact ⟨rest, received, left, segmented'⟩

theorem serializeAll_cons (sent : serializeAll codec (message :: messages) = some whole) :
    ∃ first rest, codec.serialize message = some first ∧ serializeAll codec messages = some rest ∧
      whole = first ++ rest := by
  unfold serializeAll at sent
  obtain ⟨first, serialized, sent⟩ := Option.bind_eq_some_iff.mp sent
  obtain ⟨rest, later, same⟩ := Option.bind_eq_some_iff.mp sent
  exact ⟨first, rest, serialized, later, (Option.some.inj same).symm⟩

/-- The first calls return the first messages, and leave the frames of the others. -/
theorem recvMessages_take (logged : Bool) (segmented : Segmented segments)
    (keeps : ∀ message ∈ messages, codec.Keeps message) (refused : codec.loads [] = none)
    (sent : serializeAll codec messages = some segments.flatten) {k : Nat}
    (bound : k ≤ messages.length) :
    (recvMessages codec logged k segments).1 = (messages.take k).map .valid ∧
      serializeAll codec (messages.drop k) = some (recvMessages codec logged k segments).2.flatten ∧
        Segmented (recvMessages codec logged k segments).2 := by
  induction k generalizing segments messages with
  | zero => exact ⟨rfl, sent, segmented⟩
  | succ k ih =>
    cases messages with
    | nil => cases bound
    | cons message messages =>
      obtain ⟨first, more, serialized, later, stream⟩ := serializeAll_cons sent
      obtain ⟨rest, received, left, segmented'⟩ := recvMessage_message logged segmented
        (keeps message List.mem_cons_self) refused serialized stream
      have after := ih segmented' (fun m member => keeps m (List.mem_cons_of_mem _ member))
        (left ▸ later) (Nat.le_of_succ_le_succ bound)
      simp only [recvMessages, received]
      refine ⟨?_, after.2⟩
      rw [after.1]
      rfl

theorem recvMessages_succ (n : Nat) :
    (recvMessages codec logged (n + 1) segments).1 = (recvMessages codec logged n segments).1 ++
      [(recvMessage codec logged (recvMessages codec logged n segments).2).1] := by
  induction n generalizing segments with
  | zero => rfl
  | succ n ih =>
    rw [recvMessages, ih]
    rfl

end Framing

/-- However the bytes are segmented: the first calls of `recv_message` return exactly the
messages that were sent, in order, each call taking one frame, and the call after the last one
returns no message. -/
theorem framing_is_lossless (codec : Codec) (logged : Bool) (messages : List Json)
    (keeps : ∀ message ∈ messages, codec.Keeps message) (refused : codec.loads [] = none)
    {segments : List (List UInt8)} (segmented : Segmented segments)
    (sent : serializeAll codec messages = some segments.flatten) :
    (∀ k ≤ messages.length,
      (recvMessages codec logged k segments).1 = (messages.take k).map .valid ∧
        serializeAll codec (messages.drop k) =
          some (recvMessages codec logged k segments).2.flatten) ∧
    (recvMessages codec logged (messages.length + 1) segments).1 =
      messages.map .valid ++ [.invalid messageHeaderInvalid] := by
  constructor
  · intro k bound
    obtain ⟨results, left, _⟩ :=
      recvMessages_take logged segmented keeps refused sent bound
    exact ⟨results, left⟩
  · obtain ⟨results, left, _⟩ := recvMessages_take logged segmented keeps refused sent
      (Nat.le_refl messages.length)
    rw [List.drop_length] at left
    rw [recvMessages_succ, results, List.take_length,
      recvMessage_nil (Option.some.inj left).symm]

/-- Two messages that are empty dictionaries; the second segment begins and ends in the middle
of the first frame. -/
theorem framing_is_lossless_two :
    (recvMessages (Codec.ofModule Json.objectModule) false 3
      [[0, 0, 0], [0, 0, 0, 0, 2, 123], [125, 0, 0, 0, 0, 0, 0, 0, 2, 123, 125]]).1 =
      [.valid (.obj []), .valid (.obj []), .invalid messageHeaderInvalid] := by
  have keeps : (Codec.ofModule Json.objectModule).Keeps (.obj []) :=
    ⟨_, rfl, by decide +kernel, Json.objectModule.loads_dumps [] List.nodup_nil⟩
  have refused : (Codec.ofModule Json.objectModule).loads [] = none :=
    Json.objectModule.loads_prefix [] List.nodup_nil [] List.nil_prefix (by decide +kernel)
  have segmented : Segmented
      [[0, 0, 0], [0, 0, 0, 0, 2, 123], [125, 0, 0, 0, 0, 0, 0, 0, 2, 123, (125 : UInt8)]] := by
    simp [Segmented]
  have lossless := framing_is_lossless (Codec.ofModule Json.objectModule) false
    [.obj [], .obj []] (by
      intro message member
      rcases List.mem_pair.mp member with same | same <;> exact same ▸ keeps) refused
    segmented (by decide +kernel)
  exact lossless.2

end Col733.Lab3.TcpClient

import Col733.Lab3.HandleClient

/-!
# What the result of `recv_message` tells

A stream ends inside the header of a message, inside its body, or behind it. The three error
codes are one number, so a result without a message tells only that something was missing, and
the text that both sides look up for it is always the one about the body.
-/

namespace Col733.Lab3.TcpClient

/-- The body that the header of a stream announces, as far as it is there. -/
def announced (stream : List UInt8) : List UInt8 :=
  (stream.drop 8).take (fromBytes (stream.take 8))

/-- The stream begins with a whole message: a header that announces a body of at least one byte,
and that many bytes after it. -/
def Whole (stream : List UInt8) : Prop :=
  8 ≤ stream.length ∧ 0 < fromBytes (stream.take 8) ∧ 8 + fromBytes (stream.take 8) ≤ stream.length

/-- The text of `STATUS_CODE` for the part of the message that is missing. -/
def missingText (stream : List UInt8) : String :=
  if stream.length < 8 then
    "Invalid Message Format from the client: 1st 8 bytes should be message length"
  else "Invalid Message Format from the client: next \x7bmsglen\x7d bytes must be message"

/-- The error code that `recv_message` returns. -/
def Received.errCode : Received → Option Nat
  | .invalid errCode => some errCode
  | .valid _ => some messageValid
  | .raised => none

/-- The result tells what arrived: a message exactly if a whole one did and it is JSON, else the
code of the part that is missing, which stands for the text about this part. -/
structure Tells (codec : Codec) (stream : List UInt8) (received : Received) : Prop where
  message : (∃ message, received = .valid message) ↔
    Whole stream ∧ (codec.loads (announced stream)).isSome = true
  header : received = .invalid messageHeaderInvalid ↔ stream.length < 8
  body : received = .invalid messageBodyInvalid ↔ 8 ≤ stream.length ∧
    (stream.length < 8 + fromBytes (stream.take 8) ∨ fromBytes (stream.take 8) = 0)
  text : ∀ errCode, received = .invalid errCode → statusText errCode = missingText stream

section Whole

variable {codec : Codec} {logged : Bool} {segments : List (List UInt8)} {received : Received}
  {stream : List UInt8}

/-- A whole message is taken for what its body is. -/
theorem recvMessage_whole (codec : Codec) (logged : Bool) (segmented : Segmented segments)
    (whole : Whole segments.flatten) :
    (recvMessage codec logged segments).1 =
      (codec.loads (announced segments.flatten)).elim .raised .valid := by
  generalize stream : segments.flatten = bytes at whole
  obtain ⟨_, some_, complete⟩ := whole
  generalize length : fromBytes (bytes.take 8) = n at some_ complete
  have header : (bytes.take (8 + n)).take 8 = bytes.take 8 := by
    rw [List.take_take, Nat.min_eq_left (Nat.le_add_right 8 n)]
  have framed : frame (bodyOf (bytes.take (8 + n))) = some (bytes.take (8 + n)) := by
    apply frame_bodyOf
    rw [header, length, List.length_take, Nat.min_eq_left complete]
  have body : bodyOf (bytes.take (8 + n)) = announced bytes := by
    rw [bodyOf, List.drop_take, announced, length, Nat.add_sub_cancel_left]
  have full : announced bytes ≠ [] := by
    rw [announced, length, ← List.length_pos_iff, List.length_take, List.length_drop]
    omega
  obtain ⟨rest, taken, _⟩ := recvMessage_frame codec logged segmented framed
    (stream.trans (List.take_append_drop (8 + n) bytes).symm)
  rw [taken, Codec.received, body, if_neg full]
  cases codec.loads (announced bytes) <;> rfl

/-- A code for a missing part is the code for the other one as well. -/
theorem whole_of_tells (tells : Tells codec stream received) : Whole stream := by
  by_contra broken
  by_cases short : stream.length < 8
  · have returned : received = .invalid messageBodyInvalid := tells.header.mpr short
    have := (tells.body.mp returned).1
    omega
  · have cut : stream.length < 8 + fromBytes (stream.take 8) ∨ fromBytes (stream.take 8) = 0 := by
      by_contra neither
      rw [not_or] at neither
      exact broken ⟨by omega, by omega, by omega⟩
    have returned : received = .invalid messageHeaderInvalid :=
      tells.body.mpr ⟨Nat.le_of_not_lt short, cut⟩
    exact short (tells.header.mp returned)

/-- A whole message leaves nothing to tell about missing parts. -/
theorem tells_of_whole (segmented : Segmented segments) (whole : Whole segments.flatten) :
    Tells codec segments.flatten (recvMessage codec logged segments).1 := by
  obtain ⟨long, some_, complete⟩ := id whole
  have result := recvMessage_whole codec logged segmented whole
  have invalid : ∀ errCode, (recvMessage codec logged segments).1 ≠ .invalid errCode := by
    intro errCode
    rw [result]
    cases codec.loads (announced segments.flatten) <;> simp
  constructor
  case message =>
    rw [result, and_iff_right whole]
    cases codec.loads (announced segments.flatten) <;> simp
  case header => exact iff_of_false (invalid _) (Nat.not_lt.mpr long)
  case body =>
    refine iff_of_false (invalid _) ?_
    rintro ⟨_, cut | zero⟩ <;> omega
  case text => exact fun errCode returned => absurd returned (invalid errCode)

/-- Every code that is returned is the same number. -/
theorem errCode_recvMessage {errCode : Nat}
    (returned : (recvMessage codec logged segments).1.errCode = some errCode) : errCode = 0 := by
  have ended : ∀ got, (endOfStream logged got).errCode = some errCode → errCode = 0 := by
    intro got
    unfold endOfStream
    split_ifs <;> exact fun code => by cases code <;> rfl
  have received : ∀ got, (codec.received logged got).errCode = some errCode → errCode = 0 := by
    intro got
    unfold Codec.received
    split_ifs
    · exact fun code => by cases code; rfl
    · exact fun code => by cases code
    · cases codec.loads (bodyOf got) <;> exact fun code => by cases code <;> rfl
  unfold recvMessage at returned
  split at returned
  · cases returned
    rfl
  · split at returned
    · exact ended _ returned
    · exact received _ returned

end Whole

/-- However the bytes are segmented: the result tells what arrived exactly if a whole message
did. The code alone never does: whatever is returned, its code is that of all three outcomes. -/
theorem recv_message_tells_iff (codec : Codec) (logged : Bool) {segments : List (List UInt8)}
    (segmented : Segmented segments) :
    (Tells codec segments.flatten (recvMessage codec logged segments).1 ↔ Whole segments.flatten) ∧
      ∀ errCode, (recvMessage codec logged segments).1.errCode = some errCode →
        errCode = messageValid ∧ errCode = messageHeaderInvalid ∧ errCode = messageBodyInvalid := by
  refine ⟨⟨whole_of_tells, tells_of_whole segmented⟩, fun errCode returned => ?_⟩
  have zero := errCode_recvMessage returned
  exact ⟨zero, zero, zero⟩

/-- A message in three pieces, and the beginning of another one. -/
theorem recv_message_tells_iff_three :
    Tells (Codec.ofModule Json.objectModule) [0, 0, 0, 0, 0, 0, 0, 2, 123, 125, 0]
        (recvMessage (Codec.ofModule Json.objectModule) false
          [[0, 0, 0], [0, 0, 0, 0, 2, 123], [125, 0]]).1 ∧
      ∀ errCode, (recvMessage (Codec.ofModule Json.objectModule) false
          [[0, 0, 0], [0, 0, 0, 0, 2, 123], [125, 0]]).1.errCode = some errCode →
        errCode = messageValid ∧ errCode = messageHeaderInvalid ∧ errCode = messageBodyInvalid := by
  have segmented : Segmented [[0, 0, 0], [0, 0, 0, 0, 2, 123], [125, (0 : UInt8)]] := by
    simp [Segmented]
  have whole : Whole [0, 0, 0, 0, 0, 0, 0, 2, 123, 125, 0] := by
    unfold Whole
    decide
  obtain ⟨tells, code⟩ := recv_message_tells_iff (Codec.ofModule Json.objectModule) false segmented
  exact ⟨tells.mpr whole, code⟩

/-- Three bytes are a message cut short, which no result tells. -/
theorem not_recv_message_tells :
    ¬ ∀ (codec : Codec) logged segments, Segmented segments →
      Tells codec segments.flatten (recvMessage codec logged segments).1 := by
  intro tells
  have segmented : Segmented [[0, 0], [(0 : UInt8)]] := by simp [Segmented]
  have short := (whole_of_tells (tells (Codec.ofModule Json.objectModule) false _ segmented)).1
  revert short
  decide

end Col733.Lab3.TcpClient

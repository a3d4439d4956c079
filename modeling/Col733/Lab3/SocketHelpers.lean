import Col733.Misc.Dict

/-!
# `core/socket_helpers.py`

The status codes and their texts. The three codes are the same number, so the
table is a dictionary with one key, holding the text that was assigned last.
-/

namespace Col733.Lab3

def messageValid : Nat := 0
def messageHeaderInvalid : Nat := 0
def messageBodyInvalid : Nat := 0

/-- `STATUS_CODE`. -/
def statusCode : Dict Nat String :=
  Dict.ofList [
    (messageValid, "Message Valid"),
    (messageHeaderInvalid,
      "Invalid Message Format from the client: 1st 8 bytes should be message length"),
    (messageBodyInvalid,
      "Invalid Message Format from the client: next \x7bmsglen\x7d bytes must be message")]

/-- `STATUS_CODE[err_code]`; every code that `recv_message` returns is in the table. -/
def statusText (errCode : Nat) : String := (statusCode.get? errCode).getD ""

/-- Whatever was missing, the text is the one about the body. -/
theorem statusText_eq (errCode : Nat)
    (known : errCode = messageValid ∨ errCode = messageHeaderInvalid ∨
      errCode = messageBodyInvalid) :
    statusText errCode =
      "Invalid Message Format from the client: next \x7bmsglen\x7d bytes must be message" := by
  rcases known with rfl | rfl | rfl <;> rfl

end Col733.Lab3

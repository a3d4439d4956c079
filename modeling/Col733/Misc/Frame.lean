import Mathlib.Data.List.Basic
import Mathlib.Data.List.Infix

/-!
# Frames with a length in front

A frame is a body with its length before it, in eight bytes, the highest one first. A reader
that has got the beginning of a frame asks for what is missing of the length, and then for
what is missing of the body; so it never takes a byte behind the frame, and it has the frame
exactly when nothing is missing.
-/

namespace Col733

/-- `n.to_bytes(w, "big")`, which raises when the number does not fit. -/
def toBytes : Nat → Nat → Option (List UInt8)
  | 0, n => if n = 0 then some [] else none
  | w + 1, n => (toBytes w (n / 256)).map fun bytes => bytes ++ [n.toUInt8]

/-- `int.from_bytes(bytes, "big")`. -/
def fromBytes (bytes : List UInt8) : Nat := bytes.foldl (fun n b => n * 256 + b.toNat) 0

theorem fromBytes_concat (bytes : List UInt8) (b : UInt8) :
    fromBytes (bytes ++ [b]) = fromBytes bytes * 256 + b.toNat := by
  rw [fromBytes, List.foldl_append]
  rfl

/-- The number is read back, from as many bytes as were asked for. -/
theorem fromBytes_toBytes {w n : Nat} {bytes : List UInt8} (written : toBytes w n = some bytes) :
    fromBytes bytes = n ∧ bytes.length = w := by
  induction w generalizing n bytes with
  | zero =>
    unfold toBytes at written
    split at written
    · rename_i zero
      cases written
      exact ⟨zero.symm, rfl⟩
    · cases written
  | succ w ih =>
    unfold toBytes at written
    obtain ⟨front, high, rfl⟩ := Option.map_eq_some_iff.mp written
    obtain ⟨value, length⟩ := ih high
    constructor
    · have low : n.toUInt8.toNat = n % 256 := rfl
      rw [fromBytes_concat, value, low]
      omega
    · rw [List.length_append, length]
      rfl

/-- Writing undoes reading. -/
theorem toBytes_fromBytes (bytes : List UInt8) :
    toBytes bytes.length (fromBytes bytes) = some bytes := by
  induction bytes using List.reverseRecOn with
  | nil => rfl
  | append_singleton front b ih =>
    have small := b.toNat_lt
    have high : (fromBytes front * 256 + b.toNat) / 256 = fromBytes front := by omega
    have low : (fromBytes front * 256 + b.toNat).toUInt8 = b := by
      apply UInt8.toNat_inj.mp
      show (fromBytes front * 256 + b.toNat) % 256 = b.toNat
      omega
    rw [List.length_append, List.length_singleton, fromBytes_concat, toBytes, high, ih, low]
    rfl

/-- The length of the body and the body; it raises when the length takes more than eight
bytes. -/
def frame (body : List UInt8) : Option (List UInt8) :=
  (toBytes 8 body.length).map fun header => header ++ body

/-- How many bytes a reader that has got these asks for. -/
def missing (got : List UInt8) : Nat :=
  if got.length < 8 then 8 - got.length else 8 + fromBytes (got.take 8) - got.length

/-- The body, for a reader that has the whole frame. -/
def bodyOf (got : List UInt8) : List UInt8 := got.drop 8

section Reading

variable {body whole got : List UInt8}

theorem length_of_frame (framed : frame body = some whole) : whole.length = 8 + body.length := by
  obtain ⟨header, written, rfl⟩ := Option.map_eq_some_iff.mp framed
  rw [List.length_append, (fromBytes_toBytes written).2]

/-- Of the beginning of a frame exactly the rest is missing, once the length has been read;
before, the rest of the length is. -/
theorem missing_of_beginning (framed : frame body = some whole) (beginning : got <+: whole) :
    missing got = (if got.length < 8 then 8 else whole.length) - got.length := by
  obtain ⟨header, written, rfl⟩ := Option.map_eq_some_iff.mp framed
  obtain ⟨value, length⟩ := fromBytes_toBytes written
  unfold missing
  split
  · rfl
  · rename_i long
    have header_eq : got.take 8 = header := by
      rw [List.prefix_iff_eq_take.mp beginning, List.take_take, ← length,
        Nat.min_eq_left (by omega), List.take_left]
    rw [header_eq, value, List.length_append, length]

/-- When nothing is missing, the whole frame is there. -/
theorem eq_of_missing_zero (framed : frame body = some whole) (beginning : got <+: whole)
    (complete : missing got = 0) : got = whole := by
  rw [missing_of_beginning framed beginning] at complete
  have short := beginning.length_le
  apply beginning.eq_of_length
  split at complete <;> omega

theorem bodyOf_frame (framed : frame body = some whole) : bodyOf whole = body := by
  obtain ⟨header, written, rfl⟩ := Option.map_eq_some_iff.mp framed
  rw [bodyOf, ← (fromBytes_toBytes written).2, List.drop_left]

/-- Bytes with their own length in front are a frame. -/
theorem frame_bodyOf (length : got.length = 8 + fromBytes (got.take 8)) :
    frame (bodyOf got) = some got := by
  have header : (got.take 8).length = 8 := by
    rw [List.length_take]
    omega
  have written := toBytes_fromBytes (got.take 8)
  rw [header] at written
  have body : (bodyOf got).length = fromBytes (got.take 8) := by
    rw [bodyOf, List.length_drop, length, Nat.add_sub_cancel_left]
  rw [frame, body, written, Option.map_some, bodyOf, List.take_append_drop]

end Reading

end Col733

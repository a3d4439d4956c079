import Mathlib.Data.List.Basic
import Mathlib.Data.List.TakeDrop

/-!
# Byte streams in segments

What a socket delivers: the segments in which the bytes of the stream arrive, then the
end of the stream. `recv k` returns the next segment, or as much of it as fits into `k`
bytes; every sequence of results that `recv` can return on a stream is that of some list
of segments. `recvall` is the loop that both labs write over it. The main rule is that
the segments do not matter: `recvall n` returns the first `n` bytes of the stream.
-/

namespace Col733

variable {α : Type}

/-- `sock.recv(k)`, and the segments that are left. Nothing is left to receive at the end
of the stream. -/
def recv (k : Nat) : List (List α) → List α × List (List α)
  | [] => ([], [])
  | segment :: rest =>
    if segment.length ≤ k then (segment, rest) else (segment.take k, segment.drop k :: rest)

/-- No segment is empty. -/
def Segmented (segments : List (List α)) : Prop := ∀ segment ∈ segments, segment ≠ []

theorem recv_flatten (k : Nat) (segments : List (List α)) :
    (recv k segments).1 ++ (recv k segments).2.flatten = segments.flatten := by
  cases segments with
  | nil => rfl
  | cons segment rest =>
    simp only [recv]
    split
    · rfl
    · rw [List.flatten_cons, List.flatten_cons, ← List.append_assoc, List.take_append_drop]

theorem length_recv_le (k : Nat) (segments : List (List α)) :
    (recv k segments).1.length ≤ k := by
  cases segments with
  | nil => exact Nat.zero_le k
  | cons segment rest =>
    simp only [recv]
    split
    · assumption
    · exact List.length_take_le k segment

/-- Something is received as long as something is there. -/
theorem recv_ne_nil {k : Nat} {segments : List (List α)} (whole : Segmented segments)
    (present : segments ≠ []) (pos : 0 < k) : (recv k segments).1 ≠ [] := by
  cases segments with
  | nil => exact absurd rfl present
  | cons segment rest =>
    simp only [recv]
    split
    · exact whole segment List.mem_cons_self
    · rename_i longer
      intro empty
      have := congrArg List.length empty
      rw [List.length_take, List.length_nil] at this
      omega

theorem segmented_recv {segments : List (List α)} (whole : Segmented segments) (k : Nat) :
    Segmented (recv k segments).2 := by
  cases segments with
  | nil => exact whole
  | cons segment rest =>
    have later : Segmented rest := fun s member => whole s (List.mem_cons_of_mem _ member)
    simp only [recv]
    split
    · exact later
    · rename_i longer
      intro s member
      rcases List.mem_cons.mp member with rfl | inRest
      · intro empty
        have := List.drop_eq_nil_iff.mp empty
        omega
      · exact later s inRest

/-- `recvall(sock, n)`: the bytes and the segments that are left, or `none` when the stream
ends before. -/
def recvall (n : Nat) (segments : List (List α)) : Option (List α × List (List α)) :=
  if n = 0 then some ([], segments)
  else
    match recv n segments with
    | ([], _) => none
    | (b :: packet, rest) =>
      (recvall (n - (packet.length + 1)) rest).map fun (data, rest) => (b :: packet ++ data, rest)
termination_by n

/-- As long as there are enough bytes, the first ones are returned. -/
theorem recvall_of_le {n : Nat} {segments : List (List α)} (whole : Segmented segments)
    (enough : n ≤ segments.flatten.length) :
    ∃ rest, recvall n segments = some (segments.flatten.take n, rest) ∧
      rest.flatten = segments.flatten.drop n ∧ Segmented rest := by
  induction n using Nat.strongRecOn generalizing segments with
  | ind n ih =>
    rw [recvall]
    by_cases done : n = 0
    · subst done
      exact ⟨segments, by simp, by simp, whole⟩
    · rw [if_neg done]
      have present : segments ≠ [] := by
        rintro rfl
        exact done (Nat.le_zero.mp enough)
      have received := recv_ne_nil whole present (Nat.pos_of_ne_zero done)
      have bound := length_recv_le n segments
      have stream := recv_flatten n segments
      have left := segmented_recv whole n
      rcases first : recv n segments with ⟨packet, rest⟩
      rw [first] at received bound stream left
      dsimp only at received bound stream left
      cases packet with
      | nil => exact absurd rfl received
      | cons b packet =>
        simp only [List.length_cons] at bound
        have total := congrArg List.length stream
        rw [List.length_append, List.length_cons] at total
        obtain ⟨rest', more, drained, whole'⟩ :=
          ih (n - (packet.length + 1)) (by omega) left (by omega)
        have front : (b :: packet).length ≤ n := bound
        refine ⟨rest', ?_, ?_, whole'⟩
        · simp only [more, Option.map_some, ← stream]
          rw [List.take_append, List.take_of_length_le front]
          rfl
        · rw [drained, ← stream, List.drop_append, List.drop_of_length_le front]
          rfl

theorem recvall_of_lt {n : Nat} {segments : List (List α)}
    (short : segments.flatten.length < n) : recvall n segments = none := by
  induction n using Nat.strongRecOn generalizing segments with
  | ind n ih =>
    rw [recvall, if_neg (by omega)]
    have stream := recv_flatten n segments
    rcases first : recv n segments with ⟨packet, rest⟩
    rw [first] at stream
    dsimp only at stream
    cases packet with
    | nil => rfl
    | cons b packet =>
      have total := congrArg List.length stream
      rw [List.length_append, List.length_cons] at total
      simp only
      rw [ih (n - (packet.length + 1)) (by omega) (by omega)]
      rfl

/-- What `recvall` takes is gone from the stream. -/
theorem length_of_recvall {n : Nat} {segments rest : List (List α)} {data : List α}
    (received : recvall n segments = some (data, rest)) :
    rest.flatten.length + n = segments.flatten.length := by
  induction n using Nat.strongRecOn generalizing segments data with
  | ind n ih =>
    rw [recvall] at received
    by_cases done : n = 0
    · rw [if_pos done] at received
      cases received
      omega
    · rw [if_neg done] at received
      have stream := recv_flatten n segments
      have bound := length_recv_le n segments
      rcases first : recv n segments with ⟨packet, rest'⟩
      rw [first] at stream bound received
      dsimp only at stream bound received
      cases packet with
      | nil => cases received
      | cons b packet =>
        obtain ⟨⟨more, last⟩, later, same⟩ := Option.map_eq_some_iff.mp received
        cases same
        simp only [List.length_cons] at bound
        have total := congrArg List.length stream
        rw [List.length_append, List.length_cons] at total
        have := ih (n - (packet.length + 1)) (by omega) later
        omega

end Col733

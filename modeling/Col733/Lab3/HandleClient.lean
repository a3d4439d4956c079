import Col733.Lab3.RecvMessage
import Mathlib.Data.Nat.Find

/-!
# The loop of `handle_client`

One thread of `handle_client` on everything that its peer sends before it ends its side. An
iteration receives a message, has it processed or makes up an error reply, and sends what there
is to send; an exception anywhere ends the loop and closes the socket, and nothing else does.
What `_process_req` returns and whether `sendall` succeeds are those of the iteration.
-/

namespace Col733.Lab3.TcpClient

/-- What an iteration depends on beside the stream. -/
structure Turn where
  /-- `_process_req`, `none` when it raises. -/
  process : Json → Option (Option Json)
  /-- `sendall` returns. -/
  sends : Bool

namespace Turn

variable (codec : Codec) (turn : Turn)

/-- The reply that there is to send, `some none` if there is none, and `none` after an
exception. -/
def reply : Received → Option (Option Json)
  | .invalid errCode => some (some (errorReply errCode))
  | .valid message => turn.process message
  | .raised => none

/-- The iteration after `recv_message`: the reply that is sent. -/
def finish (received : Received) : Option (Option Json) :=
  match turn.reply received with
  | none => none
  | some none => some none
  | some (some reply) =>
    if (codec.serialize reply).isSome && turn.sends then some (some reply) else none

end Turn

/-- The loop between two iterations: what is left of the stream, what each iteration has
received and sent, and whether the socket is closed. -/
structure Loop where
  segments : List (List UInt8)
  log : List (Received × Option Json) := []
  closed : Bool := false

/-- One iteration. -/
def Loop.iterate (codec : Codec) (logged : Bool) (turn : Turn) (l : Loop) : Loop :=
  if l.closed then l
  else
    let (received, rest) := recvMessage codec logged l.segments
    match turn.finish codec received with
    | none => { segments := rest, log := l.log ++ [(received, none)], closed := true }
    | some sent => { segments := rest, log := l.log ++ [(received, sent)] }

/-- The first iterations of `handle_client`. -/
def handleClient (codec : Codec) (logged : Bool) (turns : Nat → Turn)
    (segments : List (List UInt8)) : Nat → Loop
  | 0 => { segments := segments }
  | n + 1 => (handleClient codec logged turns segments n).iterate codec logged (turns n)

/-- A peer has sent `wholes`, and the loop has been left: its first iterations have received
all of these frames, in order and each one once, and after them there was at most one more
reply. -/
structure Loop.Stopped (codec : Codec) (logged : Bool) (wholes : List (List UInt8)) (l : Loop) :
    Prop where
  closed : l.closed = true
  frames : (l.log.map Prod.fst).take wholes.length = wholes.map (codec.received logged)
  error : ((l.log.drop wholes.length).filter fun entry => entry.2.isSome).length ≤ 1

/-- The iteration gets to its end on the frame. -/
def Turn.serves (codec : Codec) (logged : Bool) (turn : Turn) (whole : List UInt8) : Bool :=
  (turn.finish codec (codec.received logged whole)).isSome

/-- No frame that has another one behind it raises, and then something does: the last frame,
the body of a truncated one, which cannot be logged, or one of the first two error replies
after the frames. -/
def EndsAfterFrames (codec : Codec) (logged : Bool) (turns : Nat → Turn)
    (wholes : List (List UInt8)) (truncated : List UInt8) : Prop :=
  (∀ i, ∀ inside : i < wholes.length, i + 1 < wholes.length →
    (turns i).serves codec logged wholes[i] = true) ∧
  ((∃ i, ∃ inside : i < wholes.length, i + 1 = wholes.length ∧
      (turns i).serves codec logged wholes[i] = false) ∨
    (logged = false ∧ 8 ≤ truncated.length) ∨ (turns wholes.length).sends = false ∨
      (turns (wholes.length + 1)).sends = false)

section Loop

variable {codec : Codec} {logged : Bool} {turns : Nat → Turn} {segments : List (List UInt8)}
  {wholes : List (List UInt8)} {truncated : List UInt8} {n m : Nat} {l : Loop} {turn : Turn}

theorem iterate_of_closed (closed : l.closed = true) : l.iterate codec logged turn = l := by
  rw [Loop.iterate, if_pos closed]

theorem iterate_of_finish {received : Received} {rest : List (List UInt8)} {sent : Option Json}
    (running : l.closed = false) (next : recvMessage codec logged l.segments = (received, rest))
    (finished : turn.finish codec received = some sent) :
    l.iterate codec logged turn = { segments := rest, log := l.log ++ [(received, sent)] } := by
  simp only [Loop.iterate, running, next, finished, Bool.false_eq_true, if_false]

theorem iterate_of_raise {received : Received} {rest : List (List UInt8)}
    (running : l.closed = false) (next : recvMessage codec logged l.segments = (received, rest))
    (raised : turn.finish codec received = none) :
    l.iterate codec logged turn =
      { segments := rest, log := l.log ++ [(received, none)], closed := true } := by
  simp only [Loop.iterate, running, next, raised, Bool.false_eq_true, if_false]

/-- An iteration only adds to the log. -/
theorem log_iterate (l : Loop) : l.log <+: (l.iterate codec logged turn).log := by
  cases running : l.closed with
  | true => rw [iterate_of_closed running]
  | false =>
    cases finished : turn.finish codec (recvMessage codec logged l.segments).1 with
    | none =>
      rw [iterate_of_raise running rfl finished]
      exact List.prefix_append _ _
    | some sent =>
      rw [iterate_of_finish running rfl finished]
      exact List.prefix_append _ _

/-- Nothing changes once the loop has been left. -/
theorem handleClient_of_closed (closed : (handleClient codec logged turns segments n).closed = true)
    (later : n ≤ m) :
    handleClient codec logged turns segments m = handleClient codec logged turns segments n := by
  induction later with
  | refl => rfl
  | step _ ih => rw [handleClient, ih, iterate_of_closed closed]

theorem log_handleClient (codec : Codec) (logged : Bool) (turns : Nat → Turn)
    (segments : List (List UInt8)) (later : n ≤ m) :
    (handleClient codec logged turns segments n).log <+:
      (handleClient codec logged turns segments m).log := by
  induction later with
  | refl => exact List.prefix_refl _
  | step _ ih => exact ih.trans (log_iterate _)

/-- The first iterations, as long as each gets to its end on its frame. -/
theorem handleClient_frames (framed : ∀ whole ∈ wholes, ∃ body, frame body = some whole)
    (segmented : Segmented segments) (stream : segments.flatten = wholes.flatten ++ truncated)
    (bound : n ≤ wholes.length)
    (served : ∀ i (h : i < wholes.length), i < n → (turns i).serves codec logged wholes[i] = true) :
    (handleClient codec logged turns segments n).closed = false ∧
      (handleClient codec logged turns segments n).log.map Prod.fst =
        (wholes.take n).map (codec.received logged) ∧
      Segmented (handleClient codec logged turns segments n).segments ∧
      (handleClient codec logged turns segments n).segments.flatten =
        (wholes.drop n).flatten ++ truncated := by
  induction n with
  | zero => exact ⟨rfl, rfl, segmented, stream⟩
  | succ n ih =>
    obtain ⟨running, log, segmented', left⟩ :=
      ih (Nat.le_of_succ_le bound) fun i h before => served i h (Nat.lt_succ_of_lt before)
    have inside : n < wholes.length := bound
    rw [List.drop_eq_getElem_cons inside, List.flatten_cons, List.append_assoc] at left
    obtain ⟨body, framed_n⟩ := framed wholes[n] (List.getElem_mem inside)
    obtain ⟨rest, next, rest_left, rest_segmented⟩ :=
      recvMessage_frame codec logged segmented' framed_n left
    obtain ⟨sent, finished⟩ := Option.isSome_iff_exists.mp (served n inside (Nat.lt_succ_self n))
    rw [handleClient, iterate_of_finish running next finished]
    refine ⟨rfl, ?_, rest_segmented, rest_left⟩
    rw [List.map_append, log, List.take_add_one, List.getElem?_eq_getElem inside, List.map_append]
    rfl

/-- The first frame on which an iteration raises is the last one that is received. -/
theorem handleClient_raise (framed : ∀ whole ∈ wholes, ∃ body, frame body = some whole)
    (segmented : Segmented segments) (stream : segments.flatten = wholes.flatten ++ truncated)
    (inside : n < wholes.length)
    (served : ∀ i (h : i < wholes.length), i < n → (turns i).serves codec logged wholes[i] = true)
    (raises : (turns n).serves codec logged wholes[n] = false) :
    (handleClient codec logged turns segments (n + 1)).closed = true ∧
      (handleClient codec logged turns segments (n + 1)).log.map Prod.fst =
        (wholes.take (n + 1)).map (codec.received logged) := by
  obtain ⟨running, log, segmented', left⟩ :=
    handleClient_frames framed segmented stream (Nat.le_of_lt inside) served
  rw [List.drop_eq_getElem_cons inside, List.flatten_cons, List.append_assoc] at left
  obtain ⟨body, framed_n⟩ := framed wholes[n] (List.getElem_mem inside)
  obtain ⟨rest, next, _, _⟩ :=
    recvMessage_frame codec logged segmented' framed_n left
  have raised : (turns n).finish codec (codec.received logged wholes[n]) = none := by
    rw [Turn.serves] at raises
    exact Option.not_isSome_iff_eq_none.mp (by rw [raises]; exact Bool.false_ne_true)
  rw [handleClient, iterate_of_raise running next raised]
  refine ⟨rfl, ?_⟩
  rw [List.map_append, log, List.take_add_one, List.getElem?_eq_getElem inside, List.map_append]
  rfl

/-- The frames behind it are never received. -/
theorem not_stopped_of_raise (framed : ∀ whole ∈ wholes, ∃ body, frame body = some whole)
    (segmented : Segmented segments) (stream : segments.flatten = wholes.flatten ++ truncated)
    (inside : n < wholes.length) (behind : n + 1 < wholes.length)
    (served : ∀ i (h : i < wholes.length), i < n → (turns i).serves codec logged wholes[i] = true)
    (raises : (turns n).serves codec logged wholes[n] = false) (m : Nat) :
    ¬ (handleClient codec logged turns segments m).Stopped codec logged wholes := by
  intro stopped
  obtain ⟨closed, log⟩ := handleClient_raise framed segmented stream inside served raises
  have received : wholes.length ≤ (handleClient codec logged turns segments m).log.length := by
    have lengths := congrArg List.length stopped.frames
    rw [List.length_take, List.length_map, List.length_map] at lengths
    omega
  have last : (handleClient codec logged turns segments (n + 1)).log.length = n + 1 := by
    have lengths := congrArg List.length log
    rw [List.length_map, List.length_map, List.length_take] at lengths
    omega
  rcases Nat.le_total m (n + 1) with earlier | later
  · have grows := (log_handleClient codec logged turns segments earlier).length_le
    omega
  · rw [handleClient_of_closed closed later] at received
    omega

/-- A loop that has been left after all frames, with at most one more reply. -/
theorem stopped_of_log {front tail : List (Received × Option Json)} (closed : l.closed = true)
    (log : l.log = front ++ tail) (dealt : front.map Prod.fst = wholes.map (codec.received logged))
    (error : (tail.filter fun entry => entry.2.isSome).length ≤ 1) :
    l.Stopped codec logged wholes := by
  have length : front.length = wholes.length := by
    have := congrArg List.length dealt
    rwa [List.length_map, List.length_map] at this
  refine ⟨closed, ?_, ?_⟩
  · rw [log, List.map_append, dealt, ← List.length_map (codec.received logged), List.take_left]
  · rw [log, List.drop_left' length]
    exact error

/-- After the frames `recv_message` comes to the end of the stream. -/
theorem recvMessage_truncated (segmented : Segmented segments)
    (cut : truncated.length < 8 ∨ truncated.length < 8 + fromBytes (truncated.take 8))
    (stream : segments.flatten = truncated) :
    recvMessage codec logged segments = (endOfStream logged truncated, []) := by
  by_cases short : truncated.length < 8
  · have none : recvall 8 segments = none := recvall_of_lt (by rw [stream]; exact short)
    rw [recvMessage, none, endOfStream, if_pos short]
  · obtain ⟨rest, header, left, _⟩ := recvall_of_le (n := 8) segmented (by rw [stream]; omega)
    rw [stream] at header left
    have none : recvall (fromBytes (truncated.take 8)) rest = none := by
      apply recvall_of_lt
      rw [left, List.length_drop]
      omega
    have long : ¬ (truncated.take 8).length < 8 := by
      rw [List.length_take]
      omega
    rw [recvMessage, header]
    simp only [none]
    rw [endOfStream, endOfStream, if_neg long, if_neg short]

theorem finish_invalid (turn : Turn) (answerable : (codec.serialize (errorReply 0)).isSome = true) :
    turn.finish codec (.invalid 0) = if turn.sends then some (some (errorReply 0)) else none := by
  simp only [Turn.finish, Turn.reply, answerable, Bool.true_and]

/-- Two replies after the frames, and the loop goes on: it has never stopped well. -/
theorem not_stopped_of_replies (running : (handleClient codec logged turns segments n).closed = false)
    (replies : 2 ≤ (((handleClient codec logged turns segments n).log.drop wholes.length).filter
      fun entry => entry.2.isSome).length) (m : Nat) :
    ¬ (handleClient codec logged turns segments m).Stopped codec logged wholes := by
  intro stopped
  rcases Nat.le_total m n with earlier | later
  · rw [handleClient_of_closed stopped.closed earlier, stopped.closed] at running
    cases running
  · have grows := ((log_handleClient codec logged turns segments later).drop
      wholes.length).filter fun entry => entry.2.isSome
    have := grows.length_le
    have := stopped.error
    omega

theorem endOfStream_of_not (returns : ¬ (logged = false ∧ 8 ≤ truncated.length)) :
    endOfStream logged truncated = .invalid 0 := by
  unfold endOfStream
  split
  · rfl
  · rename_i long
    cases logged with
    | true => rfl
    | false => exact absurd ⟨rfl, Nat.le_of_not_lt long⟩ returns

section End

variable (framed : ∀ whole ∈ wholes, ∃ body, frame body = some whole)
  (cut : truncated.length < 8 ∨ truncated.length < 8 + fromBytes (truncated.take 8))
  (segmented : Segmented segments) (stream : segments.flatten = wholes.flatten ++ truncated)
  (served : ∀ i (h : i < wholes.length), (turns i).serves codec logged wholes[i] = true)

include framed cut segmented stream served

/-- Before the iteration at the end of the stream. -/
theorem handleClient_all :
    (handleClient codec logged turns segments wholes.length).closed = false ∧
      (handleClient codec logged turns segments wholes.length).log.map Prod.fst =
        wholes.map (codec.received logged) ∧
      (handleClient codec logged turns segments wholes.length).log.length = wholes.length ∧
      recvMessage codec logged (handleClient codec logged turns segments wholes.length).segments =
        (endOfStream logged truncated, []) := by
  obtain ⟨running, log, segmented', left⟩ :=
    handleClient_frames framed segmented stream (Nat.le_refl _) fun i h _ => served i h
  rw [List.take_length] at log
  rw [List.drop_length] at left
  refine ⟨running, log, ?_, recvMessage_truncated segmented' cut left⟩
  have := congrArg List.length log
  rwa [List.length_map, List.length_map] at this

/-- An exception in the iteration at the end of the stream. -/
theorem stopped_of_first
    (raised : (turns wholes.length).finish codec (endOfStream logged truncated) = none) :
    (handleClient codec logged turns segments (wholes.length + 1)).Stopped codec logged wholes := by
  obtain ⟨running, log, _, next⟩ := handleClient_all framed cut segmented stream served
  rw [handleClient, iterate_of_raise running next raised]
  exact stopped_of_log rfl rfl log (Nat.zero_le 1)

/-- The first error reply after the frames is sent. -/
theorem handleClient_first {reply : Json}
    (replied : (turns wholes.length).finish codec (endOfStream logged truncated) =
      some (some reply)) :
    handleClient codec logged turns segments (wholes.length + 1) =
      { segments := []
        log := (handleClient codec logged turns segments wholes.length).log ++
          [(endOfStream logged truncated, some reply)] } := by
  obtain ⟨running, _, _, next⟩ := handleClient_all framed cut segmented stream served
  rw [handleClient, iterate_of_finish running next replied]

/-- An exception in the iteration after that. -/
theorem stopped_of_second {reply : Json}
    (replied : (turns wholes.length).finish codec (endOfStream logged truncated) =
      some (some reply))
    (raised : (turns (wholes.length + 1)).finish codec (.invalid 0) = none) :
    (handleClient codec logged turns segments (wholes.length + 2)).Stopped codec logged wholes := by
  obtain ⟨_, log, _, _⟩ := handleClient_all framed cut segmented stream served
  rw [handleClient, handleClient_first framed cut segmented stream served replied,
    iterate_of_raise rfl (recvMessage_nil rfl) raised, List.append_assoc]
  exact stopped_of_log rfl rfl log (Nat.le_refl 1)

/-- Two error replies are sent after the frames. -/
theorem handleClient_second {reply reply' : Json}
    (replied : (turns wholes.length).finish codec (endOfStream logged truncated) =
      some (some reply))
    (again : (turns (wholes.length + 1)).finish codec (.invalid 0) = some (some reply')) (n : Nat) :
    ¬ (handleClient codec logged turns segments n).Stopped codec logged wholes := by
  obtain ⟨_, _, length, _⟩ := handleClient_all framed cut segmented stream served
  have second : handleClient codec logged turns segments (wholes.length + 2) =
      { segments := []
        log := (handleClient codec logged turns segments wholes.length).log ++
          [(endOfStream logged truncated, some reply), (.invalid 0, some reply')] } := by
    rw [handleClient, handleClient_first framed cut segmented stream served replied,
      iterate_of_finish rfl (recvMessage_nil rfl) again, List.append_assoc]
    rfl
  apply not_stopped_of_replies (n := wholes.length + 2)
  · rw [second]
  · rw [second]
    simp only
    rw [List.drop_left' length]
    exact Nat.le_refl 2

/-- The loop stops as it should if and only if there is an exception at the end of the stream. -/
theorem stops_iff_of_served (answerable : (codec.serialize (errorReply 0)).isSome = true) :
    (∃ n, (handleClient codec logged turns segments n).Stopped codec logged wholes) ↔
      (logged = false ∧ 8 ≤ truncated.length) ∨ (turns wholes.length).sends = false ∨
        (turns (wholes.length + 1)).sends = false := by
  by_cases raises : logged = false ∧ 8 ≤ truncated.length
  · refine ⟨fun _ => .inl raises, fun _ => ⟨_, stopped_of_first framed cut segmented stream
      served ?_⟩⟩
    rw [endOfStream, if_neg (by omega), raises.1]
    rfl
  · have ended := endOfStream_of_not raises
    have first := finish_invalid (turns wholes.length) answerable
    have second := finish_invalid (turns (wholes.length + 1)) answerable
    cases sends : (turns wholes.length).sends with
    | false =>
      rw [sends, if_neg Bool.false_ne_true, ← ended] at first
      exact ⟨fun _ => .inr (.inl rfl),
        fun _ => ⟨_, stopped_of_first framed cut segmented stream served first⟩⟩
    | true =>
      rw [sends, if_pos rfl, ← ended] at first
      cases sends' : (turns (wholes.length + 1)).sends with
      | false =>
        rw [sends', if_neg Bool.false_ne_true] at second
        exact ⟨fun _ => .inr (.inr rfl),
          fun _ => ⟨_, stopped_of_second framed cut segmented stream served first second⟩⟩
      | true =>
        rw [sends', if_pos rfl] at second
        constructor
        · rintro ⟨n, stopped⟩
          exact absurd stopped
            (handleClient_second framed cut segmented stream served first second n)
        · rintro (raises' | fails | fails)
          · exact absurd raises' raises
          · cases fails
          · cases fails

end End

end Loop

/-- Every stream is a number of frames and the beginning of one more. -/
theorem frames_of_stream (bytes : List UInt8) :
    ∃ (wholes : List (List UInt8)) (truncated : List UInt8),
      bytes = wholes.flatten ++ truncated ∧
        (∀ whole ∈ wholes, ∃ body, frame body = some whole) ∧
          (truncated.length < 8 ∨ truncated.length < 8 + fromBytes (truncated.take 8)) := by
  induction length : bytes.length using Nat.strongRecOn generalizing bytes with
  | ind n ih =>
    by_cases cut : bytes.length < 8 ∨ bytes.length < 8 + fromBytes (bytes.take 8)
    · exact ⟨[], bytes, rfl, fun _ member => absurd member List.not_mem_nil, cut⟩
    · -- the first frame, and the rest by induction
      have first : (bytes.take (8 + fromBytes (bytes.take 8))).length =
          8 + fromBytes ((bytes.take (8 + fromBytes (bytes.take 8))).take 8) := by
        rw [List.take_take, Nat.min_eq_left (Nat.le_add_right _ _), List.length_take]
        omega
      obtain ⟨wholes, truncated, rest, framed, cut'⟩ :=
        ih (bytes.drop (8 + fromBytes (bytes.take 8))).length (by rw [List.length_drop]; omega)
          (bytes.drop (8 + fromBytes (bytes.take 8))) rfl
      refine ⟨bytes.take (8 + fromBytes (bytes.take 8)) :: wholes, truncated, ?_, ?_, cut'⟩
      · rw [List.flatten_cons, List.append_assoc, ← rest, List.take_append_drop]
      · intro whole member
        rcases List.mem_cons.mp member with here | there
        · exact here ▸ ⟨_, frame_bodyOf first⟩
        · exact framed whole there

/-- On every stream, whatever `_process_req` and `sendall` do: the loop receives each complete
frame once, sends at most one more error reply and is left, if and only if no frame before the
last one raises and then an exception comes, at the last frame, at a body that is cut short or
at one of the first two error replies. -/
theorem handle_client_stops_iff (codec : Codec) (logged : Bool) (turns : Nat → Turn)
    {segments wholes : List (List UInt8)} {truncated : List UInt8}
    (answerable : (codec.serialize (errorReply 0)).isSome = true)
    (framed : ∀ whole ∈ wholes, ∃ body, frame body = some whole)
    (cut : truncated.length < 8 ∨ truncated.length < 8 + fromBytes (truncated.take 8))
    (segmented : Segmented segments) (stream : segments.flatten = wholes.flatten ++ truncated) :
    (∃ n, (handleClient codec logged turns segments n).Stopped codec logged wholes) ↔
      EndsAfterFrames codec logged turns wholes truncated := by
  by_cases raise : ∃ i, ∃ inside : i < wholes.length,
      (turns i).serves codec logged wholes[i] = false
  · classical
    -- the first frame that raises
    obtain ⟨inside, raises⟩ := Nat.find_spec raise
    have served : ∀ i (h : i < wholes.length), i < Nat.find raise →
        (turns i).serves codec logged wholes[i] = true := by
      intro i h before
      by_contra fails
      exact Nat.find_min raise before ⟨h, eq_false_of_ne_true fails⟩
    by_cases behind : Nat.find raise + 1 < wholes.length
    · constructor
      · rintro ⟨n, stopped⟩
        exact absurd stopped
          (not_stopped_of_raise framed segmented stream inside behind served raises n)
      · rintro ⟨noEarlier, -⟩
        rw [noEarlier _ inside behind] at raises
        cases raises
    · have last : Nat.find raise + 1 = wholes.length := by omega
      refine ⟨fun _ => ⟨?_, .inl ⟨_, inside, last, raises⟩⟩, fun _ => ⟨wholes.length, ?_⟩⟩
      · exact fun i h before => served i h (by omega)
      · obtain ⟨closed, log⟩ := handleClient_raise framed segmented stream inside served raises
        rw [last] at closed log
        rw [List.take_length] at log
        exact stopped_of_log closed (List.append_nil _).symm log (Nat.zero_le 1)
  · have served : ∀ i (h : i < wholes.length), (turns i).serves codec logged wholes[i] = true := by
      intro i h
      by_contra fails
      exact raise ⟨i, h, eq_false_of_ne_true fails⟩
    rw [stops_iff_of_served framed cut segmented stream served answerable]
    constructor
    · exact fun ends => ⟨fun i h _ => served i h, .inr ends⟩
    · rintro ⟨-, ⟨i, h, -, fails⟩ | ends⟩
      · exact absurd ⟨i, h, fails⟩ raise
      · exact ends

/-- A peer that ends its side at once and goes on reading. -/
theorem not_stopped_of_reader {codec : Codec} {logged : Bool} {turns : Nat → Turn}
    (answerable : (codec.serialize (errorReply 0)).isSome = true)
    (reads : ∀ n, (turns n).sends = true) (n : Nat) :
    ¬ (handleClient codec logged turns [] n).Stopped codec logged [] := by
  have none : ∀ whole ∈ ([] : List (List UInt8)), ∃ body, frame body = some whole := by
    intro whole member
    cases member
  have cut : ([] : List UInt8).length < 8 := Nat.zero_lt_succ 7
  have replied : ∀ n, (turns n).finish codec (.invalid 0) = some (some (errorReply 0)) := by
    intro n
    rw [finish_invalid (turns n) answerable, reads n, if_pos rfl]
  have served : ∀ i (h : i < ([] : List (List UInt8)).length),
      (turns i).serves codec logged [][i] = true := by
    intro i inside
    cases inside
  have segmented : Segmented ([] : List (List UInt8)) := by
    intro segment member
    cases member
  exact handleClient_second none (.inl cut) segmented rfl served (replied 0) (replied 1) n

/-- Two frames, one more byte, and a peer that has closed its socket when the second error reply
comes: this is how the loop ends in the tests. -/
theorem handle_client_stops_iff_twoReplies :
    ∃ n, (handleClient (Codec.ofModule Json.objectModule) false
      (fun n => { process := fun message => some (some message), sends := decide (n < 3) })
      [[0, 0, 0, 0, 0, 0, 0, 2, 123], [125, 0, 0, 0], [0, 0, 0, 0, 2, 123, 125, 0]] n).Stopped
        (Codec.ofModule Json.objectModule) false
        [[0, 0, 0, 0, 0, 0, 0, 2, 123, 125], [0, 0, 0, 0, 0, 0, 0, 2, 123, 125]] := by
  have framed : ∀ whole ∈
      [[0, 0, 0, 0, 0, 0, 0, 2, 123, 125], [0, 0, 0, 0, 0, 0, 0, 2, 123, 125]],
      ∃ body, frame body = some whole := by
    intro whole member
    have same : whole = [0, 0, 0, 0, 0, 0, 0, 2, 123, 125] := by
      simpa only [List.mem_cons, List.not_mem_nil, or_false, or_self] using member
    exact same ▸ ⟨[123, 125], by decide +kernel⟩
  have stream : [[0, 0, 0, 0, 0, 0, 0, 2, 123], [125, 0, 0, 0],
      [0, 0, 0, 0, 2, 123, 125, 0]].flatten =
      [[0, 0, 0, 0, 0, 0, 0, 2, 123, 125], [0, 0, 0, 0, 0, 0, 0, 2, 123, 125]].flatten ++
        [(0 : UInt8)] := rfl
  have cut : [(0 : UInt8)].length < 8 := Nat.lt_of_sub_pos (Nat.zero_lt_succ 6)
  refine (handle_client_stops_iff (Codec.ofModule Json.objectModule) false _
    (by decide +kernel) framed (.inl cut) (by simp [Segmented]) stream).mpr
      ⟨?_, .inr (.inr (.inr rfl))⟩
  intro i inside before
  have first : i = 0 := Nat.lt_one_iff.mp (Nat.lt_of_succ_lt_succ before)
  subst first
  have served : Turn.serves (Codec.ofModule Json.objectModule) false
      { process := fun message => some (some message), sends := decide (0 < 3) }
      [0, 0, 0, 0, 0, 0, 0, 2, 123, 125] = true := by decide +kernel
  exact served

/-- A peer that sends nothing, ends its side and goes on reading: the loop sends one error reply
after the other. -/
theorem not_handle_client_stops :
    ¬ ∃ n, (handleClient (Codec.ofModule Json.objectModule) false
      (fun _ => { process := fun message => some (some message), sends := true })
      [] n).Stopped (Codec.ofModule Json.objectModule) false [] := by
  intro stops
  obtain ⟨n, stopped⟩ := stops
  exact not_stopped_of_reader (by decide +kernel) (fun _ => rfl) n stopped

end Col733.Lab3.TcpClient

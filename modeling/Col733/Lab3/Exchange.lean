import Col733.Lab3.TcpClient

/-!
# One exchange on a connection

Between two calls a connection that is alive has no reply under way, and its peer either waits
for the next request, having dealt with all that were sent, or has closed it. While a call waits
for its reply, what is under way is its own request or the reply to it (`Progress`). Every way
out of `send` leads back: the reply has been read whole, also when it does not parse; or the
peer has closed the connection, and nothing more will come; or the connection is dead.
-/

namespace Col733.Lab3.TcpClient

namespace Connection

/-- The peer waits for the next request, and has dealt with `n`. -/
structure Ready (conn : Connection) (n : Nat) : Prop where
  handler : conn.handler = .reading []
  up : conn.up = []
  handled : conn.handled.length = n

/-- A connection that is alive, between two calls. -/
structure Settled (conn : Connection) : Prop where
  down : conn.down = []
  peer : conn.handler = .closed ∨ conn.Ready conn.requests.length

/-- Nothing of a reply has been sent. -/
structure Silent (conn : Connection) (got : List UInt8) : Prop where
  got : got = []
  down : conn.down = []

/-- How far the peer is with the request `whole`, the `k`-th of the connection, when the
client has got the bytes `got` of the reply. -/
inductive Progress (codec : Codec) (body whole : List UInt8) (k : Nat) (conn : Connection)
    (got : List UInt8) : Prop where
  | lost (silent : conn.Silent got) (handler : conn.handler = .closed)
  | arriving (g : List UInt8) (silent : conn.Silent got) (handler : conn.handler = .reading g)
      (stream : g ++ conn.up = whole) (handled : conn.handled.length = k)
  | processing (silent : conn.Silent got) (handler : conn.handler = .processing body)
      (up : conn.up = []) (handled : conn.handled.length = k)
  | unanswered (silent : conn.Silent got) (ready : conn.Ready (k + 1))
  | replying (reply : Json) (silent : conn.Silent got) (handler : conn.handler = .replying reply)
      (up : conn.up = []) (handled : conn.handled.length = k + 1)
      (own : conn.handled[k]? = some (body, some reply))
  | answered (reply : Json) (text sent : List UInt8)
      (own : conn.handled[k]? = some (body, some reply)) (dumped : codec.dumps reply = some text)
      (framed : frame text = some sent) (stream : got ++ conn.down <+: sent)
      (peer : conn.handler = .closed ∨ conn.Ready (k + 1) ∧ got ++ conn.down = sent)

/-- The call `c` has sent its message, the last request of the connection, and waits for the
reply. -/
def Exchange (codec : Codec) (c : Nat) (message : Json) (conn : Connection)
    (got : List UInt8) : Prop :=
  ∃ (body whole : List UInt8) (k : Nat), codec.dumps message = some body ∧
    frame body = some whole ∧ conn.requests[k]? = some c ∧ conn.requests.length = k + 1 ∧
      conn.Progress codec body whole k got

/-- A reply that the peer has produced for the request of the call `c` on this connection is
read as `m`. -/
def Answers (codec : Codec) (c : Nat) (message m : Json) (conn : Connection) : Prop :=
  ∃ (k : Nat) (body : List UInt8) (reply : Json) (text : List UInt8),
    conn.requests[k]? = some c ∧ codec.dumps message = some body ∧
      conn.handled[k]? = some (body, some reply) ∧ codec.dumps reply = some text ∧
        codec.loads text = some m

variable {codec : Codec} {conn conn' : Connection} {body whole got : List UInt8} {k n : Nat}

/-! ## One step of the peer -/

theorem peerStep_recv (step : conn.peerStep codec (.recv n) = some conn') :
    ∃ g, conn.handler = .reading g ∧ 0 < n ∧ n ≤ conn.up.length ∧
      conn' = { conn with up := conn.up.drop n, handler := .reading (g ++ conn.up.take n) } := by
  simp only [peerStep] at step
  split at step
  · rename_i g handler
    split at step
    · rename_i guard
      exact ⟨g, handler, guard.1, guard.2.2, (Option.some.inj step).symm⟩
    · cases step
  · cases step

theorem peerStep_eof {logged : Bool} (step : conn.peerStep codec (.eof logged) = some conn') :
    conn.dead = true ∧ ∃ received, conn' = conn.dispatch [] received := by
  simp only [peerStep] at step
  split at step
  · split at step
    · rename_i guard
      exact ⟨guard.1, _, (Option.some.inj step).symm⟩
    · cases step
  · cases step

theorem peerStep_request {logged : Bool}
    (step : conn.peerStep codec (.request logged) = some conn') :
    ∃ g received, conn.handler = .reading g ∧ missing g = 0 ∧
      conn' = conn.dispatch (bodyOf g) received := by
  simp only [peerStep] at step
  split at step
  · rename_i g handler
    split at step
    · rename_i complete
      exact ⟨g, _, handler, complete, (Option.some.inj step).symm⟩
    · cases step
  · cases step

theorem peerStep_process {outcome : Option Json}
    (step : conn.peerStep codec (.process outcome) = some conn') :
    ∃ b, conn.handler = .processing b ∧
      conn' = { conn with
        handler := outcome.elim (.reading []) .replying
        handled := conn.handled ++ [(b, outcome)] } := by
  simp only [peerStep] at step
  split at step
  · rename_i b handler
    exact ⟨b, handler, (Option.some.inj step).symm⟩
  · cases step

theorem peerStep_reply (step : conn.peerStep codec .reply = some conn') :
    ∃ reply, conn.handler = .replying reply ∧
      ((∃ sent, codec.serialize reply = some sent ∧
        conn' = { conn with down := conn.down ++ sent, handler := .reading [] }) ∨
      conn' = { conn with handler := .closed }) := by
  simp only [peerStep] at step
  split at step
  · rename_i reply handler
    split at step
    · rename_i sent serialized
      exact ⟨reply, handler, .inl ⟨sent, serialized, (Option.some.inj step).symm⟩⟩
    · exact ⟨reply, handler, .inr (Option.some.inj step).symm⟩
  · cases step

theorem peerStep_fails (step : conn.peerStep codec (.fails n) = some conn') :
    conn.handler ≠ .closed ∧
      conn' = { conn with down := conn.down ++ (conn.unsent codec).take n, handler := .closed } := by
  simp only [peerStep] at step
  split at step
  · cases step
  · rename_i running
    refine ⟨?_, (Option.some.inj step).symm⟩
    intro closed
    rw [closed] at running
    exact running rfl

/-- What the peer leaves as it is, and that it only adds to the requests it has dealt with. -/
theorem peerStep_history {a : PeerAction} (step : conn.peerStep codec a = some conn') :
    conn'.requests = conn.requests ∧ conn'.dead = conn.dead ∧ conn.handled <+: conn'.handled := by
  have dispatched (b : List UInt8) (received : Received) :
      (conn.dispatch b received).requests = conn.requests ∧
        (conn.dispatch b received).dead = conn.dead ∧
          conn.handled <+: (conn.dispatch b received).handled := by
    cases received with
    | invalid errCode => exact ⟨rfl, rfl, List.prefix_append _ _⟩
    | valid message => exact ⟨rfl, rfl, List.prefix_refl _⟩
    | raised => exact ⟨rfl, rfl, List.prefix_refl _⟩
  cases a with
  | recv n =>
    obtain ⟨_, _, _, _, rfl⟩ := peerStep_recv step
    exact ⟨rfl, rfl, List.prefix_refl _⟩
  | eof logged =>
    obtain ⟨_, received, rfl⟩ := peerStep_eof step
    exact dispatched _ _
  | request logged =>
    obtain ⟨_, received, _, _, rfl⟩ := peerStep_request step
    exact dispatched _ _
  | process outcome =>
    obtain ⟨_, _, rfl⟩ := peerStep_process step
    exact ⟨rfl, rfl, List.prefix_append _ _⟩
  | reply =>
    obtain ⟨_, _, ⟨_, _, rfl⟩ | rfl⟩ := peerStep_reply step
    · exact ⟨rfl, rfl, List.prefix_refl _⟩
    · exact ⟨rfl, rfl, List.prefix_refl _⟩
  | fails n =>
    obtain ⟨_, rfl⟩ := peerStep_fails step
    exact ⟨rfl, rfl, List.prefix_refl _⟩

/-! ## What the peer does between two calls -/

/-- A handler that reads is at the beginning. -/
theorem Settled.reading {g : List UInt8} (settled : conn.Settled)
    (handler : conn.handler = .reading g) : g = [] ∧ conn.up = [] := by
  rcases settled.peer with closed | ready
  · rw [closed] at handler
    cases handler
  · rw [ready.handler] at handler
    cases handler
    exact ⟨rfl, ready.up⟩

/-- There is no request to work on. -/
theorem Settled.unsent_eq (settled : conn.Settled) : conn.unsent codec = [] := by
  unfold unsent
  rcases settled.peer with closed | ready
  · rw [closed]
  · rw [ready.handler]

theorem Settled.peerStep {a : PeerAction} (settled : conn.Settled) (alive : conn.dead = false)
    (step : conn.peerStep codec a = some conn') : conn'.Settled := by
  cases a with
  | recv n =>
    obtain ⟨g, handler, pos, available, _⟩ := peerStep_recv step
    rw [(settled.reading handler).2] at available
    exact absurd available (Nat.not_le_of_lt pos)
  | eof logged =>
    rw [(peerStep_eof step).1] at alive
    cases alive
  | request logged =>
    obtain ⟨g, _, handler, complete, _⟩ := peerStep_request step
    rw [(settled.reading handler).1] at complete
    cases complete
  | process outcome =>
    obtain ⟨_, handler, _⟩ := peerStep_process step
    rcases settled.peer with other | ⟨other, _, _⟩
    · exact nomatch other.symm.trans handler
    · exact nomatch other.symm.trans handler
  | reply =>
    obtain ⟨_, handler, _⟩ := peerStep_reply step
    rcases settled.peer with other | ⟨other, _, _⟩
    · exact nomatch other.symm.trans handler
    · exact nomatch other.symm.trans handler
  | fails n =>
    obtain ⟨_, rfl⟩ := peerStep_fails step
    refine ⟨?_, .inl rfl⟩
    show conn.down ++ (conn.unsent codec).take n = []
    rw [settled.unsent_eq, settled.down, List.take_nil]
    rfl

/-! ## What the peer does with a request -/

theorem getElem?_concat_of_length {α : Type} {xs : List α} {x : α} (length : xs.length = k) :
    (xs ++ [x])[k]? = some x := by
  rw [← length, List.getElem?_concat_length]

/-- A handler that reads is in the request, or has dealt with it. -/
theorem Progress.reading {g : List UInt8} (progress : conn.Progress codec body whole k got)
    (handler : conn.handler = .reading g) :
    (conn.Silent got ∧ g ++ conn.up = whole ∧ conn.handled.length = k) ∨
      (g = [] ∧ conn.up = []) := by
  cases progress with
  | lost silent other => exact nomatch other.symm.trans handler
  | arriving g' silent other stream handled =>
    cases other.symm.trans handler
    exact .inl ⟨silent, stream, handled⟩
  | processing silent other up handled => exact nomatch other.symm.trans handler
  | unanswered silent ready =>
    cases ready.handler.symm.trans handler
    exact .inr ⟨rfl, ready.up⟩
  | replying reply silent other up handled own => exact nomatch other.symm.trans handler
  | answered reply text sent own dumped framed stream peer =>
    rcases peer with other | ⟨ready, _⟩
    · exact nomatch other.symm.trans handler
    · cases ready.handler.symm.trans handler
      exact .inr ⟨rfl, ready.up⟩

/-- A handler that works on a request works on this one. -/
theorem Progress.at_work {b : List UInt8} (progress : conn.Progress codec body whole k got)
    (handler : conn.handler = .processing b) :
    conn.Silent got ∧ b = body ∧ conn.up = [] ∧ conn.handled.length = k := by
  cases progress with
  | lost silent other => exact nomatch other.symm.trans handler
  | arriving g' silent other stream handled => exact nomatch other.symm.trans handler
  | processing silent other up handled =>
    cases other.symm.trans handler
    exact ⟨silent, rfl, up, handled⟩
  | unanswered silent ready => exact nomatch ready.handler.symm.trans handler
  | replying reply silent other up handled own => exact nomatch other.symm.trans handler
  | answered reply text sent own dumped framed stream peer =>
    rcases peer with other | ⟨ready, _⟩
    · exact nomatch other.symm.trans handler
    · exact nomatch ready.handler.symm.trans handler

/-- A handler that is about to reply replies to this request. -/
theorem Progress.about_to_reply {reply : Json} (progress : conn.Progress codec body whole k got)
    (handler : conn.handler = .replying reply) :
    conn.Silent got ∧ conn.up = [] ∧ conn.handled.length = k + 1 ∧
      conn.handled[k]? = some (body, some reply) := by
  cases progress with
  | lost silent other => exact nomatch other.symm.trans handler
  | arriving g' silent other stream handled => exact nomatch other.symm.trans handler
  | processing silent other up handled => exact nomatch other.symm.trans handler
  | unanswered silent ready => exact nomatch ready.handler.symm.trans handler
  | replying reply' silent other up handled own =>
    cases other.symm.trans handler
    exact ⟨silent, up, handled, own⟩
  | answered reply' text sent own dumped framed stream peer =>
    rcases peer with other | ⟨ready, _⟩
    · exact nomatch other.symm.trans handler
    · exact nomatch ready.handler.symm.trans handler

/-- The whole request is there: it is dealt with as one of this body. -/
theorem Progress.dispatch (silent : conn.Silent got) (up : conn.up = [])
    (handled : conn.handled.length = k) (received : Received) :
    (conn.dispatch body received).Progress codec body whole k got := by
  cases received with
  | invalid errCode =>
    refine .replying (errorReply errCode) ⟨silent.got, silent.down⟩ rfl up ?_
      (getElem?_concat_of_length handled)
    show (conn.handled ++ [_]).length = k + 1
    rw [List.length_append, handled]
    rfl
  | valid message => exact .processing ⟨silent.got, silent.down⟩ rfl up handled
  | raised => exact .lost ⟨silent.got, silent.down⟩ rfl

/-- The reply is sent as a whole. -/
theorem Progress.replied {reply : Json} {sent : List UInt8} (silent : conn.Silent got)
    (up : conn.up = []) (handled : conn.handled.length = k + 1)
    (own : conn.handled[k]? = some (body, some reply))
    (serialized : codec.serialize reply = some sent) :
    Progress codec body whole k { conn with down := conn.down ++ sent, handler := .reading [] }
      got := by
  obtain ⟨text, dumped, framed⟩ := Option.bind_eq_some_iff.mp serialized
  have stream : got ++ (conn.down ++ sent) = sent := by rw [silent.got, silent.down]; rfl
  refine .answered reply text sent own dumped framed ?_ (.inr ⟨⟨rfl, up, handled⟩, stream⟩)
  show got ++ (conn.down ++ sent) <+: sent
  rw [stream]

/-- The peer raises: what it has sent is the beginning of its reply. -/
theorem Progress.fails (progress : conn.Progress codec body whole k got) (n : Nat) :
    Progress codec body whole k
      { conn with down := conn.down ++ (conn.unsent codec).take n, handler := .closed } got := by
  have quiet (silent : conn.Silent got) (none : conn.unsent codec = []) : Progress codec body whole k
      { conn with down := conn.down ++ (conn.unsent codec).take n, handler := .closed } got := by
    refine .lost ⟨silent.got, ?_⟩ rfl
    show conn.down ++ (conn.unsent codec).take n = []
    rw [none, silent.down, List.take_nil]
    rfl
  cases progress with
  | lost silent handler => exact quiet silent (by rw [unsent, handler])
  | arriving g silent handler stream handled => exact quiet silent (by rw [unsent, handler])
  | processing silent handler up handled => exact quiet silent (by rw [unsent, handler])
  | unanswered silent ready => exact quiet silent (by rw [unsent, ready.handler])
  | replying reply silent handler up handled own =>
    have unsent_eq : conn.unsent codec = (codec.serialize reply).getD [] := by
      rw [unsent, handler]
    cases serialized : codec.serialize reply with
    | none => exact quiet silent (by rw [unsent_eq, serialized]; rfl)
    | some sent =>
      obtain ⟨text, dumped, framed⟩ := Option.bind_eq_some_iff.mp serialized
      refine .answered reply text sent own dumped framed ?_ (.inl rfl)
      show got ++ (conn.down ++ (conn.unsent codec).take n) <+: sent
      rw [silent.got, silent.down, unsent_eq, serialized]
      exact List.take_prefix n sent
  | answered reply text sent own dumped framed stream peer =>
    have none : conn.unsent codec = [] := by
      unfold unsent
      rcases peer with closed | ⟨ready, _⟩
      · rw [closed]
      · rw [ready.handler]
    refine .answered reply text sent own dumped framed ?_ (.inl rfl)
    show got ++ (conn.down ++ (conn.unsent codec).take n) <+: sent
    rw [none, List.take_nil, List.append_nil]
    exact stream

theorem Progress.peerStep {a : PeerAction} (progress : conn.Progress codec body whole k got)
    (framed : frame body = some whole) (alive : conn.dead = false)
    (step : conn.peerStep codec a = some conn') : conn'.Progress codec body whole k got := by
  cases a with
  | recv n =>
    obtain ⟨g, handler, pos, available, rfl⟩ := peerStep_recv step
    rcases progress.reading handler with ⟨silent, stream, handled⟩ | ⟨_, up⟩
    · refine .arriving (g ++ conn.up.take n) ⟨silent.got, silent.down⟩ rfl ?_ handled
      show g ++ conn.up.take n ++ conn.up.drop n = whole
      rw [List.append_assoc, List.take_append_drop, stream]
    · rw [up] at available
      exact absurd available (Nat.not_le_of_lt pos)
  | eof logged =>
    rw [(peerStep_eof step).1] at alive
    cases alive
  | request logged =>
    obtain ⟨g, received, handler, complete, rfl⟩ := peerStep_request step
    rcases progress.reading handler with ⟨silent, stream, handled⟩ | ⟨rfl, _⟩
    · have all : g = whole := eq_of_missing_zero framed ⟨conn.up, stream⟩ complete
      have up : conn.up = [] := by
        rw [all] at stream
        exact List.append_right_eq_self.mp stream
      rw [all, bodyOf_frame framed]
      exact .dispatch silent up handled received
    · cases complete
  | process outcome =>
    obtain ⟨b, handler, rfl⟩ := peerStep_process step
    obtain ⟨silent, rfl, up, handled⟩ := progress.at_work handler
    have length : (conn.handled ++ [(b, outcome)]).length = k + 1 := by
      rw [List.length_append, handled]
      rfl
    cases outcome with
    | none => exact .unanswered ⟨silent.got, silent.down⟩ ⟨rfl, up, length⟩
    | some reply =>
      exact .replying reply ⟨silent.got, silent.down⟩ rfl up length
        (getElem?_concat_of_length handled)
  | reply =>
    obtain ⟨reply, handler, sent⟩ := peerStep_reply step
    obtain ⟨silent, up, handled, own⟩ := progress.about_to_reply handler
    rcases sent with ⟨sent, serialized, rfl⟩ | rfl
    · exact .replied silent up handled own serialized
    · exact .lost ⟨silent.got, silent.down⟩ rfl
  | fails n =>
    obtain ⟨_, rfl⟩ := peerStep_fails step
    exact progress.fails n

/-! ## What the client does -/

/-- A request is sent on a settled connection. -/
theorem Settled.send {c : Nat} {message : Json} (settled : conn.Settled)
    (dumped : codec.dumps message = some body) (framed : frame body = some whole) :
    Exchange codec c message
      { conn with up := conn.up ++ whole, requests := conn.requests ++ [c] } [] := by
  refine ⟨body, whole, conn.requests.length, dumped, framed, List.getElem?_concat_length, ?_, ?_⟩
  · show (conn.requests ++ [c]).length = _
    rw [List.length_append]
    rfl
  · rcases settled.peer with closed | ready
    · exact .lost ⟨rfl, settled.down⟩ closed
    · refine .arriving [] ⟨rfl, settled.down⟩ ready.handler ?_ ready.handled
      show [] ++ (conn.up ++ whole) = whole
      rw [ready.up]
      rfl

theorem Silent.down_pos (silent : conn.Silent got) (pos : 0 < n) (available : n ≤ conn.down.length) :
    False := by
  rw [silent.down] at available
  exact absurd available (Nat.not_le_of_lt pos)

/-- Bytes of the reply are received. -/
theorem Progress.recv (progress : conn.Progress codec body whole k got) (pos : 0 < n)
    (available : n ≤ conn.down.length) :
    Progress codec body whole k { conn with down := conn.down.drop n }
      (got ++ conn.down.take n) := by
  cases progress with
  | lost silent handler => exact (silent.down_pos pos available).elim
  | arriving g silent handler stream handled => exact (silent.down_pos pos available).elim
  | processing silent handler up handled => exact (silent.down_pos pos available).elim
  | unanswered silent ready => exact (silent.down_pos pos available).elim
  | replying reply silent handler up handled own => exact (silent.down_pos pos available).elim
  | answered reply text sent own dumped framed stream peer =>
    have same : got ++ conn.down.take n ++ conn.down.drop n = got ++ conn.down := by
      rw [List.append_assoc, List.take_append_drop]
    refine .answered reply text sent own dumped framed ?_ ?_
    · show got ++ conn.down.take n ++ conn.down.drop n <+: sent
      rw [same]
      exact stream
    · refine peer.imp_right fun ⟨ready, all⟩ => ⟨⟨ready.handler, ready.up, ready.handled⟩, ?_⟩
      show got ++ conn.down.take n ++ conn.down.drop n = sent
      rw [same]
      exact all

theorem Exchange.recv {c : Nat} {message : Json} (exchange : Exchange codec c message conn got)
    (pos : 0 < n) (available : n ≤ conn.down.length) :
    Exchange codec c message { conn with down := conn.down.drop n }
      (got ++ conn.down.take n) := by
  obtain ⟨body, whole, k, dumped, framed, own, last, progress⟩ := exchange
  exact ⟨body, whole, k, dumped, framed, own, last, progress.recv pos available⟩

/-- At the end of the stream nothing more will come. -/
theorem settled_of_ended (alive : conn.dead = false) (ended : conn.ended = true) :
    conn.Settled := by
  unfold Connection.ended at ended
  rw [alive, Bool.false_or, Bool.and_eq_true, List.isEmpty_iff] at ended
  refine ⟨ended.2, .inl ?_⟩
  cases handler : conn.handler with
  | closed => rfl
  | reading g => rw [handler] at ended; exact nomatch ended.1
  | processing b => rw [handler] at ended; exact nomatch ended.1
  | replying reply => rw [handler] at ended; exact nomatch ended.1

/-- When a reply is there as a whole, it is one that the peer has produced for this request,
and nothing is left behind it. -/
theorem Progress.complete (progress : conn.Progress codec body whole k got)
    (complete : missing got = 0) :
    conn.down = [] ∧ (conn.handler = .closed ∨ conn.Ready (k + 1)) ∧
      ∃ reply text, conn.handled[k]? = some (body, some reply) ∧ codec.dumps reply = some text ∧
        bodyOf got = text := by
  have early (silent : conn.Silent got) : False := by
    rw [silent.got] at complete
    cases complete
  cases progress with
  | lost silent handler => exact (early silent).elim
  | arriving g silent handler stream handled => exact (early silent).elim
  | processing silent handler up handled => exact (early silent).elim
  | unanswered silent ready => exact (early silent).elim
  | replying reply silent handler up handled own => exact (early silent).elim
  | answered reply text sent own dumped framed stream peer =>
    have all : got = sent :=
      eq_of_missing_zero framed ((List.prefix_append got conn.down).trans stream) complete
    have length := stream.length_le
    rw [all, List.length_append] at length
    refine ⟨List.eq_nil_of_length_eq_zero (by omega), peer.imp_right And.left, reply, text, own,
      dumped, ?_⟩
    rw [all, bodyOf_frame framed]

/-- A message that `recv_message` decodes is read from the body. -/
theorem loads_of_received {logged : Bool} {m : Json}
    (decoded : (codec.received logged got).result = .decoded m) :
    codec.loads (bodyOf got) = some m := by
  unfold Codec.received at decoded
  split at decoded
  · split at decoded
    · cases decoded
    · cases decoded
  · split at decoded
    · rename_i message loaded
      cases decoded
      exact loaded
    · cases decoded

theorem Exchange.complete {c : Nat} {message : Json}
    (exchange : Exchange codec c message conn got) (complete : missing got = 0) :
    conn.Settled ∧ ∀ logged m, (codec.received logged got).result = .decoded m →
      conn.Answers codec c message m := by
  obtain ⟨body, whole, k, dumped, framed, own, last, progress⟩ := exchange
  obtain ⟨down, peer, reply, text, answer, text_eq, read⟩ := progress.complete complete
  constructor
  · refine ⟨down, ?_⟩
    rw [last]
    exact peer
  · intro logged m decoded
    refine ⟨k, body, reply, text, own, dumped, answer, text_eq, ?_⟩
    rw [← read]
    exact loads_of_received decoded

theorem getElem?_of_beginning {α : Type} {xs ys : List α} {x : α} (front : xs <+: ys)
    (here : xs[k]? = some x) : ys[k]? = some x := by
  obtain ⟨rest, rfl⟩ := front
  obtain ⟨bound, _⟩ := List.getElem?_eq_some_iff.mp here
  rw [List.getElem?_append_left bound, here]

/-- While the history grows, an answer stays one. -/
theorem Answers.mono {c : Nat} {message m : Json} (answers : conn.Answers codec c message m)
    (requests : conn.requests <+: conn'.requests) (handled : conn.handled <+: conn'.handled) :
    conn'.Answers codec c message m := by
  obtain ⟨k, body, reply, text, own, dumped, answer, text_eq, read⟩ := answers
  exact ⟨k, body, reply, text, getElem?_of_beginning requests own, dumped,
    getElem?_of_beginning handled answer, text_eq, read⟩

end Connection

end Col733.Lab3.TcpClient

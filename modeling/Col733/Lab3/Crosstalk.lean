import Col733.Lab3.Exchange
import Col733.Misc.JsonModule
import Col733.Misc.Pool

/-!
# No crosstalk in the pool

Every socket is in the pool or held by one call, and as long as its connection is alive it is
settled unless a call waits for its reply on it. A call that takes a socket therefore begins a
new exchange, whatever became of the calls before it.
-/

namespace Col733.Lab3.TcpClient

/-- What holds of a connection while a call that holds it is in the phase. Nothing is received
from a dead one. -/
def Connection.Serves (codec : Codec) (c : Nat) (message : Json) (conn : Connection) :
    Phase → Prop
  | .reading _ got =>
    (conn.dead = true → got = []) ∧ (conn.dead = false → conn.Exchange codec c message got)
  | _ => conn.dead = false → conn.Settled

/-- What holds in every state that is reached. -/
structure Inv (codec : Codec) (sockPoolSz : Nat) (s : State) : Prop where
  pool : Pool.Exact sockPoolSz s.idle s.held
  idle : ∀ x, (s.conns x).dead = false → (∀ c, s.held c ≠ some x) → (s.conns x).Settled
  busy : ∀ c call x, s.calls c = some call → call.phase.socket = some x →
    (s.conns x).Serves codec c call.message call.phase
  answers : ∀ c call m, s.calls c = some call → call.phase.result = some (.decoded m) →
    ∃ x, (s.conns x).Answers codec c call.message m

section Steps

variable {codec : Codec} {sockPoolSz : Nat} {s s' : State} {c x : Nat} {message : Json}
  {before after : Phase} {conn : Connection}

theorem inv_initial : Inv codec sockPoolSz (State.initial sockPoolSz) where
  pool := Pool.exact_initial
  idle _ _ _ := ⟨rfl, .inr ⟨rfl, rfl, rfl⟩⟩
  busy := by rintro c call x ⟨⟩
  answers := by rintro c call m ⟨⟩

theorem held_setCall : (s.setCall c message after).held = Function.update s.held c after.socket := by
  funext d
  unfold State.held State.setCall
  by_cases same : d = c
  · subst same
    simp only [Function.update_self, Option.bind_some]
  · simp only [Function.update_of_ne same]

theorem held_eq (here : s.calls c = some ⟨message, before⟩) : s.held c = before.socket := by
  rw [State.held, here]
  rfl

/-- The phase of a call after a step of one call. -/
theorem calls_setCall {d : Nat} {call : Call}
    (here : (s.setCall c message after).calls d = some call) :
    (d = c ∧ call = ⟨message, after⟩) ∨ (d ≠ c ∧ s.calls d = some call) := by
  change Function.update s.calls c _ d = some call at here
  by_cases same : d = c
  · subst same
    rw [Function.update_self] at here
    exact .inl ⟨rfl, (Option.some.inj here).symm⟩
  · rw [Function.update_of_ne same] at here
    exact .inr ⟨same, here⟩

/-- A call that holds no socket goes on without one. -/
theorem inv_free (inv : Inv codec sockPoolSz s) (free : s.held c = none)
    (socket : after.socket = none) (result : ∀ m, after.result ≠ some (.decoded m)) :
    Inv codec sockPoolSz (s.setCall c message after) := by
  have held : (s.setCall c message after).held = s.held := by
    rw [held_setCall, socket, ← free, Function.update_eq_self]
  refine ⟨held ▸ inv.pool, held ▸ inv.idle, ?_, ?_⟩
  · intro d call y here holds
    rcases calls_setCall here with ⟨rfl, rfl⟩ | ⟨_, old⟩
    · rw [socket] at holds
      cases holds
    · exact inv.busy d call y old holds
  · intro d call m here decoded
    rcases calls_setCall here with ⟨rfl, rfl⟩ | ⟨_, old⟩
    · exact absurd decoded (result m)
    · exact inv.answers d call m old decoded

/-- A call takes a socket out of the pool: it finds it settled. -/
theorem inv_pop {rest : List Nat} (inv : Inv codec sockPoolSz s) (free : s.held c = none)
    (last : s.idle = x :: rest) :
    Inv codec sockPoolSz ({ s with idle := rest }.setCall c message (.holding x)) := by
  have pool := inv.pool
  rw [last] at pool
  have unheld : ∀ d, s.held d ≠ some x := fun d holds =>
    pool.apart d x holds List.mem_cons_self
  refine ⟨?_, ?_, ?_, ?_⟩
  · rw [held_setCall]
    exact pool.take free
  · intro y alive others
    apply inv.idle y alive
    intro d holds
    have different : d ≠ c := by
      rintro rfl
      rw [free] at holds
      cases holds
    apply others d
    rw [held_setCall, Function.update_of_ne different]
    exact holds
  · intro d call y here holds
    rcases calls_setCall here with ⟨rfl, rfl⟩ | ⟨_, old⟩
    · cases holds
      exact fun alive => inv.idle x alive unheld
    · exact inv.busy d call y old holds
  · intro d call m here decoded
    rcases calls_setCall here with ⟨rfl, rfl⟩ | ⟨_, old⟩
    · cases decoded
    · exact inv.answers d call m old decoded

/-- An answer is one still when the histories of its connection grow. -/
theorem Inv.answers_update {d : Nat} {call : Call} {m : Json} (inv : Inv codec sockPoolSz s)
    (requests : (s.conns x).requests <+: conn.requests)
    (handled : (s.conns x).handled <+: conn.handled) (here : s.calls d = some call)
    (decoded : call.phase.result = some (.decoded m)) :
    ∃ y, (Function.update s.conns x conn y).Answers codec d call.message m := by
  obtain ⟨y, answer⟩ := inv.answers d call m here decoded
  refine ⟨y, ?_⟩
  by_cases same : y = x
  · subst same
    rw [Function.update_self]
    exact answer.mono requests handled
  · rw [Function.update_of_ne same]
    exact answer

/-- A call goes on with the socket that it holds. -/
theorem inv_move (inv : Inv codec sockPoolSz s) (old : s.calls c = some ⟨message, before⟩)
    (holds : before.socket = some x) (still : after.socket = some x)
    (requests : (s.conns x).requests <+: conn.requests)
    (handled : (s.conns x).handled <+: conn.handled)
    (serves : conn.Serves codec c message after)
    (answers : ∀ m, after.result = some (.decoded m) → conn.Answers codec c message m) :
    Inv codec sockPoolSz ((s.setConn x conn).setCall c message after) := by
  have held : ((s.setConn x conn).setCall c message after).held = s.held := by
    rw [held_setCall, still, ← holds, ← held_eq old]
    exact Function.update_eq_self c s.held
  have holder : s.held c = some x := (held_eq old).trans holds
  have elsewhere {y : Nat} (different : y ≠ x) :
      Function.update s.conns x conn y = s.conns y := Function.update_of_ne different ..
  refine ⟨held ▸ inv.pool, ?_, ?_, ?_⟩
  · rw [held]
    intro y alive others
    have different : y ≠ x := by
      rintro rfl
      exact others c holder
    change (Function.update s.conns x conn y).dead = false at alive
    show (Function.update s.conns x conn y).Settled
    rw [elsewhere different] at alive ⊢
    exact inv.idle y alive others
  · intro d call y here socket
    show (Function.update s.conns x conn y).Serves codec d call.message call.phase
    rcases calls_setCall here with ⟨rfl, rfl⟩ | ⟨other, before'⟩
    · cases still.symm.trans socket
      rw [Function.update_self]
      exact serves
    · have different : y ≠ x := by
        rintro rfl
        exact other (inv.pool.once d c y ((held_eq before').trans socket) holder)
      rw [elsewhere different]
      exact inv.busy d call y before' socket
  · intro d call m here decoded
    rcases calls_setCall here with ⟨rfl, rfl⟩ | ⟨_, before'⟩
    · refine ⟨x, ?_⟩
      show (Function.update s.conns x conn x).Answers codec d message m
      rw [Function.update_self]
      exact answers m decoded
    · exact inv.answers_update requests handled before' decoded

/-- The same when the connection is as before. -/
theorem inv_stay (inv : Inv codec sockPoolSz s) (old : s.calls c = some ⟨message, before⟩)
    (holds : before.socket = some x) (still : after.socket = some x)
    (serves : (s.conns x).Serves codec c message after)
    (answers : ∀ m, after.result = some (.decoded m) →
      (s.conns x).Answers codec c message m) :
    Inv codec sockPoolSz (s.setCall c message after) := by
  have same : s.setConn x (s.conns x) = s := by
    rw [State.setConn, Function.update_eq_self]
  have moved := inv_move inv old holds still (List.prefix_refl _) (List.prefix_refl _) serves answers
  rwa [same] at moved

/-- A call gives its socket back: it leaves it settled. -/
theorem inv_release {result : Result} (inv : Inv codec sockPoolSz s)
    (old : s.calls c = some ⟨message, .releasing x result⟩) :
    Inv codec sockPoolSz ({ s with idle := x :: s.idle }.setCall c message (.returned result)) := by
  have holder : s.held c = some x := held_eq old
  refine ⟨?_, ?_, ?_, ?_⟩
  · rw [held_setCall]
    exact inv.pool.give holder
  · intro y alive others
    by_cases same : y = x
    · subst same
      exact inv.busy c _ y old rfl alive
    · apply inv.idle y alive
      intro d holds
      have different : d ≠ c := by
        rintro rfl
        cases holder.symm.trans holds
        exact same rfl
      apply others d
      rw [held_setCall, Function.update_of_ne different]
      exact holds
  · intro d call y here holds
    rcases calls_setCall here with ⟨rfl, rfl⟩ | ⟨_, before'⟩
    · cases holds
    · exact inv.busy d call y before' holds
  · intro d call m here decoded
    rcases calls_setCall here with ⟨rfl, rfl⟩ | ⟨_, before'⟩
    · exact inv.answers d ⟨message, .releasing x result⟩ m old decoded
    · exact inv.answers d call m before' decoded

/-- What the peer does is part of the exchange that is under way, if there is one. -/
theorem serves_peerStep {a : PeerAction} {phase : Phase}
    (serves : (s.conns x).Serves codec c message phase)
    (step : (s.conns x).peerStep codec a = some conn) : conn.Serves codec c message phase := by
  have history := Connection.peerStep_history step
  have settled (before : (s.conns x).dead = false → (s.conns x).Settled) (alive : conn.dead = false) :
      conn.Settled := by
    rw [history.2.1] at alive
    exact (before alive).peerStep alive step
  cases phase with
  | reading y got =>
    refine ⟨fun dead => serves.1 (history.2.1 ▸ dead), fun alive => ?_⟩
    rw [history.2.1] at alive
    obtain ⟨body, whole, k, dumped, framed, own, last, progress⟩ := serves.2 alive
    refine ⟨body, whole, k, dumped, framed, ?_, ?_, progress.peerStep framed alive step⟩
    · rw [history.1]
      exact own
    · rw [history.1]
      exact last
  | started => exact settled serves
  | asserted => exact settled serves
  | holding y => exact settled serves
  | releasing y result => exact settled serves
  | returned result => exact settled serves

theorem inv_peer {a : PeerAction} (inv : Inv codec sockPoolSz s)
    (step : (s.conns x).peerStep codec a = some conn) :
    Inv codec sockPoolSz (s.setConn x conn) := by
  obtain ⟨requests, dead, handled⟩ := Connection.peerStep_history step
  have elsewhere {y : Nat} (different : y ≠ x) :
      Function.update s.conns x conn y = s.conns y := Function.update_of_ne different ..
  refine ⟨inv.pool, ?_, ?_, ?_⟩
  · intro y alive others
    change (Function.update s.conns x conn y).dead = false at alive
    show (Function.update s.conns x conn y).Settled
    by_cases same : y = x
    · subst same
      rw [Function.update_self] at alive ⊢
      rw [dead] at alive
      exact (inv.idle y alive others).peerStep alive step
    · rw [elsewhere same] at alive ⊢
      exact inv.idle y alive others
  · intro d call y here holds
    show (Function.update s.conns x conn y).Serves codec d call.message call.phase
    by_cases same : y = x
    · subst same
      rw [Function.update_self]
      exact serves_peerStep (inv.busy d call y here holds) step
    · rw [elsewhere same]
      exact inv.busy d call y here holds
  · intro d call m here decoded
    exact inv.answers_update (requests ▸ List.prefix_refl _) handled here decoded

/-! ## The steps of a call -/

theorem inv_call (inv : Inv codec sockPoolSz s)
    (moved : step codec s (.call c message) = some s') : Inv codec sockPoolSz s' := by
  simp only [step] at moved
  split at moved
  · rename_i fresh
    cases moved
    refine inv_free inv ?_ rfl (by rintro m ⟨⟩)
    rw [State.held, fresh]
    rfl
  · cases moved

theorem inv_check (inv : Inv codec sockPoolSz s)
    (moved : step codec s (.check c) = some s') : Inv codec sockPoolSz s' := by
  simp only [step] at moved
  split at moved
  · rename_i message old
    cases moved
    split
    · exact inv_free inv (held_eq old) rfl (by rintro m ⟨⟩)
    · exact inv_free inv (held_eq old) rfl (by rintro m ⟨⟩)
  · cases moved

theorem inv_getSock (inv : Inv codec sockPoolSz s)
    (moved : step codec s (.pop c) = some s') : Inv codec sockPoolSz s' := by
  simp only [step] at moved
  split at moved
  · rename_i message old
    split at moved
    · cases moved
      exact inv_free inv (held_eq old) rfl (by rintro m ⟨⟩)
    · rename_i x rest last
      cases moved
      exact inv_pop inv (held_eq old) last
  · cases moved

theorem inv_sendAll (inv : Inv codec sockPoolSz s)
    (moved : step codec s (.sendAll c) = some s') : Inv codec sockPoolSz s' := by
  simp only [step] at moved
  split at moved
  · rename_i message x old
    have settled : (s.conns x).dead = false → (s.conns x).Settled := inv.busy c _ x old rfl
    split at moved
    · rename_i whole serialized
      cases moved
      obtain ⟨body, dumped, framed⟩ := Option.bind_eq_some_iff.mp serialized
      refine inv_move inv old rfl rfl (List.prefix_append _ _) (List.prefix_refl _) ?_
        (by rintro m ⟨⟩)
      exact ⟨fun _ => rfl, fun alive => (settled alive).send dumped framed⟩
    · cases moved
      exact inv_stay inv old rfl rfl settled (by rintro m ⟨⟩)
  · cases moved

/-- A call after whose step the connection is dead. -/
theorem inv_kill (inv : Inv codec sockPoolSz s) (old : s.calls c = some ⟨message, before⟩)
    (holds : before.socket = some x) (up : List UInt8) :
    Inv codec sockPoolSz ((s.setConn x { s.conns x with up, dead := true }).setCall c message
      (.releasing x .nothing)) :=
  inv_move inv old holds rfl (List.prefix_refl _) (List.prefix_refl _) (by rintro ⟨⟩)
    (by rintro m ⟨⟩)

theorem inv_sendFails {k : Nat} (inv : Inv codec sockPoolSz s)
    (moved : step codec s (.sendFails c k) = some s') : Inv codec sockPoolSz s' := by
  simp only [step] at moved
  split at moved
  · rename_i message x old
    obtain ⟨whole, _, rfl⟩ := Option.map_eq_some_iff.mp moved
    exact inv_kill inv old rfl _
  · cases moved

theorem inv_recvFails (inv : Inv codec sockPoolSz s)
    (moved : step codec s (.recvFails c) = some s') : Inv codec sockPoolSz s' := by
  simp only [step] at moved
  split at moved
  · rename_i message x got old
    split at moved
    · cases moved
      exact inv_kill inv old rfl _
    · cases moved
  · cases moved

theorem inv_recv {k : Nat} (inv : Inv codec sockPoolSz s)
    (moved : step codec s (.recv c k) = some s') : Inv codec sockPoolSz s' := by
  simp only [step] at moved
  split at moved
  · rename_i message x got old
    split at moved
    · rename_i guard
      obtain ⟨alive, pos, _, available⟩ := guard
      cases moved
      refine inv_move inv old rfl rfl (List.prefix_refl _) (List.prefix_refl _) ?_
        (by rintro m ⟨⟩)
      have serves : (s.conns x).Serves codec c message (.reading x got) := inv.busy c _ x old rfl
      have dying : (s.conns x).dead ≠ true := by
        rw [alive]
        exact Bool.false_ne_true
      exact ⟨fun dead => absurd dead dying, fun alive => (serves.2 alive).recv pos available⟩
    · cases moved
  · cases moved

/-- At the end of the stream nothing has been decoded. -/
theorem endOfStream_not_decoded {logged : Bool} {got : List UInt8} {m : Json} :
    (endOfStream logged got).result ≠ .decoded m := by
  unfold endOfStream
  split
  · exact nofun
  · split
    · exact nofun
    · exact nofun

theorem inv_recvEnds {logged : Bool} (inv : Inv codec sockPoolSz s)
    (moved : step codec s (.recvEnds c logged) = some s') : Inv codec sockPoolSz s' := by
  simp only [step] at moved
  split at moved
  · rename_i message x got old
    split at moved
    · rename_i guard
      cases moved
      refine inv_stay inv old rfl rfl ?_ ?_
      · exact fun alive => Connection.settled_of_ended alive guard.2
      · intro m decoded
        exact absurd (Option.some.inj decoded) endOfStream_not_decoded
    · cases moved
  · cases moved

theorem inv_received {logged : Bool} (inv : Inv codec sockPoolSz s)
    (moved : step codec s (.received c logged) = some s') : Inv codec sockPoolSz s' := by
  simp only [step] at moved
  split at moved
  · rename_i message x got old
    split at moved
    · rename_i complete
      cases moved
      have serves : (s.conns x).Serves codec c message (.reading x got) := inv.busy c _ x old rfl
      have alive : (s.conns x).dead = false := by
        rw [← Bool.not_eq_true]
        intro dead
        rw [serves.1 dead] at complete
        cases complete
      obtain ⟨settled, answers⟩ := (serves.2 alive).complete complete
      refine inv_stay inv old rfl rfl (fun _ => settled) ?_
      intro m decoded
      exact answers logged m (Option.some.inj decoded)
    · cases moved
  · cases moved

theorem inv_giveBack (inv : Inv codec sockPoolSz s)
    (moved : step codec s (.release c) = some s') : Inv codec sockPoolSz s' := by
  simp only [step] at moved
  split at moved
  · rename_i message x result old
    cases moved
    exact inv_release inv old
  · cases moved

end Steps

theorem inv_step {codec : Codec} {sockPoolSz : Nat} {s s' : State} {a : Action}
    (inv : Inv codec sockPoolSz s) (moved : step codec s a = some s') :
    Inv codec sockPoolSz s' := by
  cases a with
  | call c message => exact inv_call inv moved
  | check c => exact inv_check inv moved
  | pop c => exact inv_getSock inv moved
  | sendAll c => exact inv_sendAll inv moved
  | sendFails c k => exact inv_sendFails inv moved
  | recv c k => exact inv_recv inv moved
  | recvEnds c logged => exact inv_recvEnds inv moved
  | recvFails c => exact inv_recvFails inv moved
  | received c logged => exact inv_received inv moved
  | release c => exact inv_giveBack inv moved
  | peer x a =>
    obtain ⟨conn, stepped, rfl⟩ := Option.map_eq_some_iff.mp moved
    exact inv_peer inv stepped

theorem inv_run {codec : Codec} {sockPoolSz : Nat} {as : List Action} {s : State}
    (run : (system codec sockPoolSz).Run as s) : Inv codec sockPoolSz s :=
  System.run_invariant (P := Inv codec sockPoolSz) inv_initial
    (fun _ _ _ inv moved => inv_step inv moved) run

/-- Whatever the calls do and however they end: the sockets in the pool and those held by
calls are exactly the sockets of the pool; and a message that a call returns as decoded is read
from the reply that the peer produced for the call's own request, the `k`-th that was sent on
some connection and the `k`-th that the peer dealt with there. -/
theorem no_crosstalk (codec : Codec) (sockPoolSz : Nat) {as : List Action} {s : State}
    (run : (system codec sockPoolSz).Run as s) :
    Pool.Exact sockPoolSz s.idle s.held ∧
      ∀ c message m, s.calls c = some ⟨message, .returned (.decoded m)⟩ →
        ∃ (x k : Nat) (body : List UInt8) (reply : Json) (text : List UInt8),
          (s.conns x).requests[k]? = some c ∧ codec.dumps message = some body ∧
            (s.conns x).handled[k]? = some (body, some reply) ∧
              codec.dumps reply = some text ∧ codec.loads text = some m := by
  have inv := inv_run run
  refine ⟨inv.pool, ?_⟩
  intro c message m returned
  exact inv.answers c ⟨message, .returned (.decoded m)⟩ m returned rfl

/-- The codec of messages that are dictionaries. -/
def Codec.ofModule (json : JsonModule) : Codec where
  dumps
    | .obj items => some (json.dumps items)
    | _ => none
  loads := json.loads

/-- Two calls share one socket: the message of the first is no dictionary, so that `serialize`
raises, and the second gets its reply in three pieces. -/
theorem no_crosstalk_two :
    ∃ as s message m, (system (Codec.ofModule Json.objectModule) 1).Run as s ∧
      s.calls 1 = some ⟨message, .returned (.decoded m)⟩ ∧
        ∃ (x k : Nat) (body : List UInt8) (reply : Json), (s.conns x).requests[k]? = some 1 ∧
          (s.conns x).handled[k]? = some (body, some reply) := by
  have served : ((system (Codec.ofModule Json.objectModule) 1).runFrom
      (system (Codec.ofModule Json.objectModule) 1).init
        [.call 0 .null, .check 0, .call 1 (.obj []), .pop 0, .sendAll 0, .release 0, .check 1,
          .pop 1, .sendAll 1, .peer 0 (.recv 8), .peer 0 (.recv 2), .peer 0 (.request true),
          .peer 0 (.process (some (.obj []))), .peer 0 .reply, .recv 1 7, .recv 1 1, .recv 1 2,
          .received 1 true, .release 1]).any (fun s =>
            (s.calls 1).any fun call => call.phase.decoded.isSome) = true := by decide +kernel
  obtain ⟨s, run, returned⟩ := (Option.any_eq_true _ _).mp served
  obtain ⟨⟨message, phase⟩, here, decoded⟩ := (Option.any_eq_true _ _).mp returned
  obtain ⟨m, some_m⟩ := Option.isSome_iff_exists.mp decoded
  have phase_eq : phase = .returned (.decoded m) := Phase.decoded_eq_some some_m
  rw [phase_eq] at here
  obtain ⟨x, k, body, reply, text, own, _, answer, _⟩ :=
    (no_crosstalk (Codec.ofModule Json.objectModule) 1 run).2 1 message m here
  exact ⟨_, s, message, m, run, here, x, k, body, reply, own, answer⟩

end Col733.Lab3.TcpClient

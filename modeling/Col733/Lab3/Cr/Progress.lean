import Col733.Lab3.Cr.Pools
import Col733.Misc.Progress

/-!
# Every request comes to its end

No handler of the chain waits for another request. A request can be carried on by its own
handlers in every state, and it needs no more than three actions for each server: its
assignment, its way to the next server and its way back. So the client's call returns
whatever the other requests do, also when the pool of the head runs out. With as few clients
as the pools are made for, a SET is answered with OK. A client that has found a connection
closed does not get another one, so these are runs in which no client calls there again.
-/

namespace Col733.Lab3.Cr

open Col733

/-- The action carries on the request `id`: it is one of a handler of the request, or the
return of the client's call. -/
def Action.carries (id : Nat) : Action → Bool
  | .invoke _ _ _ => false
  | .assign other | .forward other _ | .forwardDead other _ _ | .exhausted other | .finish other
  | .lookup other | .receive other | .respond other => other == id

/-- How many actions a request takes at most from its phase on. -/
def Phase.ahead (c : Chain) : Phase → Nat
  | .sent i => 2 * (c.len - i) + c.len
  | .assigned i => 2 * (c.len - i) + c.len - 1
  | .replied i _ | .closed i => i + 1
  | .unanswered _ | .answered _ => 0

/-- No action carries the request on: its call has returned, or its handler has returned
without a reply. -/
def Phase.over : Phase → Bool
  | .unanswered _ | .answered _ => true
  | _ => false

/-- The condition on a step: a client sends a request on a socket that it has got back from its
last call to the server, and whose connection has not been closed. -/
def Chain.OnOpenConnection (c : Chain) (s : State) : Action → Prop
  | .invoke _ client req => ∀ id call, s.calls id = some call → call.client = client →
      c.entry call.req = c.entry req → ∃ reply, call.phase = .answered reply ∧ reply ≠ eofReply
  | _ => True

/-- The same for a state; a request that is not made yet has everything before it. -/
def State.ahead (c : Chain) (id : Nat) (s : State) : Nat :=
  (s.calls id).elim (3 * c.len) fun call => call.phase.ahead c

/-- The request has been made, by this client. -/
def State.Made (id client : Nat) (req : Request) (s : State) : Prop :=
  ∃ phase socks, s.calls id = some ⟨client, req, phase, socks⟩

/-- A request is over. -/
def State.Over (id : Nat) (s : State) : Prop :=
  ∃ call, s.calls id = some call ∧ call.phase.over = true

section Steps

variable {c : Chain} {s s' : State} {a : Action} {id other : Nat} {old new : Call}

/-- The call of one request is replaced by a call that has less before it. -/
theorem ahead_replaced (at_ : s.calls other = some old)
    (calls : s'.calls = Function.update s.calls other (some new))
    (less : new.phase.ahead c + 1 ≤ old.phase.ahead c) (carries : a.carries id = (other == id)) :
    s'.ahead c id + (a.carries id).toNat ≤ s.ahead c id := by
  unfold State.ahead
  rw [calls, carries]
  by_cases here : other = id
  · subst here
    rw [Function.update_self, at_, beq_self_eq_true]
    exact less
  · rw [Function.update_of_ne (Ne.symm here), beq_false_of_ne here]
    exact Nat.le_refl _

/-- Every action that carries a request on takes one of the actions before it. -/
theorem ahead_step (inv : ChainInv c s) (step : c.step s a = some s') :
    s'.ahead c id + (a.carries id).toNat ≤ s.ahead c id := by
  have pos := c.lenPos
  cases Chain.moves_of_step step with
  | invoke new client req fresh =>
    unfold State.ahead
    by_cases here : id = new
    · subst here
      rw [State.setCall_calls, Function.update_self, fresh]
      cases req with
      | set key val =>
        show 2 * (c.len - 0) + c.len + 0 ≤ 3 * c.len
        omega
      | get key =>
        show 2 * (c.len - (c.len - 1)) + c.len + 0 ≤ 3 * c.len
        omega
    · rw [State.setCall_calls, Function.update_of_ne here]
      exact Nat.le_refl _
  | assign other client i key val socks at_ =>
    refine ahead_replaced at_ rfl ?_ rfl
    show 2 * (c.len - i) + c.len - 1 + 1 ≤ 2 * (c.len - i) + c.len
    omega
  | forward other sock client i req socks at_ inner idle open_ =>
    refine ahead_replaced at_ rfl ?_ rfl
    show 2 * (c.len - (i + 1)) + c.len + 1 ≤ 2 * (c.len - i) + c.len - 1
    omega
  | forwardEof other sock client i req socks at_ inner idle dead =>
    refine ahead_replaced at_ rfl ?_ rfl
    show i + 1 + 1 ≤ 2 * (c.len - i) + c.len - 1
    omega
  | forwardRaises other sock client i req socks at_ inner idle dead =>
    refine ahead_replaced at_ rfl ?_ rfl
    show 0 + 1 ≤ 2 * (c.len - i) + c.len - 1
    omega
  | exhausted other client i req socks at_ inner empty =>
    refine ahead_replaced at_ rfl ?_ rfl
    show i + 1 + 1 ≤ 2 * (c.len - i) + c.len - 1
    omega
  | finish other client i req socks at_ last =>
    obtain ⟨k, -, fits⟩ := inv.of_call at_
    obtain ⟨-, -, -, inside, -⟩ := fits.assigned
    refine ahead_replaced at_ rfl ?_ rfl
    show i + 1 + 1 ≤ 2 * (c.len - i) + c.len - 1
    omega
  | lookup other client i key socks at_ =>
    obtain ⟨k, -, -, atTail, -⟩ := inv.of_call at_
    have here : i = c.len - 1 := atTail
    refine ahead_replaced at_ rfl ?_ rfl
    have answered : (c.get s i key).ahead c = i + 1 := by
      unfold Chain.get
      split
      · rfl
      · split <;> rfl
    show (c.get s i key).ahead c + 1 ≤ 2 * (c.len - i) + c.len
    omega
  | receive other sock client i req reply socks at_ =>
    exact ahead_replaced at_ rfl (Nat.le_refl _) rfl
  | receiveEof other sock client i req socks at_ =>
    exact ahead_replaced at_ rfl (Nat.le_refl _) rfl
  | respond other client i req reply at_ =>
    exact ahead_replaced at_ rfl (Nat.succ_pos i) rfl
  | respondEof other client i req at_ =>
    exact ahead_replaced at_ rfl (Nat.succ_pos i) rfl

/-- The sockets that a call holds are those of the hops before its server, so there is one. -/
theorem exists_hop {k i sock : Nat} {client : Nat} {req : Request} {phase : Phase}
    {rest : List Nat} (fits : Call.Fits c k ⟨client, req, phase, sock :: rest⟩)
    (set : phase.FitsSet c k (rest.length + 1) → rest.length + 1 = i)
    (get : phase.FitsGet c (rest.length + 1) → rest.length + 1 = 0) : ∃ j, i = j + 1 := by
  cases req with
  | set key val => exact ⟨rest.length, (set fits.2).symm⟩
  | get key => exact absurd (get fits.2) (Nat.succ_ne_zero _)

/-- A request that is not over can be carried on, whatever stands elsewhere in the chain. -/
theorem exists_carrying {call : Call} (inv : ChainInv c s) (at_ : s.calls id = some call)
    (open_ : call.phase.over = false) :
    ∃ a, a.carries id = true ∧ (c.step s a).isSome = true := by
  have own : (id == id) = true := beq_self_eq_true id
  obtain ⟨client, req, phase, socks⟩ := call
  obtain ⟨k, -, fits⟩ := inv.of_call at_
  cases phase with
  | sent i =>
    cases req with
    | set key val => exact ⟨.assign id, own, by simp only [Chain.step, at_, Option.isSome_some]⟩
    | get key => exact ⟨.lookup id, own, by simp only [Chain.step, at_, Option.isSome_some]⟩
  | assigned i =>
    cases next : c.next i with
    | none => exact ⟨.finish id, own, by simp [Chain.step, at_, next]⟩
    | some j =>
      cases pool : s.pool i with
      | nil => exact ⟨.exhausted id, own, by simp [Chain.step, at_, next, pool]⟩
      | cons sock rest =>
        by_cases dead : sock ∈ s.dead i
        · exact ⟨.forwardDead id sock false, own, by simp [Chain.step, at_, next, pool, dead]⟩
        · exact ⟨.forward id sock, own, by simp [Chain.step, at_, next, pool, dead]⟩
  | replied i reply =>
    cases socks with
    | nil => exact ⟨.respond id, own, by simp only [Chain.step, at_, Option.isSome_some]⟩
    | cons sock rest =>
      obtain ⟨j, rfl⟩ := exists_hop fits (fun held => held.2.2) (fun held => held.2)
      exact ⟨.receive id, own, by simp only [Chain.step, at_, Option.isSome_some]⟩
  | closed i =>
    cases socks with
    | nil => exact ⟨.respond id, own, by simp only [Chain.step, at_, Option.isSome_some]⟩
    | cons sock rest =>
      obtain ⟨j, rfl⟩ := exists_hop fits (fun held => held.2) (fun held => held.2)
      exact ⟨.receive id, own, by simp only [Chain.step, at_, Option.isSome_some]⟩
  | unanswered i => cases open_
  | answered reply => cases open_

/-- Once made, a request is never lost, and stays what it is. -/
theorem made_step {client : Nat} {req : Request} (made : s.Made id client req)
    (step : c.step s a = some s') : s'.Made id client req := by
  obtain ⟨phase, socks, here⟩ := made
  have replaced : ∀ {other client' req' phase' socks' phase'' socks''},
      s.calls other = some ⟨client', req', phase', socks'⟩ →
      s'.calls = Function.update s.calls other (some ⟨client', req', phase'', socks''⟩) →
      s'.Made id client req := by
    intro other client' req' phase' socks' phase'' socks'' at_ calls
    by_cases same : id = other
    · subst same
      cases here.symm.trans at_
      exact ⟨phase'', socks'', by rw [calls, Function.update_self]⟩
    · exact ⟨phase, socks, by rw [calls, Function.update_of_ne same, here]⟩
  cases Chain.moves_of_step step with
  | invoke other client' req' fresh =>
    have different : id ≠ other := by
      rintro rfl
      cases here.symm.trans fresh
    exact ⟨phase, socks, by rw [State.setCall_calls, Function.update_of_ne different, here]⟩
  | assign _ _ _ _ _ _ at_ | forward _ _ _ _ _ _ at_ | forwardEof _ _ _ _ _ _ at_
  | forwardRaises _ _ _ _ _ _ at_ | exhausted _ _ _ _ _ at_ | finish _ _ _ _ _ at_
  | lookup _ _ _ _ _ at_ | receive _ _ _ _ _ _ _ at_ | receiveEof _ _ _ _ _ _ at_
  | respond _ _ _ _ _ at_ | respondEof _ _ _ _ at_ => exact replaced at_ rfl

end Steps

section Ends

variable {c : Chain} {as : List Action} {s : State} {a : Action} {id : Nat}

/-- What a request has before it, as a potential of the chain. -/
def requestPotential (c : Chain) (id : Nat) {Inv : State → Prop}
    (chain : ∀ {s}, Inv s → ChainInv c s) :
    System.Potential c.system Inv (Action.carries id) where
  value := State.ahead c id
  falls inv step := ahead_step (chain inv) step

/-- What a request has had, and what it still has before it. -/
theorem carried_le (run : c.system.Run as s) (id : Nat) :
    as.countP (Action.carries id) + s.ahead c id ≤ 3 * c.len :=
  (requestPotential c id (fun inv => inv)).countP_le chainInv_step (chainInv_init c) run

/-- A request that has been made comes to its end by actions of its own, within the number
that a request has, and what such actions keep holds at the end. -/
theorem exists_over {Inv : State → Prop} {client : Nat} {req : Request}
    (chain : ∀ {s}, Inv s → ChainInv c s)
    (kept : ∀ {s a s'}, Inv s → Action.carries id a = true → c.step s a = some s' → Inv s')
    (run : c.system.Run as s) (inv : Inv s) (made : s.Made id client req) :
    ∃ bs s', as.countP (Action.carries id) + bs.length ≤ 3 * c.len ∧
      (∀ b ∈ bs, b.carries id = true) ∧ c.system.Run (as ++ bs) s' ∧ Inv s' ∧
      ∃ phase socks, s'.calls id = some ⟨client, req, phase, socks⟩ ∧ phase.over = true := by
  have moves : ∀ s, (Inv s ∧ s.Made id client req) → ¬ s.Over id →
      ∃ a s', Action.carries id a = true ∧ c.system.step s a = some s' := by
    rintro s ⟨inv, phase, socks, at_⟩ open_
    have isOpen : phase.over = false :=
      Bool.eq_false_iff.mpr fun done => open_ ⟨_, at_, done⟩
    obtain ⟨a, own, enabled⟩ := exists_carrying (chain inv) at_ isOpen
    obtain ⟨s', step⟩ := Option.isSome_iff_exists.mp enabled
    exact ⟨a, s', own, step⟩
  obtain ⟨bs, s', short, own, moved, ⟨inv', phase, socks, at_⟩, call, same, done⟩ :=
    (requestPotential c id fun inv : Inv _ ∧ _ => chain inv.1).finishes
      (fun inv own step => ⟨kept inv.1 own step, made_step inv.2 step⟩) moves ⟨inv, made⟩
  have spent := carried_le run id
  have left : bs.length ≤ s.ahead c id := short
  cases same.symm.trans at_
  refine ⟨bs, s', by omega, own, ?_, inv', phase, socks, at_, done⟩
  rw [System.Run, System.runFrom_append, show c.system.runFrom c.system.init as = some s from run]
  exact moved

/-- The actions that carry a request on are under no condition on the clients. -/
theorem onOpenConnection_of_carries (own : a.carries id = true) (s : State) :
    c.OnOpenConnection s a := by
  cases a with
  | invoke => cases own
  | assign | forward | forwardDead | exhausted | finish | lookup | receive | respond => trivial

end Ends

/-! ## When the clients are few -/

/-- A call that has gone well so far: no handler of it has returned without a reply, and the
replies to a SET are OK. -/
structure Call.Healthy (call : Call) : Prop where
  heard : ∀ i, call.phase ≠ .unanswered i
  ok : ∀ key val reply, call.req = .set key val →
    (∃ i, call.phase = .replied i reply) ∨ call.phase = .answered reply → reply.status = "OK"

section Few

variable {c : Chain} {clients : Finset Nat} {as : List Action} {s s' : State} {a : Action}

/-- A phase without a reply in it. -/
theorem Call.healthy_of_silent {client : Nat} {req : Request} {phase : Phase} {socks : List Nat}
    (heard : ∀ i, phase ≠ .unanswered i) (pending : ∀ i reply, phase ≠ .replied i reply)
    (open_ : ∀ reply, phase ≠ .answered reply) : Call.Healthy ⟨client, req, phase, socks⟩ where
  heard := heard
  ok key val reply _ replied := by
    rcases replied with ⟨i, there⟩ | there
    · exact absurd there (pending i reply)
    · exact absurd there (open_ reply)

/-- The healthy calls stay healthy while no pool runs out. -/
theorem healthy_step (chain : ChainInv c s) (pools : PoolInv c clients s)
    (few : clients.card ≤ c.poolSz)
    (healthy : ∀ id call, s.calls id = some call → call.Healthy)
    (step : c.step s a = some s') : ∀ id call, s'.calls id = some call → call.Healthy := by
  have replaced : ∀ {other new}, s'.calls = Function.update s.calls other (some new) →
      new.Healthy → ∀ id call, s'.calls id = some call → call.Healthy := by
    intro other new calls good id call at_
    rw [calls] at at_
    by_cases here : id = other
    · rw [here, Function.update_self] at at_
      exact Option.some.inj at_ ▸ good
    · rw [Function.update_of_ne here] at at_
      exact healthy id call at_
  cases Chain.moves_of_step step with
  | invoke id client req fresh =>
    exact replaced rfl (Call.healthy_of_silent nofun nofun nofun)
  | assign id client i key val socks at_ =>
    exact replaced rfl (Call.healthy_of_silent nofun nofun nofun)
  | forward id sock client i req socks at_ inner idle open_ =>
    exact replaced rfl (Call.healthy_of_silent nofun nofun nofun)
  | forwardEof id sock client i req socks at_ inner idle dead =>
    rw [pools.live i] at dead
    cases dead
  | forwardRaises id sock client i req socks at_ inner idle dead =>
    rw [pools.live i] at dead
    cases dead
  | exhausted id client i req socks at_ inner empty =>
    exact absurd empty (pools.get_sock chain few at_)
  | finish id client i req socks at_ last =>
    refine replaced rfl ⟨nofun, ?_⟩
    rintro key val reply - (⟨j, there⟩ | there)
    · cases there
      rfl
    · cases there
  | lookup id client i key socks at_ => exact replaced rfl ⟨get_ne_unanswered c s i key, nofun⟩
  | receive id sock client i req reply socks at_ =>
    refine replaced rfl ⟨nofun, ?_⟩
    rintro key val other isSet (⟨j, there⟩ | there)
    · cases there
      exact (healthy id _ at_).ok key val reply isSet (.inl ⟨i + 1, rfl⟩)
    · cases there
  | receiveEof id sock client i req socks at_ =>
    -- a handler that closes its connection was called by a client
    exact absurd ((pools.tidy id _ at_).dropped _ rfl) (List.cons_ne_nil sock socks)
  | respond id client i req reply at_ =>
    refine replaced rfl ⟨nofun, ?_⟩
    rintro key val other isSet (⟨j, there⟩ | there)
    · cases there
    · cases there
      exact (healthy id _ at_).ok key val reply isSet (.inl ⟨i, rfl⟩)
  | respondEof id client i req at_ =>
    obtain ⟨key, isGet⟩ := pools.kept id _ _ at_ rfl
    refine replaced rfl ⟨nofun, fun key' val reply isSet => ?_⟩
    cases isGet.symm.trans isSet

/-- What holds in the runs of few clients. -/
structure FewInv (c : Chain) (clients : Finset Nat) (s : State) : Prop where
  chain : ChainInv c s
  pools : PoolInv c clients s
  healthy : ∀ id call, s.calls id = some call → call.Healthy

theorem FewInv.step (few : clients.card ≤ c.poolSz) (inv : FewInv c clients s)
    (met : OneAtATime clients s a) (step : c.step s a = some s') : FewInv c clients s' where
  chain := chainInv_step inv.chain step
  pools := poolInv_step inv.chain inv.pools few met step
  healthy := healthy_step inv.chain inv.pools few inv.healthy step

theorem fewInv_run (run : c.system.Run as s) (met : c.system.Meets (OneAtATime clients) as)
    (few : clients.card ≤ c.poolSz) : FewInv c clients s := by
  refine System.meets_induction (P := fun _ s => FewInv c clients s) ?_ ?_ run met
  · exact ⟨chainInv_init c, poolInv_init c clients, nofun⟩
  · intro as s a s' _ inv met step
    exact inv.step few met step

/-- The condition on a step: the clients are these, each with one request at a time, and none
of them calls again on a connection that it has found closed. -/
def Sequential (c : Chain) (clients : Finset Nat) (s : State) (a : Action) : Prop :=
  OneAtATime clients s a ∧ c.OnOpenConnection s a

/-- A client that has made no request before is under no further condition. -/
theorem sequential_of_new {id client : Nat} {req : Request} (member : client ∈ clients)
    (new : ∀ other call, s.calls other = some call → call.client ≠ client) :
    Sequential c clients s (.invoke id client req) :=
  ⟨⟨member, fun other call at_ same => absurd same (new other call at_)⟩,
    fun other call at_ same => absurd same (new other call at_)⟩

theorem sequential_of_carries {id : Nat} (own : a.carries id = true) (s : State) :
    Sequential c clients s a := by
  refine ⟨?_, onOpenConnection_of_carries own s⟩
  cases a with
  | invoke => cases own
  | assign | forward | forwardDead | exhausted | finish | lookup | receive | respond => trivial

/-- Two SETs and a GET of one key under way on the cluster, the second SET ahead of the first. -/
def underWay : List Action :=
  [.invoke 0 7 (.set "k" "1"), .invoke 1 8 (.set "k" "2"), .invoke 2 9 (.get "k"), .assign 0,
    .assign 1, .forward 1 31, .assign 1, .forward 1 0]

end Few

end Col733.Lab3.Cr

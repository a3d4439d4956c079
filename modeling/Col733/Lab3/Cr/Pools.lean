import Col733.Lab3.Cr.Applied
import Col733.Misc.Pool

/-!
# The pools suffice

A SET that stands at server `i` holds one socket of each of the hops before `i`, the
one towards server `j + 1` being the `j`-th that was taken. So a socket of a hop that
is not in its pool belongs to a SET that is waiting for its reply, and to no other. A
SET behind the head holds a socket of the hop before, of which there are no more than
of the next one; so only the pool of the head can run out, and no connection between
two servers is ever closed. With one request at a time from each client there are never
more SETs waiting than clients, and the one that is about to call `get_sock` has no
socket of its hop yet.
-/

namespace Col733.Lab3.Cr

open Col733

/-- The call of the client has not returned yet. -/
def Call.waiting (call : Call) : Bool :=
  match call.phase with
  | .answered _ => false
  | _ => true

/-- The requests that wait for their reply. -/
def State.waiting (s : State) : Set Nat :=
  {id | ∃ call, s.calls id = some call ∧ call.waiting = true}

/-- The SETs among them: the outstanding SETs. -/
def State.outstanding (s : State) : Set Nat :=
  {id | ∃ call key val, s.calls id = some call ∧ call.req = .set key val ∧ call.waiting = true}

/-- The condition on a step: only the `clients` send requests, and none of them does
before its last call has returned. -/
def OneAtATime (clients : Finset Nat) (s : State) : Action → Prop
  | .invoke _ client _ =>
    client ∈ clients ∧
      ∀ id call, s.calls id = some call → call.client = client → call.waiting = false
  | _ => True

/-- The socket of the hop from server `i` that the request `id` holds. -/
def State.held (s : State) (i id : Nat) : Option Nat :=
  (s.calls id).bind fun call => call.socks.reverse[i]?

theorem held_of_call {s : State} {id : Nat} {call : Call} (at_ : s.calls id = some call)
    (i : Nat) : s.held i id = call.socks.reverse[i]? := by
  rw [State.held, at_, Option.bind_some]

/-- What is held after a call has been replaced. -/
theorem held_update {s s' : State} {id : Nat} {new : Call}
    (calls : s'.calls = Function.update s.calls id (some new)) (i : Nat) :
    s'.held i = Function.update (s.held i) id new.socks.reverse[i]? := by
  funext other
  rw [State.held, calls]
  by_cases here : other = id
  · subst here
    rw [Function.update_self, Function.update_self, Option.bind_some]
  · rw [Function.update_of_ne here, Function.update_of_ne here, State.held]

/-- A socket on top of the stack is that of the hop whose number is the height below. -/
theorem reverse_cons_getElem? (sock : Nat) (socks : List Nat) (i : Nat) :
    (sock :: socks).reverse[i]? = if i = socks.length then some sock else socks.reverse[i]? := by
  rw [List.reverse_cons, List.getElem?_append, List.length_reverse]
  split
  · rw [if_neg (by omega)]
  · rename_i outside
    by_cases top : i = socks.length
    · simp [top]
    · rw [if_neg top, List.getElem?_eq_none (by simp; omega),
        List.getElem?_eq_none (by simp; omega)]

/-- What the invariant says of one call: sockets are held for a SET that is waiting
only, and a handler that has closed its connection was the client's. -/
structure Call.Tidy (call : Call) : Prop where
  holds : call.socks ≠ [] → call.waiting = true ∧ ∃ key val, call.req = .set key val
  dropped : ∀ i, call.phase = .closed i → call.socks = []
  heard : ∀ i, call.phase ≠ .unanswered i

/-- The handler has neither raised nor returned without a reply. -/
def Phase.replies : Phase → Bool
  | .closed _ | .unanswered _ => false
  | .sent _ | .assigned _ | .replied _ _ | .answered _ => true

theorem Call.tidy_of_replies {call : Call} (replies : call.phase.replies = true)
    (holds : call.socks ≠ [] → call.waiting = true ∧ ∃ key val, call.req = .set key val) :
    call.Tidy where
  holds := holds
  dropped i gone := by
    rw [gone] at replies
    cases replies
  heard i gone := by
    rw [gone] at replies
    cases replies

/-- The invariant of the hops: each has its sockets in the pool or in the hands of one
request each, and no connection is closed. -/
structure HopInv (c : Chain) (s : State) : Prop where
  exact : ∀ i, Pool.Exact c.poolSz (s.pool i) (s.held i)
  live : ∀ i, s.dead i = []
  tidy : ∀ id call, s.calls id = some call → call.Tidy

/-- The invariant with few clients: each of them has one request at most, and no SET is
dropped. -/
structure PoolInv (c : Chain) (clients : Finset Nat) (s : State) : Prop extends HopInv c s where
  kept : ∀ id call i, s.calls id = some call → call.phase = .closed i → ∃ key, call.req = .get key
  member : ∀ id call, s.calls id = some call → call.waiting = true → call.client ∈ clients
  single : ∀ id id' call call', s.calls id = some call → s.calls id' = some call' →
    call.waiting = true → call'.waiting = true → call.client = call'.client → id = id'

section Counting

variable {c : Chain} {clients : Finset Nat} {s : State}

/-- There are at most as many requests waiting as clients. -/
theorem PoolInv.waiting_le (inv : PoolInv c clients s) :
    s.waiting.Finite ∧ s.waiting.ncard ≤ clients.card := by
  let clientOf (id : Nat) : Nat := ((s.calls id).map Call.client).getD 0
  have maps : Set.MapsTo clientOf s.waiting (clients : Set Nat) := by
    rintro id ⟨call, at_, waits⟩
    have here : clientOf id = call.client := by simp [clientOf, at_]
    rw [here]
    exact inv.member id call at_ waits
  have injective : Set.InjOn clientOf s.waiting := by
    rintro id ⟨call, at_, waits⟩ id' ⟨call', at_', waits'⟩ same
    have sameClient : call.client = call'.client := by simpa [clientOf, at_, at_'] using same
    exact inv.single id id' call call' at_ at_' waits waits' sameClient
  have finite : s.waiting.Finite :=
    Set.Finite.of_injOn maps injective clients.finite_toSet
  refine ⟨finite, ?_⟩
  have bound := Set.ncard_le_ncard_of_injOn clientOf maps injective clients.finite_toSet
  rwa [Set.ncard_coe_finset] at bound

theorem outstanding_subset_waiting (s : State) : s.outstanding ⊆ s.waiting := by
  rintro id ⟨call, key, val, at_, -, waits⟩
  exact ⟨call, at_, waits⟩

/-- Only outstanding SETs hold sockets. -/
theorem HopInv.holders_subset (inv : HopInv c s) (i : Nat) :
    {id | (s.held i id).isSome} ⊆ s.outstanding := by
  intro id holds
  obtain ⟨sock, held⟩ := Option.isSome_iff_exists.mp holds
  obtain ⟨call, at_, taken⟩ := Option.bind_eq_some_iff.mp held
  have some_ : call.socks ≠ [] := by
    intro none_
    rw [none_] at taken
    cases taken
  obtain ⟨waits, key, val, req⟩ := (inv.tidy id call at_).holds some_
  exact ⟨call, key, val, at_, req, waits⟩

theorem PoolInv.outstanding_finite (inv : PoolInv c clients s) : s.outstanding.Finite :=
  inv.waiting_le.1.subset (outstanding_subset_waiting s)

/-- The sockets of a hop in use are at most as many as the outstanding SETs. -/
theorem PoolInv.inUse_le (inv : PoolInv c clients s) (i : Nat) :
    (Pool.inUse c.poolSz (s.pool i)).card ≤ s.outstanding.ncard := by
  rw [← (inv.exact i).ncard_holders]
  exact Set.ncard_le_ncard (inv.holders_subset i) inv.outstanding_finite

/-- A waiting request without a socket of the hop finds one, if the clients are few. -/
theorem PoolInv.pool_ne_nil (inv : PoolInv c clients s) (few : clients.card ≤ c.poolSz)
    {i id : Nat} (waits : id ∈ s.waiting) (without : s.held i id = none) : s.pool i ≠ [] := by
  intro empty
  obtain ⟨finite, bound⟩ := inv.waiting_le
  have sub : {id | (s.held i id).isSome} ⊆ s.waiting :=
    (inv.holders_subset i).trans (outstanding_subset_waiting s)
  have fewer : {id | (s.held i id).isSome}.ncard < s.waiting.ncard := by
    refine Set.ncard_lt_ncard ⟨sub, fun back => ?_⟩ finite
    have holds : (s.held i id).isSome := back waits
    rw [without] at holds
    cases holds
  have used := (inv.exact i).ncard_holders
  rw [empty, Pool.inUse_nil, Finset.card_range] at used
  omega

/-- Whoever holds a socket of a hop holds one of the hop before. -/
theorem holders_succ_subset (s : State) (i : Nat) :
    {id | (s.held (i + 1) id).isSome} ⊆ {id | (s.held i id).isSome} := by
  intro id holds
  obtain ⟨sock, held⟩ := Option.isSome_iff_exists.mp holds
  obtain ⟨call, at_, taken⟩ := Option.bind_eq_some_iff.mp held
  obtain ⟨inside, -⟩ := List.getElem?_eq_some_iff.mp taken
  show (s.held i id).isSome
  rw [held_of_call at_, List.getElem?_eq_getElem (Nat.lt_of_succ_lt inside)]
  rfl

/-- Behind the head no pool runs out: whoever has got there holds a socket of the hop before,
and so do all that hold a socket of this one. -/
theorem HopInv.pool_succ_ne_nil (inv : HopInv c s) {i id : Nat} {call : Call}
    (at_ : s.calls id = some call) (height : call.socks.length = i + 1) : s.pool (i + 1) ≠ [] := by
  intro empty
  have without : s.held (i + 1) id = none := by
    rw [held_of_call at_]
    exact List.getElem?_eq_none (by rw [List.length_reverse]; exact height.le)
  have holds : (s.held i id).isSome := by
    rw [held_of_call at_, List.getElem?_eq_getElem (by rw [List.length_reverse]; omega)]
    rfl
  have fewer : {id | (s.held (i + 1) id).isSome}.ncard < {id | (s.held i id).isSome}.ncard := by
    refine Set.ncard_lt_ncard ⟨holders_succ_subset s i, fun back => ?_⟩ (inv.exact i).finite_holders
    have here : (s.held (i + 1) id).isSome := back holds
    rw [without] at here
    cases here
  have all := (inv.exact (i + 1)).ncard_holders
  rw [empty, Pool.inUse_nil, Finset.card_range] at all
  have most := (inv.exact i).ncard_holders_le
  omega

end Counting

section Steps

variable {c : Chain} {clients : Finset Nat} {s s' : State} {id : Nat} {old new : Call}

theorem hopInv_init (c : Chain) : HopInv c c.system.init where
  exact _ := Pool.exact_initial.perm (List.reverse_perm _)
  live _ := rfl
  tidy _ _ at_ := by cases at_

theorem poolInv_init (c : Chain) (clients : Finset Nat) : PoolInv c clients c.system.init where
  toHopInv := hopInv_init c
  kept _ _ _ at_ := by cases at_
  member _ _ at_ := by cases at_
  single _ _ _ _ at_ := by cases at_

/-- A step that moves one call on, when it leaves the sockets of every hop in order. -/
theorem HopInv.replace (inv : HopInv c s) (calls : s'.calls = Function.update s.calls id (some new))
    (live : s'.dead = s.dead) (exact : ∀ i, Pool.Exact c.poolSz (s'.pool i) (s'.held i))
    (tidy : new.Tidy) : HopInv c s' := by
  refine ⟨exact, fun i => live ▸ inv.live i, fun other call now => ?_⟩
  rw [calls] at now
  by_cases here : other = id
  · subst here
    rw [Function.update_self] at now
    exact Option.some.inj now ▸ tidy
  · rw [Function.update_of_ne here] at now
    exact inv.tidy other call now

/-- The same for a step that takes no socket and gives none back. -/
theorem HopInv.keeps (inv : HopInv c s) (at_ : s.calls id = some old)
    (calls : s'.calls = Function.update s.calls id (some new)) (live : s'.dead = s.dead)
    (pool : s'.pool = s.pool) (socks : new.socks = old.socks) (tidy : new.Tidy) :
    HopInv c s' := by
  refine inv.replace calls live (fun i => ?_) tidy
  have same : s'.held i = s.held i := by
    rw [held_update calls, socks, ← held_of_call at_ i, Function.update_eq_self]
  rw [pool, same]
  exact inv.exact i

/-- The clients have one request each after a call has been moved on, too. -/
theorem PoolInv.replace (inv : PoolInv c clients s) (hop : HopInv c s')
    (at_ : s.calls id = some old) (calls : s'.calls = Function.update s.calls id (some new))
    (client : new.client = old.client) (waits : new.waiting = true → old.waiting = true)
    (kept : ∀ i, new.phase = .closed i → ∃ key, new.req = .get key) : PoolInv c clients s' := by
  have earlier : ∀ other call, s'.calls other = some call →
      (∀ i, call.phase = .closed i → ∃ key, call.req = .get key) ∧
      ∃ before, s.calls other = some before ∧ call.client = before.client ∧
        (call.waiting = true → before.waiting = true) := by
    intro other call now
    rw [calls] at now
    by_cases here : other = id
    · subst here
      rw [Function.update_self] at now
      cases now
      exact ⟨kept, old, at_, client, waits⟩
    · rw [Function.update_of_ne here] at now
      exact ⟨fun i => inv.kept other call i now, call, now, rfl, fun still => still⟩
  refine ⟨hop, fun other call i now => (earlier other call now).1 i, ?_, ?_⟩
  · intro other call now waiting
    obtain ⟨-, before, was, sameClient, waited⟩ := earlier other call now
    rw [sameClient]
    exact inv.member other before was (waited waiting)
  · intro one two call call' now now' waiting waiting' same
    obtain ⟨-, before, was, sameClient, waited⟩ := earlier one call now
    obtain ⟨-, before', was', sameClient', waited'⟩ := earlier two call' now'
    refine inv.single one two before before' was was' (waited waiting) (waited' waiting') ?_
    rw [← sameClient, ← sameClient', same]

/-- A SET at server `i` holds the sockets of the hops before `i`, and no others. -/
theorem ChainInv.assigned {client i : Nat} {req : Request} {socks : List Nat}
    (chain : ChainInv c s) (at_ : s.calls id = some ⟨client, req, .assigned i, socks⟩) :
    socks.length = i ∧ ∃ key val, req = .set key val := by
  obtain ⟨k, -, fits⟩ := chain.of_call at_
  obtain ⟨isSet, -, -, -, held⟩ := fits.assigned
  exact ⟨held, isSet⟩

/-- A reply that comes from server `i + 1` is for a SET that holds the sockets up to `i`. -/
theorem ChainInv.replied {client i sock : Nat} {req : Request} {reply : Reply} {socks : List Nat}
    (chain : ChainInv c s)
    (at_ : s.calls id = some ⟨client, req, .replied (i + 1) reply, sock :: socks⟩) :
    socks.length = i ∧ ∃ key val, req = .set key val := by
  obtain ⟨k, -, fits⟩ := chain.of_call at_
  obtain ⟨isSet, -, -, -, held⟩ := fits.replied
  exact ⟨held, isSet⟩

/-- At the call of `get_sock` the pool of the hop is not empty. -/
theorem PoolInv.get_sock {client i : Nat} {req : Request} {socks : List Nat}
    (inv : PoolInv c clients s) (chain : ChainInv c s) (few : clients.card ≤ c.poolSz)
    (at_ : s.calls id = some ⟨client, req, .assigned i, socks⟩) : s.pool i ≠ [] := by
  refine inv.pool_ne_nil few ⟨_, at_, rfl⟩ ?_
  rw [held_of_call at_]
  apply List.getElem?_eq_none
  rw [List.length_reverse]
  exact (chain.assigned at_).1.le

/-- `get_sock`: a socket of the hop goes from the pool to the request. -/
theorem HopInv.exact_getSock {i sock : Nat} (inv : HopInv c s)
    (at_ : s.calls id = some old) (calls : s'.calls = Function.update s.calls id (some new))
    (pool : s'.pool = Function.update s.pool i ((s.pool i).erase sock))
    (idle : sock ∈ s.pool i) (socks : new.socks = sock :: old.socks)
    (height : old.socks.length = i) (j : Nat) :
    Pool.Exact c.poolSz (s'.pool j) (s'.held j) := by
  rw [held_update calls, pool, socks, reverse_cons_getElem?, height]
  by_cases here : j = i
  · subst here
    rw [if_pos rfl, Function.update_self]
    refine Pool.Exact.take ((inv.exact j).perm (List.perm_cons_erase idle)) ?_
    rw [held_of_call at_]
    exact List.getElem?_eq_none (by rw [List.length_reverse]; exact height.le)
  · rw [if_neg here, Function.update_of_ne here, ← held_of_call at_ j, Function.update_eq_self]
    exact inv.exact j

/-- `release_sock`: the socket goes back. -/
theorem HopInv.exact_releaseSock {i sock : Nat} (inv : HopInv c s)
    (at_ : s.calls id = some old) (calls : s'.calls = Function.update s.calls id (some new))
    (pool : s'.pool = Function.update s.pool i (s.pool i ++ [sock]))
    (socks : old.socks = sock :: new.socks) (height : new.socks.length = i) (j : Nat) :
    Pool.Exact c.poolSz (s'.pool j) (s'.held j) := by
  have before := held_of_call at_ j
  rw [socks, reverse_cons_getElem?, height] at before
  rw [held_update calls, pool]
  by_cases here : j = i
  · subst here
    rw [if_pos rfl] at before
    have none_ : new.socks.reverse[j]? = none :=
      List.getElem?_eq_none (by rw [List.length_reverse]; exact height.le)
    rw [none_, Function.update_self]
    exact ((inv.exact j).give before).perm (List.perm_append_singleton sock _).symm
  · rw [if_neg here] at before
    rw [← before, Function.update_of_ne here, Function.update_eq_self]
    exact inv.exact j

end Steps

section Runs

variable {c : Chain} {clients : Finset Nat}

/-- A request that is sent anew. -/
theorem hopInv_invoke {s : State} {id client : Nat} {req : Request} (inv : HopInv c s)
    (fresh : s.calls id = none) :
    HopInv c (s.setCall id ⟨client, req, .sent (c.entry req), []⟩) := by
  refine inv.replace rfl rfl (fun i => ?_)
    (Call.tidy_of_replies rfl fun taken => absurd rfl taken)
  have nothing : s.held i id = none := by rw [State.held, fresh, Option.bind_none]
  rw [held_update rfl, List.reverse_nil, List.getElem?_nil, ← nothing, Function.update_eq_self]
  exact inv.exact i

theorem get_ne_unanswered (c : Chain) (s : State) (i : Nat) (key : String) (j : Nat) :
    c.get s i key ≠ .unanswered j := by
  unfold Chain.get
  split
  · exact fun same => by cases same
  · split
    · exact fun same => by cases same
    · exact fun same => by cases same

/-- One step of the chain keeps the hops in order, however many clients there are. -/
theorem hopInv_step {s s' : State} {a : Action} (chain : ChainInv c s) (inv : HopInv c s)
    (step : c.step s a = some s') : HopInv c s' := by
  cases Chain.moves_of_step step with
  | invoke id client req fresh => exact hopInv_invoke inv fresh
  | assign id client i key val socks at_ =>
    exact inv.keeps at_ rfl rfl rfl rfl
      (Call.tidy_of_replies rfl fun _ => ⟨rfl, key, val, rfl⟩)
  | forward id sock client i req socks at_ inner idle open_ =>
    obtain ⟨height, isSet⟩ := chain.assigned at_
    exact inv.replace rfl rfl (inv.exact_getSock at_ rfl rfl idle rfl height)
      (Call.tidy_of_replies rfl fun _ => ⟨rfl, isSet⟩)
  | forwardEof id sock client i req socks at_ inner idle dead =>
    rw [inv.live i] at dead
    cases dead
  | forwardRaises id sock client i req socks at_ inner idle dead =>
    rw [inv.live i] at dead
    cases dead
  | exhausted id client i req socks at_ inner empty =>
    obtain ⟨height, isSet⟩ := chain.assigned at_
    cases i with
    | zero =>
      have none_ : socks = [] := List.length_eq_zero_iff.mp height
      exact inv.keeps at_ rfl rfl rfl rfl ⟨fun taken => absurd none_ taken, fun _ _ => none_,
        nofun⟩
    | succ i => exact absurd empty (inv.pool_succ_ne_nil at_ height)
  | finish id client i req socks at_ last =>
    exact inv.keeps at_ rfl rfl rfl rfl
      (Call.tidy_of_replies rfl fun _ => ⟨rfl, (chain.assigned at_).2⟩)
  | lookup id client i key socks at_ =>
    have none_ : socks = [] := by
      by_contra taken
      obtain ⟨-, key', val, req⟩ := (inv.tidy id _ at_).holds taken
      cases req
    exact inv.keeps at_ rfl rfl rfl rfl ⟨fun taken => absurd none_ taken, fun _ _ => none_,
      get_ne_unanswered c s i key⟩
  | receive id sock client i req reply socks at_ =>
    obtain ⟨height, isSet⟩ := chain.replied at_
    exact inv.replace rfl rfl (inv.exact_releaseSock at_ rfl rfl rfl height)
      (Call.tidy_of_replies rfl fun _ => ⟨rfl, isSet⟩)
  | receiveEof id sock client i req socks at_ =>
    -- a handler that closes its connection was called by a client
    exact absurd ((inv.tidy id _ at_).dropped _ rfl) (List.cons_ne_nil sock socks)
  | respond id client i req reply at_ =>
    exact inv.keeps at_ rfl rfl rfl rfl
      (Call.tidy_of_replies rfl fun taken => absurd rfl taken)
  | respondEof id client i req at_ =>
    exact inv.keeps at_ rfl rfl rfl rfl
      (Call.tidy_of_replies rfl fun taken => absurd rfl taken)

theorem hopInv_run {as : List Action} {s : State} (run : c.system.Run as s) : HopInv c s := by
  have both : ChainInv c s ∧ HopInv c s := by
    refine System.run_invariant (P := fun s => ChainInv c s ∧ HopInv c s)
      ⟨chainInv_init c, hopInv_init c⟩ ?_ run
    rintro s a s' ⟨chain, hop⟩ step
    exact ⟨chainInv_step chain step, hopInv_step chain hop step⟩
  exact both.2

/-- The clients have one request each after a request is sent anew. -/
theorem poolInv_invoke {s : State} {id client : Nat} {req : Request}
    (inv : PoolInv c clients s) (fresh : s.calls id = none)
    (met : OneAtATime clients s (.invoke id client req)) :
    PoolInv c clients (s.setCall id ⟨client, req, .sent (c.entry req), []⟩) := by
  obtain ⟨known, idle⟩ := met
  have calls_cases : ∀ other call,
      (s.setCall id ⟨client, req, .sent (c.entry req), []⟩).calls other = some call →
        (other = id ∧ call = ⟨client, req, .sent (c.entry req), []⟩) ∨
          s.calls other = some call := by
    intro other call now
    by_cases here : other = id
    · subst here
      rw [State.setCall_calls, Function.update_self] at now
      exact .inl ⟨rfl, (Option.some.inj now).symm⟩
    · rw [State.setCall_calls, Function.update_of_ne here] at now
      exact .inr now
  refine ⟨hopInv_invoke inv.toHopInv fresh, ?_, ?_, ?_⟩
  · intro other call i now gone
    rcases calls_cases other call now with ⟨-, rfl⟩ | before
    · cases gone
    · exact inv.kept other call i before gone
  · intro other call now waits
    rcases calls_cases other call now with ⟨-, rfl⟩ | before
    · exact known
    · exact inv.member other call before waits
  · intro one two call call' now now' waits waits' same
    -- a call of this client that was there before has returned
    rcases calls_cases one call now with ⟨rfl, rfl⟩ | before
    · rcases calls_cases two call' now' with ⟨rfl, -⟩ | before'
      · rfl
      · rw [idle two call' before' same.symm] at waits'
        cases waits'
    · rcases calls_cases two call' now' with ⟨rfl, rfl⟩ | before'
      · rw [idle one call before same] at waits
        cases waits
      · exact inv.single one two call call' before before' waits waits' same

/-- One step of the chain keeps the invariant, while the clients are at most as many as
the sockets of a pool. -/
theorem poolInv_step {s s' : State} {a : Action} (chain : ChainInv c s)
    (inv : PoolInv c clients s) (few : clients.card ≤ c.poolSz) (met : OneAtATime clients s a)
    (step : c.step s a = some s') : PoolInv c clients s' := by
  have hop := hopInv_step chain inv.toHopInv step
  cases Chain.moves_of_step step with
  | invoke id client req fresh => exact poolInv_invoke inv fresh met
  | exhausted id client i req socks at_ inner empty =>
    exact absurd empty (inv.get_sock chain few at_)
  | lookup id client i key socks at_ =>
    exact inv.replace hop at_ rfl rfl (fun _ => rfl) fun _ _ => ⟨key, rfl⟩
  | assign id client i key val socks at_ | forward id sock client i req socks at_
  | forwardEof id sock client i req socks at_ | forwardRaises id sock client i req socks at_
  | finish id client i req socks at_ | receive id sock client i req reply socks at_
  | receiveEof id sock client i req socks at_ =>
    exact inv.replace hop at_ rfl rfl (fun _ => rfl) fun _ gone => by cases gone
  | respond id client i req reply at_ | respondEof id client i req at_ =>
    exact inv.replace hop at_ rfl rfl (fun waits => by cases waits) fun _ gone => by cases gone

theorem poolInv_run {as : List Action} {s : State} (run : c.system.Run as s)
    (met : c.system.Meets (OneAtATime clients) as) (few : clients.card ≤ c.poolSz) :
    PoolInv c clients s := by
  refine System.meets_induction (P := fun _ s => PoolInv c clients s) (poolInv_init c clients)
    ?_ run met
  intro as s a s' earlier inv met step
  exact poolInv_step (chainInv_run earlier) inv few met step

/-- With at most as many clients as sockets in a pool, each with one request at a time, a
SET that is about to call `get_sock` finds its pool non-empty for as long as it stands
there, so the assertion never fails, nor does the `pop` behind it whatever happens in
between; and the sockets of a hop that are in use are at most as many as the outstanding
SETs. -/
theorem pools_never_exhausted {as : List Action} {s : State} (run : c.system.Run as s)
    (met : c.system.Meets (OneAtATime clients) as) (few : clients.card ≤ c.poolSz) :
    (∀ id client req i socks, s.calls id = some ⟨client, req, .assigned i, socks⟩ →
      s.pool i ≠ []) ∧
    (∀ id, c.step s (.exhausted id) = none) ∧
    s.outstanding.Finite ∧
    ∀ i, (Pool.inUse c.poolSz (s.pool i)).card ≤ s.outstanding.ncard := by
  have inv := poolInv_run run met few
  have chain := chainInv_run run
  refine ⟨?_, ?_, inv.outstanding_finite, inv.inUse_le⟩
  · intro id client req i socks at_
    exact inv.get_sock chain few at_
  · intro id
    cases stepped : c.step s (.exhausted id) with
    | none => rfl
    | some s' =>
      cases Chain.moves_of_step stepped with
      | exhausted _ client i req socks at_ inner empty =>
        exact absurd empty (inv.get_sock chain few at_)

/-- Two clients of the cluster, whose SETs hold a socket of the first hop each, and of
the second hop one. -/
theorem pools_never_exhausted_two :
    ∃ s, crCluster.system.Run
        [.invoke 0 7 (.set "k" "1"), .invoke 1 8 (.set "k" "2"), .assign 0, .assign 1,
          .forward 0 31, .forward 1 30, .assign 1, .forward 1 0, .assign 0] s ∧
      s.pool 1 ≠ [] ∧ (Pool.inUse 32 (s.pool 0)).card ≤ s.outstanding.ncard := by
  have run : crCluster.system.Run
      [.invoke 0 7 (.set "k" "1"), .invoke 1 8 (.set "k" "2"), .assign 0, .assign 1,
        .forward 0 31, .forward 1 30, .assign 1, .forward 1 0, .assign 0] _ := rfl
  have met : crCluster.system.Meets (OneAtATime {7, 8})
      [.invoke 0 7 (.set "k" "1"), .invoke 1 8 (.set "k" "2"), .assign 0, .assign 1,
        .forward 0 31, .forward 1 30, .assign 1, .forward 1 0, .assign 0] := by
    refine System.meetsFrom_cons rfl ⟨by decide, fun id call at_ => by cases at_⟩ ?_
    refine System.meetsFrom_cons rfl ⟨by decide, fun id call at_ other => ?_⟩ ?_
    · rw [State.setCall_calls, Function.update_apply] at at_
      split at at_
      · cases at_
        cases other
      · cases at_
    · exact System.meetsFrom_of_forall (by simp [OneAtATime]) _
  have bounds := pools_never_exhausted run met (by decide)
  exact ⟨_, run, bounds.1 0 7 (.set "k" "1") 1 [31] rfl, bounds.2.2.2 0⟩

end Runs

end Col733.Lab3.Cr

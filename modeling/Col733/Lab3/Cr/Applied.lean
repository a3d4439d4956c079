import Col733.Lab3.Cr.Chain
import Mathlib.Data.List.Count

/-!
# Where a SET has been applied

The invariant of the chain: a SET has been applied by an initial segment of the
servers, once by each, and its phase says how long the segment is. A reply with
status OK is produced at the tail only, when the segment is the whole chain, and
is handed back unchanged. What a server has applied is what its dictionary shows: the
value of a key is that of the last SET of the key.
-/

namespace Col733.Lab3.Cr

/-- The SET `id` has been applied once by each of the first `k` servers, and by
no other. -/
def AppliedUpTo (applied : Nat → List Nat) (id k : Nat) : Prop :=
  ∀ j, (applied j).count id = if j < k then 1 else 0

/-- What the phase of a SET says about the number of servers that applied it. -/
def Phase.FitsSet (c : Chain) (k held : Nat) : Phase → Prop
  | .sent i => k = i ∧ i < c.len ∧ held = i
  | .assigned i => k = i + 1 ∧ i < c.len ∧ held = i
  | .replied i reply => i < k ∧ (reply.status = "OK" → k = c.len) ∧ held = i
  | .closed i | .unanswered i => i < k ∧ held = i
  | .answered reply => reply.status = "OK" → k = c.len

/-- A GET is at the tail until it is answered, and no handler holds a socket for it. -/
def Phase.FitsGet (c : Chain) (held : Nat) : Phase → Prop
  | .sent i | .replied i _ | .closed i => i = c.tail ∧ held = 0
  | .assigned _ | .unanswered _ => False
  | .answered _ => True

/-- The call stands where its phase says, after `k` servers applied it. -/
def Call.Fits (c : Chain) (k : Nat) (call : Call) : Prop :=
  match call.req with
  | .set _ _ => k ≤ c.len ∧ call.phase.FitsSet c k call.socks.length
  | .get _ => k = 0 ∧ call.phase.FitsGet c call.socks.length

/-- The invariant, for one request. -/
def CallInv (c : Chain) (s : State) (id : Nat) : Prop :=
  match s.calls id with
  | none => AppliedUpTo s.applied id 0
  | some call => ∃ k, AppliedUpTo s.applied id k ∧ call.Fits c k

/-- The invariant of the chain. -/
def ChainInv (c : Chain) (s : State) : Prop := ∀ id, CallInv c s id

theorem eofReply_status_ne : eofReply.status ≠ "OK" := by decide

theorem chainInv_init (c : Chain) : ChainInv c c.system.init := by
  intro id
  simp [CallInv, AppliedUpTo, Chain.system]

theorem ChainInv.of_call {c : Chain} {s : State} (inv : ChainInv c s) {id : Nat} {call : Call}
    (at_ : s.calls id = some call) : ∃ k, AppliedUpTo s.applied id k ∧ call.Fits c k := by
  have here := inv id
  rwa [CallInv, at_] at here

/-- A request that a server has assigned is a SET, and holds the sockets of the hops before. -/
theorem Call.Fits.assigned {c : Chain} {k client i : Nat} {req : Request} {socks : List Nat}
    (fits : Call.Fits c k ⟨client, req, .assigned i, socks⟩) :
    (∃ key val, req = .set key val) ∧ k ≤ c.len ∧ k = i + 1 ∧ i < c.len ∧
      socks.length = i := by
  cases req with
  | set key val => exact ⟨⟨key, val, rfl⟩, fits⟩
  | get key => exact fits.2.elim

/-- So is a request that server `i + 1` replies to over a socket of server `i`. -/
theorem Call.Fits.replied {c : Chain} {k client i sock : Nat} {req : Request} {reply : Reply}
    {socks : List Nat}
    (fits : Call.Fits c k ⟨client, req, .replied (i + 1) reply, sock :: socks⟩) :
    (∃ key val, req = .set key val) ∧ k ≤ c.len ∧ i + 1 < k ∧
      (reply.status = "OK" → k = c.len) ∧ socks.length = i := by
  cases req with
  | set key val =>
    obtain ⟨bound, inside, whole, held⟩ := fits
    exact ⟨⟨key, val, rfl⟩, bound, inside, whole, Nat.succ.inj held⟩
  | get key => exact absurd fits.2.2 (Nat.succ_ne_zero _)

/-- A step that replaces the call of `id` keeps the invariant, if the new call fits
and the segments of the other requests are what they were. -/
theorem ChainInv.replace {c : Chain} {s s' : State} (inv : ChainInv c s) {id k : Nat}
    {call : Call} (calls : s'.calls = Function.update s.calls id (some call))
    (upTo : AppliedUpTo s'.applied id k) (fits : call.Fits c k)
    (others : ∀ other n, other ≠ id → AppliedUpTo s.applied other n →
      AppliedUpTo s'.applied other n) : ChainInv c s' := by
  intro other
  by_cases same : other = id
  · subst same
    rw [CallInv, calls, Function.update_self]
    exact ⟨k, upTo, fits⟩
  · have old := inv other
    rw [CallInv] at old ⊢
    rw [calls, Function.update_of_ne same]
    cases present : s.calls other with
    | none =>
      rw [present] at old
      exact others other 0 same old
    | some call' =>
      rw [present] at old
      obtain ⟨n, upTo', fits'⟩ := old
      exact ⟨n, others other n same upTo', fits'⟩

/-- The same for a step that applies nothing. -/
theorem ChainInv.setCall {c : Chain} {s s' : State} (inv : ChainInv c s) {id k : Nat}
    {call : Call} (applied : s'.applied = s.applied)
    (calls : s'.calls = Function.update s.calls id (some call))
    (upTo : AppliedUpTo s.applied id k) (fits : call.Fits c k) : ChainInv c s' := by
  refine inv.replace calls (applied ▸ upTo) fits ?_
  intro other n _ old
  exact applied ▸ old

/-- The assignment at server `i` extends the segment of the SET by that server. -/
theorem AppliedUpTo.assign {applied : Nat → List Nat} {i id : Nat}
    (upTo : AppliedUpTo applied id i) :
    AppliedUpTo (Function.update applied i (applied i ++ [id])) id (i + 1) := by
  intro j
  by_cases here : j = i
  · subst here
    simpa using upTo j
  · have old := upTo j
    have same : (j < i + 1) = (j < i) := by
      apply propext
      omega
    simpa [Function.update_of_ne here, same] using old

/-- It does nothing to the segments of the others. -/
theorem AppliedUpTo.assign_of_ne {applied : Nat → List Nat} {i id other k : Nat}
    (different : other ≠ id) (upTo : AppliedUpTo applied other k) :
    AppliedUpTo (Function.update applied i (applied i ++ [id])) other k := by
  intro j
  by_cases here : j = i
  · subst here
    simpa [Ne.symm different] using upTo j
  · simpa [Function.update_of_ne here] using upTo j

theorem get_fits (c : Chain) (s : State) {i : Nat} (key : String) (atTail : i = c.tail) :
    (c.get s i key).FitsGet c 0 := by
  unfold Chain.get
  split
  · exact ⟨atTail, rfl⟩
  · split <;> exact ⟨atTail, rfl⟩

/-- One step of the chain keeps the invariant. -/
theorem chainInv_step {c : Chain} {s s' : State} {a : Action} (inv : ChainInv c s)
    (step : c.step s a = some s') : ChainInv c s' := by
  cases Chain.moves_of_step step with
  | invoke id client req fresh =>
    have upTo : AppliedUpTo s.applied id 0 := by
      have here := inv id
      rwa [CallInv, fresh] at here
    refine inv.setCall rfl rfl upTo ?_
    cases req with
    | set key val => exact ⟨Nat.zero_le _, rfl, c.lenPos, rfl⟩
    | get key => exact ⟨rfl, rfl, rfl⟩
  | assign id client i key val socks at_ =>
    obtain ⟨k, upTo, bound, rfl, inside, held⟩ := inv.of_call at_
    refine inv.replace (k := k + 1) rfl upTo.assign ⟨inside, rfl, inside, held⟩ ?_
    intro other n different old
    exact old.assign_of_ne different
  | forward id sock client i req socks at_ inner idle open_ =>
    obtain ⟨k, upTo, fits⟩ := inv.of_call at_
    obtain ⟨⟨key, val, rfl⟩, bound, rfl, inside, held⟩ := fits.assigned
    exact inv.setCall rfl rfl upTo ⟨bound, rfl, inner, congrArg (· + 1) held⟩
  | forwardEof id sock client i req socks at_ inner idle dead =>
    obtain ⟨k, upTo, fits⟩ := inv.of_call at_
    obtain ⟨⟨key, val, rfl⟩, bound, rfl, inside, held⟩ := fits.assigned
    refine inv.setCall rfl rfl upTo ⟨bound, Nat.lt_succ_self i, ?_, held⟩
    exact fun ok => absurd ok eofReply_status_ne
  | forwardRaises id sock client i req socks at_ inner idle dead =>
    obtain ⟨k, upTo, fits⟩ := inv.of_call at_
    obtain ⟨⟨key, val, rfl⟩, bound, rfl, inside, held⟩ := fits.assigned
    exact inv.setCall rfl rfl upTo ⟨bound, Nat.lt_succ_self i, held⟩
  | exhausted id client i req socks at_ inner empty =>
    obtain ⟨k, upTo, fits⟩ := inv.of_call at_
    obtain ⟨⟨key, val, rfl⟩, bound, rfl, inside, held⟩ := fits.assigned
    exact inv.setCall rfl rfl upTo ⟨bound, Nat.lt_succ_self i, held⟩
  | finish id client i req socks at_ last =>
    obtain ⟨k, upTo, fits⟩ := inv.of_call at_
    obtain ⟨⟨key, val, rfl⟩, bound, rfl, inside, held⟩ := fits.assigned
    refine inv.setCall rfl rfl upTo ⟨bound, Nat.lt_succ_self i, ?_, held⟩
    intro _
    omega
  | lookup id client i key socks at_ =>
    obtain ⟨k, upTo, zero, atTail, held⟩ := inv.of_call at_
    refine inv.setCall rfl rfl upTo ⟨zero, ?_⟩
    have noSocks : socks.length = 0 := held
    simpa only [noSocks] using get_fits c s key atTail
  | receive id sock client i req reply socks at_ =>
    obtain ⟨k, upTo, fits⟩ := inv.of_call at_
    obtain ⟨⟨key, val, rfl⟩, bound, inside, whole, held⟩ := fits.replied
    exact inv.setCall rfl rfl upTo ⟨bound, Nat.lt_of_succ_lt inside, whole, held⟩
  | receiveEof id sock client i req socks at_ =>
    obtain ⟨k, upTo, fits⟩ := inv.of_call at_
    refine inv.setCall rfl rfl upTo ?_
    cases req with
    | set key val =>
      obtain ⟨bound, inside, held⟩ := fits
      exact ⟨bound, Nat.lt_of_succ_lt inside, fun ok => absurd ok eofReply_status_ne,
        Nat.succ.inj held⟩
    | get key => exact absurd fits.2.2 (Nat.succ_ne_zero _)
  | respond id client i req reply at_ =>
    obtain ⟨k, upTo, fits⟩ := inv.of_call at_
    refine inv.setCall rfl rfl upTo ?_
    cases req with
    | set key val => exact ⟨fits.1, fits.2.2.1⟩
    | get key => exact ⟨fits.1, trivial⟩
  | respondEof id client i req at_ =>
    obtain ⟨k, upTo, fits⟩ := inv.of_call at_
    refine inv.setCall rfl rfl upTo ?_
    cases req with
    | set key val => exact ⟨fits.1, fun ok => absurd ok eofReply_status_ne⟩
    | get key => exact ⟨fits.1, trivial⟩

/-- The invariant holds in every state that a run reaches. -/
theorem chainInv_run {c : Chain} {as : List Action} {s : State} (run : c.system.Run as s) :
    ChainInv c s :=
  System.run_invariant (chainInv_init c) (fun _ _ _ inv step => chainInv_step inv step) run

/-! ## What the dictionaries hold -/

/-- The key a SET assigns; `none` for a GET and for a request never made. -/
def State.keyOf (s : State) (id : Nat) : Option String :=
  match s.calls id with
  | some ⟨_, .set key _, _, _⟩ => some key
  | _ => none

/-- The value a SET assigns. -/
def State.valOf (s : State) (id : Nat) : Option String :=
  match s.calls id with
  | some ⟨_, .set _ val, _, _⟩ => some val
  | _ => none

/-- The SETs of the key in the order in which server `i` assigned them. -/
def State.logOf (s : State) (i : Nat) (key : String) : List Nat :=
  (s.applied i).filter fun id => decide (s.keyOf id = some key)

theorem mem_logOf {s : State} {i id : Nat} {key : String} :
    id ∈ s.logOf i key ↔ id ∈ s.applied i ∧ s.keyOf id = some key := by
  simp [State.logOf]

/-- A request that is only moved on keeps its key and its value. -/
theorem sameReq {s s' : State} {id : Nat} {old new : Call} (at_ : s.calls id = some old)
    (calls : s'.calls = Function.update s.calls id (some new)) (req : new.req = old.req) :
    s'.keyOf = s.keyOf ∧ s'.valOf = s.valOf := by
  rcases old with ⟨client, oldReq, phase, socks⟩
  rcases new with ⟨client', newReq, phase', socks'⟩
  cases req
  constructor
  · funext other
    by_cases here : other = id
    · subst here
      simp only [State.keyOf, calls, at_, Function.update_self]
      cases oldReq <;> rfl
    · simp [State.keyOf, calls, Function.update_of_ne here]
  · funext other
    by_cases here : other = id
    · subst here
      simp only [State.valOf, calls, at_, Function.update_self]
      cases oldReq <;> rfl
    · simp [State.valOf, calls, Function.update_of_ne here]

/-- A request that has not been made has not been applied. -/
theorem ChainInv.notMem_applied {c : Chain} {s : State} (inv : ChainInv c s) {id : Nat}
    (fresh : s.calls id = none) (i : Nat) : id ∉ s.applied i := by
  have here := inv id
  rw [CallInv, fresh] at here
  have none_ := here i
  rw [if_neg (Nat.not_lt_zero i)] at none_
  exact List.count_eq_zero.mp none_

/-- The logs after an assignment. -/
theorem logOf_assign {s s' : State} {i id : Nat} {key : String}
    (applied : s'.applied = Function.update s.applied i (s.applied i ++ [id]))
    (keys : s'.keyOf = s.keyOf) (ofId : s.keyOf id = some key) (j : Nat) (other : String) :
    s'.logOf j other =
      if j = i ∧ other = key then s.logOf i key ++ [id] else s.logOf j other := by
  rw [State.logOf, applied, keys]
  by_cases here : j = i
  · subst here
    by_cases same : other = key
    · subst same
      simp [State.logOf, List.filter_append, ofId]
    · have different : ¬ key = other := fun h => same h.symm
      simp [State.logOf, List.filter_append, ofId, same, different]
  · simp [State.logOf, here]

/-- Every dictionary holds the value of the last SET of a key that the server assigned. -/
def HoldsLast (s : State) : Prop :=
  ∀ i key, (s.d i).get? key = (s.logOf i key).getLast?.bind s.valOf

theorem holdsLast_init (c : Chain) : HoldsLast c.system.init := fun _ _ => rfl

/-- What has been applied is unchanged, with its keys and values. -/
structure SameApplied (s s' : State) : Prop where
  applied : s'.applied = s.applied
  keys : ∀ i, ∀ id ∈ s.applied i, s'.keyOf id = s.keyOf id
  vals : ∀ i, ∀ id ∈ s.applied i, s'.valOf id = s.valOf id

/-- Moving a request on changes nothing of what has been applied. -/
theorem SameApplied.of_moved {s s' : State} {id : Nat} {old new : Call}
    (at_ : s.calls id = some old) (calls : s'.calls = Function.update s.calls id (some new))
    (req : new.req = old.req) (applied : s'.applied = s.applied) : SameApplied s s' := by
  obtain ⟨keys, vals⟩ := sameReq at_ calls req
  exact ⟨applied, fun _ other _ => congrFun keys other, fun _ other _ => congrFun vals other⟩

/-- Neither does making a new one. -/
theorem SameApplied.of_fresh {c : Chain} {s s' : State} {id : Nat} {call : Call}
    (inv : ChainInv c s) (fresh : s.calls id = none)
    (calls : s'.calls = Function.update s.calls id (some call))
    (applied : s'.applied = s.applied) : SameApplied s s' := by
  have different : ∀ i, ∀ other ∈ s.applied i, other ≠ id := by
    rintro i other member rfl
    exact inv.notMem_applied fresh i member
  refine ⟨applied, ?_, ?_⟩
  · intro i other member
    simp only [State.keyOf, calls, Function.update_of_ne (different i other member)]
  · intro i other member
    simp only [State.valOf, calls, Function.update_of_ne (different i other member)]

theorem SameApplied.logOf {s s' : State} (same : SameApplied s s') (i : Nat) (key : String) :
    s'.logOf i key = s.logOf i key := by
  rw [State.logOf, State.logOf, same.applied]
  apply List.filter_congr
  intro id member
  rw [same.keys i id member]

theorem HoldsLast.of_same {s s' : State} (holds : HoldsLast s) (d : s'.d = s.d)
    (same : SameApplied s s') : HoldsLast s' := by
  intro i key
  rw [same.logOf, d, holds i key]
  cases last : (s.logOf i key).getLast? with
  | none => rfl
  | some id =>
    have member : id ∈ s.logOf i key := List.mem_of_getLast? last
    exact (same.vals i id (mem_logOf.mp member).1).symm

/-- The assignment puts the SET at the end of the log and its value into the dictionary. -/
theorem HoldsLast.assign {s s' : State} (holds : HoldsLast s) {id client i : Nat}
    {key val : String} {socks : List Nat}
    (at_ : s.calls id = some ⟨client, .set key val, .sent i, socks⟩)
    (calls : s'.calls =
      Function.update s.calls id (some ⟨client, .set key val, .assigned i, socks⟩))
    (d : s'.d = Function.update s.d i ((s.d i).set key val))
    (applied : s'.applied = Function.update s.applied i (s.applied i ++ [id])) :
    HoldsLast s' := by
  have ofId : s.keyOf id = some key := by simp only [State.keyOf, at_]
  have valId : s.valOf id = some val := by simp only [State.valOf, at_]
  obtain ⟨keys, vals⟩ := sameReq at_ calls rfl
  intro j other
  rw [logOf_assign applied keys ofId, vals, d]
  have old := holds j other
  by_cases atServer : j = i
  · subst atServer
    by_cases same : other = key
    · subst same
      simp [valId]
    · rw [if_neg (fun h => same h.2), ← old]
      simp [same]
  · rw [if_neg (fun h => atServer h.1), ← old]
    simp [Function.update_of_ne atServer]

/-- What a step does to what has been applied: one SET is assigned at one server, or
nothing changes there and in the dictionaries. -/
theorem assigned_or_same {c : Chain} {s s' : State} {a : Action} (inv : ChainInv c s)
    (step : c.step s a = some s') :
    (∃ id client i key val socks, a = .assign id ∧
      s.calls id = some ⟨client, .set key val, .sent i, socks⟩ ∧
      s'.calls = Function.update s.calls id (some ⟨client, .set key val, .assigned i, socks⟩) ∧
      s'.d = Function.update s.d i ((s.d i).set key val) ∧
      s'.applied = Function.update s.applied i (s.applied i ++ [id])) ∨
    (s'.d = s.d ∧ SameApplied s s') := by
  cases Chain.moves_of_step step with
  | invoke id client req fresh => exact Or.inr ⟨rfl, .of_fresh inv fresh rfl rfl⟩
  | assign id client i key val socks at_ =>
    exact Or.inl ⟨id, client, i, key, val, socks, rfl, at_, rfl, rfl, rfl⟩
  | forward id sock client i req socks at_ => exact Or.inr ⟨rfl, .of_moved at_ rfl rfl rfl⟩
  | forwardEof id sock client i req socks at_ => exact Or.inr ⟨rfl, .of_moved at_ rfl rfl rfl⟩
  | forwardRaises id sock client i req socks at_ =>
    exact Or.inr ⟨rfl, .of_moved at_ rfl rfl rfl⟩
  | exhausted id client i req socks at_ => exact Or.inr ⟨rfl, .of_moved at_ rfl rfl rfl⟩
  | finish id client i req socks at_ => exact Or.inr ⟨rfl, .of_moved at_ rfl rfl rfl⟩
  | lookup id client i key socks at_ => exact Or.inr ⟨rfl, .of_moved at_ rfl rfl rfl⟩
  | receive id sock client i req reply socks at_ =>
    exact Or.inr ⟨rfl, .of_moved at_ rfl rfl rfl⟩
  | receiveEof id sock client i req socks at_ => exact Or.inr ⟨rfl, .of_moved at_ rfl rfl rfl⟩
  | respond id client i req reply at_ => exact Or.inr ⟨rfl, .of_moved at_ rfl rfl rfl⟩
  | respondEof id client i req at_ => exact Or.inr ⟨rfl, .of_moved at_ rfl rfl rfl⟩

theorem holdsLast_step {c : Chain} {s s' : State} {a : Action} (inv : ChainInv c s)
    (holds : HoldsLast s) (step : c.step s a = some s') : HoldsLast s' := by
  rcases assigned_or_same inv step with
    ⟨id, client, i, key, val, socks, rfl, at_, calls, d, applied⟩ | ⟨d, same⟩
  · exact holds.assign at_ calls d applied
  · exact holds.of_same d same

/-- In every state that a run reaches the dictionaries hold what was assigned last. -/
theorem holdsLast_run {c : Chain} {as : List Action} {s : State} (run : c.system.Run as s) :
    HoldsLast s := by
  have both : ChainInv c s ∧ HoldsLast s := by
    refine System.run_invariant (P := fun s => ChainInv c s ∧ HoldsLast s)
      ⟨chainInv_init c, holdsLast_init c⟩ ?_ run
    rintro s a s' ⟨inv, holds⟩ step
    exact ⟨chainInv_step inv step, holdsLast_step inv holds step⟩
  exact both.2

/-- A SET has been applied at most once by every server, and at no server before
its predecessor. Once the head has answered it with OK, every server of the chain
has applied it. At every server the dictionary holds, for every key, the value of the
SET of that key that was applied last. -/
theorem acknowledged_set_on_every_server {c : Chain} {as : List Action} {s : State}
    (run : c.system.Run as s) :
    (∀ id i, id ∈ s.applied (i + 1) → id ∈ s.applied i) ∧
    (∀ id i, (s.applied i).count id ≤ 1) ∧
    (∀ id client key val reply socks,
      s.calls id = some ⟨client, .set key val, .replied 0 reply, socks⟩ ∨
        s.calls id = some ⟨client, .set key val, .answered reply, socks⟩ →
      reply.status = "OK" → ∀ i < c.len, (s.applied i).count id = 1) ∧
    ∀ i key, (s.d i).get? key = (s.logOf i key).getLast?.bind s.valOf := by
  have inv := chainInv_run run
  have segment : ∀ id, ∃ k, AppliedUpTo s.applied id k := by
    intro id
    have here := inv id
    rw [CallInv] at here
    split at here
    · exact ⟨0, here⟩
    · obtain ⟨k, upTo, -⟩ := here
      exact ⟨k, upTo⟩
  refine ⟨?_, ?_, ?_, holdsLast_run run⟩
  · intro id i later
    obtain ⟨k, upTo⟩ := segment id
    have counted := upTo (i + 1)
    have here : 0 < (s.applied (i + 1)).count id := List.count_pos_iff.mpr later
    have inside : i < k := by
      by_contra outside
      rw [if_neg (by omega)] at counted
      omega
    apply List.count_pos_iff.mp
    rw [upTo i, if_pos inside]
    exact Nat.one_pos
  · intro id i
    obtain ⟨k, upTo⟩ := segment id
    rw [upTo i]
    split <;> omega
  · intro id client key val reply socks at_ ok i inside
    have whole : ∃ k, AppliedUpTo s.applied id k ∧ k = c.len := by
      rcases at_ with atHead | done
      · obtain ⟨k, upTo, -, -, whole, -⟩ := inv.of_call atHead
        exact ⟨k, upTo, whole ok⟩
      · obtain ⟨k, upTo, -, whole⟩ := inv.of_call done
        exact ⟨k, upTo, whole ok⟩
    obtain ⟨k, upTo, rfl⟩ := whole
    rw [upTo i, if_pos inside]

/-- Two SETs of one key at three servers; the second overtakes the first between the
head and the server behind it. -/
def crossed : List Action :=
  [.invoke 0 0 (.set "k" "1"), .assign 0, .invoke 1 1 (.set "k" "2"), .assign 1,
    .forward 1 1, .assign 1, .forward 0 0, .assign 0, .forward 0 0, .assign 0, .forward 1 1,
    .assign 1, .finish 0, .receive 0, .receive 0, .respond 0, .finish 1, .receive 1, .receive 1,
    .respond 1]

/-- Both are on every server once, and every server holds the one it assigned last. -/
theorem acknowledged_set_on_every_server_three :
    ∃ s, (Chain.mk 3 (by decide) 2).system.Run crossed s ∧
      (∀ id < 2, ∀ i < 3, (s.applied i).count id = 1) ∧
      (∀ i key, (s.d i).get? key = (s.logOf i key).getLast?.bind s.valOf) ∧
      [s.d 0, s.d 1, s.d 2].map (·.get? "k") = [some "2", some "1", some "2"] := by
  have run : (Chain.mk 3 (by decide) 2).system.Run crossed _ := rfl
  obtain ⟨-, -, whole, held⟩ := acknowledged_set_on_every_server run
  refine ⟨_, run, ?_, held, by decide⟩
  have first := whole 0 0 "k" "1" { status := "OK" } [] (Or.inr rfl) rfl
  have second := whole 1 1 "k" "2" { status := "OK" } [] (Or.inr rfl) rfl
  intro id small
  obtain rfl | rfl : id = 0 ∨ id = 1 := by omega
  · exact first
  · exact second

end Col733.Lab3.Cr

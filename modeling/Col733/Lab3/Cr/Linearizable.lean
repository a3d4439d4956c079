import Col733.Lab3.Cr.Applied
import Col733.Lab3.Lcheck

/-!
# Chain replication is linearizable

The chain simulates the atomic map: a SET takes effect when the tail assigns it,
a GET when the tail looks the key up. Whatever the servers before the tail do, and
in whatever order they do it, is not seen.
-/

namespace Col733.Lab3.Cr

/-- The operation of a request, as the checker records its call. -/
def Request.input : Request → CrInputOutput
  | .set key val => { op := true, key := key, value := val }
  | .get key => { op := false, key := key, value := "" }

/-- What the checker records for a reply: nothing unless the status is OK, and for
a GET nothing unless there is a value. -/
def Request.output (req : Request) (reply : Reply) : Option CrInputOutput :=
  if reply.status = "OK" then
    match req with
    | .set key val => some { op := true, key := key, value := val }
    | .get key => reply.val.map fun val => { op := false, key := key, value := val }
  else none

/-- What a client logs: its calls, and the replies that are a success. -/
def clientEvents (s : State) : Action → List (Event CrInputOutput CrInputOutput)
  | .invoke id _ req => [.call id req.input]
  | .respond id =>
    match s.calls id with
    | some ⟨_, req, .replied _ reply, _⟩ => (req.output reply).toList.map (.ret id)
    | _ => []
  | _ => []

/-- The history of the clients along a run. -/
def Chain.history (c : Chain) (as : List Action) : List (Event CrInputOutput CrInputOutput) :=
  c.system.trace clientEvents as

/-! ## The simulation -/

/-- How far the request has come as an operation on the atomic map. -/
def Call.status (c : Chain) (call : Call) : Status CrInputOutput CrInputOutput :=
  match call.phase with
  | .sent _ | .closed _ | .unanswered _ => .called call.req.input
  | .assigned i =>
    if i + 1 < c.len then .called call.req.input
    else
      match call.req.output { status := "OK" } with
      | some output => .committed call.req.input output
      | none => .called call.req.input
  | .replied _ reply =>
    match call.req.output reply with
    | some output => .committed call.req.input output
    | none => .called call.req.input
  | .answered reply =>
    match call.req.output reply with
    | some output => .returned call.req.input output
    | none => .called call.req.input

def statusOf (c : Chain) : Option Call → Status CrInputOutput CrInputOutput
  | none => .idle
  | some call => call.status c

/-- The atomic map's steps for an action of the chain. -/
def atomicActions (c : Chain) (s : State) :
    Action → List (AtomicAction CrInputOutput CrInputOutput)
  | .invoke id _ req => [.call id req.input]
  | .assign id =>
    match s.calls id with
    | some ⟨_, req, .sent i, _⟩ =>
      if i + 1 < c.len then [] else (req.output { status := "OK" }).toList.map (.commit id)
    | _ => []
  | .lookup id =>
    match s.calls id with
    | some ⟨_, .get key, .sent i, _⟩ =>
      match c.get s i key with
      | .replied _ reply => ((Request.get key).output reply).toList.map (.commit id)
      | _ => []
    | _ => []
  | .respond id =>
    match s.calls id with
    | some ⟨_, req, .replied _ reply, _⟩ => (req.output reply).toList.map fun _ => .ret id
    | _ => []
  | _ => []

/-- The chain and the atomic map agree on every operation and, at the tail, on the map. -/
structure Related (c : Chain) (s : State) (t : AtomicState (Dict String String) CrInputOutput
    CrInputOutput) : Prop where
  inv : ChainInv c s
  status : ∀ id, t.status id = statusOf c (s.calls id)
  object : t.object = s.d c.tail

theorem output_eofReply (req : Request) : req.output eofReply = none := by
  simp [Request.output, eofReply_status_ne]

@[simp] theorem output_set_ok (key val : String) :
    (Request.set key val).output { status := "OK" } = some ⟨true, key, val⟩ := rfl

@[simp] theorem output_get_ok (key val : String) :
    (Request.get key).output { status := "OK", val := some val } = some ⟨false, key, val⟩ := rfl

@[simp] theorem output_get_noVal (key : String) :
    (Request.get key).output { status := "OK" } = none := rfl

theorem Related.status_of {c : Chain} {s : State} {t} (rel : Related c s t) {id : Nat}
    {call : Call} (at_ : s.calls id = some call) : t.status id = call.status c := by
  rw [rel.status id, at_]
  rfl

/-- A step that the atomic map does not see: the request stays where it is as an
operation, and the dictionary of the tail is not touched. -/
theorem Related.silent {c : Chain} {s s' : State} {t} (rel : Related c s t)
    (inv' : ChainInv c s') {id : Nat} {call call' : Call} (at_ : s.calls id = some call)
    (calls : s'.calls = Function.update s.calls id (some call')) (d : s'.d c.tail = s.d c.tail)
    (same : call'.status c = call.status c) : Related c s' t := by
  refine ⟨inv', ?_, rel.object.trans d.symm⟩
  intro other
  rw [calls]
  by_cases here : other = id
  · subst here
    rw [Function.update_self, rel.status_of at_]
    exact same.symm
  · rw [Function.update_of_ne here, rel.status other]

/-- The statuses after a visible step, when both sides replace the one of `id`. -/
theorem status_update {c : Chain} {s : State} {t : AtomicState (Dict String String)
    CrInputOutput CrInputOutput} (rel : Related c s t) (id : Nat) (call : Call) (other : Nat) :
    Function.update t.status id (call.status c) other =
      statusOf c (Function.update s.calls id (some call) other) := by
  by_cases here : other = id
  · subst here
    simp [statusOf]
  · simp [Function.update_of_ne here, rel.status other]

theorem tail_of_last {c : Chain} {i : Nat} (inside : i < c.len) (last : ¬ i + 1 < c.len) :
    i = c.tail := by
  unfold Chain.tail
  omega

theorem tail_succ (c : Chain) : ¬ c.tail + 1 < c.len := by
  have := c.lenPos
  unfold Chain.tail
  omega

/-- A step that the atomic map sees as one step of its own. -/
theorem visible {c : Chain} {s s' : State} {a : Action}
    {t t' : AtomicState (Dict String String) CrInputOutput CrInputOutput}
    {b : AtomicAction CrInputOutput CrInputOutput} (acts : atomicActions c s a = [b])
    (moved : mapModel.atomicStep t b = some t') (rel' : Related c s' t')
    (shown : atomicEvents t b = clientEvents s a) :
    ∃ t', mapModel.atomic.runFrom t (atomicActions c s a) = some t' ∧ Related c s' t' ∧
      mapModel.atomic.observeFrom atomicEvents t (atomicActions c s a) = clientEvents s a := by
  refine ⟨t', ?_, rel', ?_⟩
  · rw [acts, System.runFrom_singleton]
    exact moved
  · rw [acts, System.observeFrom_singleton (S := mapModel.atomic) atomicEvents moved]
    exact shown

/-- Every step of the chain is matched by the atomic map. -/
theorem related_step {c : Chain} {s s' : State} {a : Action}
    {t : AtomicState (Dict String String) CrInputOutput CrInputOutput} (rel : Related c s t)
    (step : c.step s a = some s') :
    ∃ t', mapModel.atomic.runFrom t (atomicActions c s a) = some t' ∧ Related c s' t' ∧
      mapModel.atomic.observeFrom atomicEvents t (atomicActions c s a) = clientEvents s a := by
  have inv' := chainInv_step rel.inv step
  cases Chain.moves_of_step step with
  | invoke id client req fresh =>
    have idle : t.status id = .idle := by rw [rel.status id, fresh, statusOf]
    refine visible rfl (atomicStep_call req.input idle) ⟨inv', ?_, rel.object⟩ rfl
    exact status_update rel id ⟨client, req, .sent (c.entry req), []⟩
  | assign id client i key val socks at_ =>
    obtain ⟨k, -, -, -, inside, -⟩ := rel.inv.of_call at_
    by_cases inner : i + 1 < c.len
    · -- not the tail: the atomic map does not see it
      have other : c.tail ≠ i := fun h => tail_succ c (h ▸ inner)
      refine ⟨t, ?_, ?_, ?_⟩
      · simp [atomicActions, at_, inner]
      · refine rel.silent inv' at_ rfl ?_ ?_
        · simp [Function.update_of_ne other]
        · simp [Call.status, inner]
      · simp [atomicActions, at_, inner, System.observeFrom, clientEvents]
    · -- the tail: the SET takes effect
      have atTail := tail_of_last inside inner
      have called : t.status id = .called ⟨true, key, val⟩ := by
        rw [rel.status_of at_]
        rfl
      have accepted : (mapModel.step t.object ⟨true, key, val⟩ ⟨true, key, val⟩).1 = true := rfl
      refine visible ?_ (atomicStep_commit called accepted) ⟨inv', ?_, ?_⟩ ?_
      · simp [atomicActions, at_, inner]
      · intro other
        have now := status_update rel id ⟨client, .set key val, .assigned i, socks⟩ other
        simpa [Call.status, inner, Request.input] using now
      · subst atTail
        simp [rel.object, mapModel]
      · simp [atomicEvents, clientEvents]
  | forward id sock client i req socks at_ inner idle open_ =>
    refine ⟨t, rfl, rel.silent inv' at_ rfl rfl ?_, rfl⟩
    simp [Call.status, inner]
  | forwardEof id sock client i req socks at_ inner idle dead =>
    refine ⟨t, rfl, rel.silent inv' at_ rfl rfl ?_, rfl⟩
    simp [Call.status, inner, output_eofReply]
  | forwardRaises id sock client i req socks at_ inner idle dead =>
    refine ⟨t, rfl, rel.silent inv' at_ rfl rfl ?_, rfl⟩
    simp [Call.status, inner]
  | exhausted id client i req socks at_ inner empty =>
    refine ⟨t, rfl, rel.silent inv' at_ rfl rfl ?_, rfl⟩
    simp [Call.status, inner]
  | finish id client i req socks at_ last =>
    refine ⟨t, rfl, rel.silent inv' at_ rfl rfl ?_, rfl⟩
    simp [Call.status, last]
  | lookup id client i key socks at_ =>
    obtain ⟨k, -, -, atTail, -⟩ := rel.inv.of_call at_
    have last : c.next i = none := by
      rw [Chain.next_eq_none_iff, show i = c.tail from atTail]
      exact tail_succ c
    have called : t.status id = .called ⟨false, key, ""⟩ := by
      rw [rel.status_of at_]
      rfl
    cases found : (s.d i).get? key with
    | none =>
      have raised : c.get s i key = .closed i := by simp [Chain.get, last, found]
      refine ⟨t, ?_, rel.silent inv' at_ rfl rfl ?_, ?_⟩
      · simp [atomicActions, at_, raised]
      · simp [Call.status, raised]
      · simp [atomicActions, at_, raised, System.observeFrom, clientEvents]
    | some val =>
      -- the GET takes effect
      have served : c.get s i key = .replied i { status := "OK", val := some val } := by
        simp [Chain.get, last, found]
      have held : t.object.get? key = some val := by
        rw [rel.object, ← show i = c.tail from atTail, found]
      have accepted : (mapModel.step t.object ⟨false, key, ""⟩ ⟨false, key, val⟩).1 = true := by
        simp [mapModel, held]
      refine visible ?_ (atomicStep_commit called accepted) ⟨inv', ?_, rel.object⟩ ?_
      · simp [atomicActions, at_, served]
      · intro other
        have now := status_update rel id
          ⟨client, .get key, .replied i { status := "OK", val := some val }, socks⟩ other
        simpa [Call.status, served, Request.input] using now
      · simp [atomicEvents, clientEvents]
  | receive id sock client i req reply socks at_ =>
    refine ⟨t, rfl, rel.silent inv' at_ rfl rfl ?_, rfl⟩
    simp [Call.status]
  | receiveEof id sock client i req socks at_ =>
    refine ⟨t, rfl, rel.silent inv' at_ rfl rfl ?_, rfl⟩
    simp [Call.status, output_eofReply]
  | respond id client i req reply at_ =>
    cases success : req.output reply with
    | none =>
      refine ⟨t, ?_, rel.silent inv' at_ rfl rfl ?_, ?_⟩
      · simp [atomicActions, at_, success]
      · simp [Call.status, success]
      · simp [atomicActions, at_, success, System.observeFrom, clientEvents]
    | some output =>
      have committed : t.status id = .committed req.input output := by
        rw [rel.status_of at_]
        simp [Call.status, success]
      refine visible ?_ (atomicStep_ret committed) ⟨inv', ?_, rel.object⟩ ?_
      · simp [atomicActions, at_, success]
      · intro other
        have now := status_update rel id ⟨client, req, .answered reply, []⟩ other
        simpa [Call.status, success] using now
      · simp [at_, success, committed, atomicEvents, clientEvents]
  | respondEof id client i req at_ =>
    refine ⟨t, ?_, rel.silent inv' at_ rfl rfl ?_, ?_⟩
    · simp [atomicActions, at_]
    · simp [Call.status, output_eofReply]
    · simp [atomicActions, at_, System.observeFrom, clientEvents]

/-- The simulation of the chain by the atomic map. -/
def chainSimulation (c : Chain) :
    System.Simulation c.system mapModel.atomic clientEvents atomicEvents where
  rel := Related c
  abs := atomicActions c
  init := ⟨chainInv_init c, fun _ => rfl, rfl⟩
  step := related_step

/-- Every history of the chain is linearizable: the operations that completed and
some pending SETs can be put in an order that keeps the order of those that did
not overlap, that the checker's model accepts, and in which every GET returns the
value of the last SET of its key. -/
theorem chain_linearizable {c : Chain} {as : List Action} {s : State}
    (run : c.system.Run as s) :
    ∃ order, LinearizedBy crModel (c.history as) order ∧
      (∀ op ∈ order, Event.ret op.id op.output ∈ c.history as ∨ op.input.op = true) ∧
      (∀ pre op post, order = pre ++ op :: post → op.input.op = false →
        lastPut op.input.key pre = some op.output.value) := by
  obtain ⟨bs, t, matched, -, same⟩ := (chainSimulation c).run run
  have lin : LinearizedBy mapModel (c.history as) t.order := by
    rw [Chain.history, ← same]
    exact atomic_linearizable matched
  -- a GET that the tail served but that is not answered yet is left out
  let keep : Operation CrInputOutput CrInputOutput → Bool := fun op =>
    op.input.op || decide (Event.ret op.id op.output ∈ c.history as)
  have reads : ∀ m op, keep op = false → (mapModel.step m op.input op.output).2 = m := by
    intro m op dropped
    have get : op.input.op = false := (Bool.or_eq_false_iff.mp dropped).1
    simp [mapModel, get]
  have completed : ∀ op ∈ t.order, Event.ret op.id op.output ∈ c.history as → keep op = true := by
    intro op _ returned
    simp [keep, returned]
  have kept := lin.filter reads completed
  have checked : LinearizedBy crModel (c.history as) (t.order.filter keep) :=
    LinearizedBy.mono (M := mapModel) (N := crModel) rfl crModel_of_mapModel kept
  refine ⟨t.order.filter keep, checked, ?_, ?_⟩
  · intro op member
    have isKept : keep op = true := (List.mem_filter.mp member).2
    simpa [keep, or_comm] using isKept
  · intro pre op post split_ get
    obtain ⟨final, accepted⟩ := kept.legal
    exact mapModel_get_lastPut accepted split_ get

/-- Two servers and two clients: the GET is called before the SET is answered, and
is served after the tail has applied it. -/
def overlapping : List Action :=
  [.invoke 0 0 (.set "k" "1"), .assign 0, .forward 0 0, .invoke 1 1 (.get "k"), .assign 0,
    .lookup 1, .respond 1, .finish 0, .receive 0, .respond 0]

/-- The GET has returned the value of the SET, and the history is linearizable. -/
theorem chain_linearizable_overlapping :
    ∃ s, (Chain.mk 2 (by decide) 1).system.Run overlapping s ∧
      s.calls 1 = some ⟨1, .get "k", .answered { status := "OK", val := some "1" }, []⟩ ∧
      ∃ order, LinearizedBy crModel ((Chain.mk 2 (by decide) 1).history overlapping) order ∧
        (∀ op ∈ order,
          Event.ret op.id op.output ∈ (Chain.mk 2 (by decide) 1).history overlapping ∨
            op.input.op = true) ∧
        (∀ pre op post, order = pre ++ op :: post → op.input.op = false →
          lastPut op.input.key pre = some op.output.value) := by
  have run : (Chain.mk 2 (by decide) 1).system.Run overlapping _ := rfl
  exact ⟨_, run, by decide, chain_linearizable run⟩

end Col733.Lab3.Cr

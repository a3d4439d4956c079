import Col733.Lab3.Cr.Linearizable
import Col733.Lab3.Cr.Progress

/-!
# The calls and the history

What the history of the clients says of the calls that have been made and of the replies to
them, and what can be said of the values that are read: each was set before. A key that has
been set is never missed again.
-/

namespace Col733.Lab3.Cr

open Col733

/-- The action does not send a request. -/
def internal : Action → Bool
  | .invoke _ _ _ => false
  | _ => true

section Steps

variable {c : Chain} {s s' : State} {a : Action} {id : Nat}

/-- A request is sent only under a new number. -/
theorem step_invoke {client : Nat} {req : Request}
    (step : c.step s (.invoke id client req) = some s') :
    s.calls id = none ∧ s' = s.setCall id ⟨client, req, .sent (c.entry req), []⟩ := by
  cases Chain.moves_of_step step with
  | invoke _ _ _ fresh => exact ⟨fresh, rfl⟩

theorem invoke_enabled (client : Nat) (req : Request) (fresh : s.calls id = none) :
    c.step s (.invoke id client req) =
      some (s.setCall id ⟨client, req, .sent (c.entry req), []⟩) := by
  simp only [Chain.step, fresh]

/-- An action that sends nothing replaces no call but one that waits, and by one for the same
request. -/
theorem calls_step (isInternal : internal a = true) (step : c.step s a = some s') (id : Nat) :
    s'.calls id = s.calls id ∨ ∃ old new, s.calls id = some old ∧ s'.calls id = some new ∧
      new.client = old.client ∧ new.req = old.req ∧ old.waiting = true := by
  have replaced : ∀ {other old new}, s.calls other = some old →
      s'.calls = Function.update s.calls other (some new) → new.client = old.client →
      new.req = old.req → old.waiting = true →
        s'.calls id = s.calls id ∨ ∃ old new, s.calls id = some old ∧ s'.calls id = some new ∧
          new.client = old.client ∧ new.req = old.req ∧ old.waiting = true := by
    intro other old new at_ calls client req waits
    by_cases here : id = other
    · subst here
      exact .inr ⟨old, new, at_, by rw [calls, Function.update_self], client, req, waits⟩
    · exact .inl (by rw [calls, Function.update_of_ne here])
  cases Chain.moves_of_step step with
  | invoke => cases isInternal
  | assign _ _ _ _ _ _ at_ | forward _ _ _ _ _ _ at_ | forwardEof _ _ _ _ _ _ at_
  | forwardRaises _ _ _ _ _ _ at_ | exhausted _ _ _ _ _ at_ | finish _ _ _ _ _ at_
  | lookup _ _ _ _ _ at_ | receive _ _ _ _ _ _ _ at_ | receiveEof _ _ _ _ _ _ at_
  | respond _ _ _ _ _ at_ | respondEof _ _ _ _ at_ => exact replaced at_ rfl rfl rfl rfl

/-- What has been made stays, with its client and its request. -/
theorem call_step {call : Call} (isInternal : internal a = true) (step : c.step s a = some s')
    (at_ : s.calls id = some call) :
    ∃ new, s'.calls id = some new ∧ new.client = call.client ∧ new.req = call.req := by
  rcases calls_step isInternal step id with same | ⟨old, new, was, is_, client, req, -⟩
  · exact ⟨call, same.trans at_, rfl, rfl⟩
  · cases at_.symm.trans was
    exact ⟨new, is_, client, req⟩

/-- What is there has been made before. -/
theorem call_of_step {call : Call} (isInternal : internal a = true) (step : c.step s a = some s')
    (at_ : s'.calls id = some call) :
    ∃ old, s.calls id = some old ∧ call.client = old.client ∧ call.req = old.req ∧
      (call.waiting = true → old.waiting = true) := by
  rcases calls_step isInternal step id with same | ⟨old, new, was, is_, client, req, waits⟩
  · exact ⟨call, same.symm.trans at_, rfl, rfl, fun waits => waits⟩
  · cases at_.symm.trans is_
    exact ⟨old, was, client, req, fun _ => waits⟩

/-- A call that has returned is not touched any more. -/
theorem answered_step {call : Call} (isInternal : internal a = true)
    (step : c.step s a = some s') (at_ : s.calls id = some call) (done : call.waiting = false) :
    s'.calls id = some call := by
  rcases calls_step isInternal step id with same | ⟨old, new, was, is_, -, -, waits⟩
  · exact same.trans at_
  · cases at_.symm.trans was
    rw [done] at waits
    cases waits

/-- An action that sends nothing shows a return at most. -/
theorem clientEvents_internal (s : State) (isInternal : internal a = true) :
    clientEvents s a = [] ∨ ∃ id output, clientEvents s a = [.ret id output] := by
  cases a with
  | invoke => cases isInternal
  | assign | forward | forwardDead | exhausted | finish | lookup | receive => exact .inl rfl
  | respond id =>
    simp only [clientEvents]
    split
    · rename_i req _ reply _ _
      cases req.output reply with
      | none => exact .inl rfl
      | some output => exact .inr ⟨id, output, rfl⟩
    · exact .inl rfl

/-- The return of a call is shown, if its reply tells anything. -/
theorem shown_step {client : Nat} {req : Request} {reply : Reply} {socks : List Nat}
    (step : c.step s a = some s')
    (at_ : s'.calls id = some ⟨client, req, .answered reply, socks⟩) :
    s.calls id = some ⟨client, req, .answered reply, socks⟩ ∨
      clientEvents s a = (req.output reply).toList.map (.ret id) := by
  have replaced : ∀ {other new}, s'.calls = Function.update s.calls other (some new) →
      (∀ reply, new.phase ≠ .answered reply) →
        s.calls id = some ⟨client, req, .answered reply, socks⟩ := by
    intro other new calls open_
    rw [calls] at at_
    by_cases here : id = other
    · rw [here, Function.update_self] at at_
      cases at_
      exact absurd rfl (open_ reply)
    · rwa [Function.update_of_ne here] at at_
  cases Chain.moves_of_step step with
  | lookup other client' i key socks' was =>
    refine .inl (replaced rfl fun reply => ?_)
    show c.get s i key ≠ .answered reply
    intro same
    unfold Chain.get at same
    split at same
    · cases same
    · split at same
      · cases same
      · cases same
  | respond other client' i req' reply' was =>
    by_cases here : id = other
    · subst here
      rw [State.setCall_calls, Function.update_self] at at_
      cases at_
      exact .inr (by simp only [clientEvents, was])
    · rw [State.setCall_calls, Function.update_of_ne here] at at_
      exact .inl at_
  | respondEof other client' i req' was =>
    by_cases here : id = other
    · subst here
      rw [State.setCall_calls, Function.update_self] at at_
      cases at_
      exact .inr (by simp only [clientEvents, was, output_eofReply, Option.toList_none,
        List.map_nil])
    · rw [State.setCall_calls, Function.update_of_ne here] at at_
      exact .inl at_
  | invoke | assign | forward | forwardEof | forwardRaises | exhausted | finish | receive
  | receiveEof => exact .inl (replaced rfl fun _ same => by cases same)

end Steps

section Runs

variable {c : Chain} {as : List Action} {s s' : State} {id : Nat}

theorem history_snoc {a : Action} (run : c.system.Run as s) (step : c.step s a = some s') :
    c.history (as ++ [a]) = c.history as ++ clientEvents s a :=
  System.trace_snoc clientEvents run step

/-- The calls in the history are those of the requests that have been made. -/
theorem mem_history_call_iff (run : c.system.Run as s) (id : Nat) (input : CrInputOutput) :
    Event.call id input ∈ c.history as ↔
      ∃ call, s.calls id = some call ∧ call.req.input = input := by
  refine System.run_induction (P := fun as s => ∀ id input,
    Event.call id input ∈ c.history as ↔
      ∃ call, s.calls id = some call ∧ call.req.input = input) ?_ ?_ run id input
  · intro id input
    constructor
    · nofun
    · rintro ⟨call, at_, -⟩
      cases at_
  · intro as s a s' earlier ih step id input
    rw [history_snoc earlier step, List.mem_append, ih id input]
    cases kind : internal a with
    | true =>
      have silent : Event.call id input ∉ clientEvents s a := by
        rcases clientEvents_internal s kind with none_ | ⟨other, output, one⟩
        · rw [none_]
          exact List.not_mem_nil
        · rw [one, List.mem_singleton]
          nofun
      constructor
      · rintro (⟨call, at_, same⟩ | new)
        · obtain ⟨after, is_, -, req⟩ := call_step kind step at_
          exact ⟨after, is_, by rw [req, same]⟩
        · exact absurd new silent
      · rintro ⟨call, at_, same⟩
        obtain ⟨before, was, -, req, -⟩ := call_of_step kind step at_
        exact .inl ⟨before, was, by rw [← req, same]⟩
    | false =>
      cases a with
      | invoke other client req =>
        obtain ⟨fresh, rfl⟩ := step_invoke step
        show _ ∨ Event.call id input ∈ [Event.call other req.input] ↔ _
        rw [List.mem_singleton, State.setCall_calls]
        by_cases here : id = other
        · subst here
          simp [fresh, eq_comm]
        · simp [here]
      | assign | forward | forwardDead | exhausted | finish | lookup | receive | respond =>
        cases kind

/-- A reply that tells something has been shown. -/
theorem mem_history_ret {client : Nat} {req : Request} {reply : Reply} {socks : List Nat}
    {output : CrInputOutput} (run : c.system.Run as s)
    (at_ : s.calls id = some ⟨client, req, .answered reply, socks⟩)
    (tells : req.output reply = some output) : Event.ret id output ∈ c.history as := by
  refine System.run_induction (P := fun as s =>
    s.calls id = some ⟨client, req, .answered reply, socks⟩ → Event.ret id output ∈ c.history as)
    (fun at_ => by cases at_) ?_ run at_
  intro as s a s' earlier ih step at_
  rw [history_snoc earlier step, List.mem_append]
  rcases shown_step step at_ with before | shown
  · exact .inl (ih before)
  · rw [shown, tells]
    exact .inr (List.mem_singleton.mpr rfl)

/-! ## Values -/

theorem lastPut_isSome {ops : List (Operation CrInputOutput CrInputOutput)}
    {op : Operation CrInputOutput CrInputOutput} (member : op ∈ ops) (put : op.input.op = true) :
    (lastPut op.input.key ops).isSome = true := by
  have some_ : op ∈ ops.filter fun op' => op'.input.op && op'.input.key == op.input.key :=
    List.mem_filter.mpr ⟨member, by rw [put, beq_self_eq_true, Bool.and_self]⟩
  rw [lastPut, Option.isSome_map, List.getLast?_isSome]
  exact List.ne_nil_of_mem some_

/-- Where the last put of a key comes from. -/
theorem exists_of_lastPut {ops : List (Operation CrInputOutput CrInputOutput)} {key val : String}
    (last : lastPut key ops = some val) :
    ∃ op ∈ ops, op.input.op = true ∧ op.input.key = key ∧ op.input.value = val := by
  obtain ⟨op, found, same⟩ := Option.map_eq_some_iff.mp last
  obtain ⟨member, isPut⟩ := List.mem_filter.mp (List.mem_of_getLast? found)
  rw [Bool.and_eq_true, beq_iff_eq] at isPut
  exact ⟨op, member, isPut.1, isPut.2, same⟩

/-- A key that has been set, with success, is held by the tail. -/
theorem tail_holds {client : Nat} {key val : String} {reply : Reply} {socks : List Nat}
    (run : c.system.Run as s)
    (at_ : s.calls id = some ⟨client, .set key val, .answered reply, socks⟩)
    (ok : reply.status = "OK") : ((s.d c.tail).get? key).isSome = true := by
  obtain ⟨bs, t, matched, related, -⟩ := (chainSimulation c).run run
  have inv := atomicInv_run matched
  have rel : Related c s t := related
  have tells : (Request.set key val).output reply = some ⟨true, key, val⟩ := by
    rw [Request.output, if_pos ok]
  have returned : t.status id = .returned ⟨true, key, val⟩ ⟨true, key, val⟩ := by
    rw [rel.status_of at_]
    simp only [Call.status, tells, Request.input]
  have inOrder := (inv.effective id _ _).mp (.inr returned)
  rw [← rel.object, mapModel_replay_get? inv.replayed key]
  exact lastPut_isSome inOrder rfl

/-- What a GET has returned is what some SET of the key has been called with. -/
theorem value_was_set {client : Nat} {key val : String} {status : String} {socks : List Nat}
    (run : c.system.Run as s)
    (at_ : s.calls id = some ⟨client, .get key, .answered ⟨status, some val⟩, socks⟩)
    (ok : status = "OK") :
    ∃ other call, s.calls other = some call ∧ call.req = .set key val := by
  subst ok
  obtain ⟨bs, t, matched, -, same⟩ := (chainSimulation c).run run
  have lin : LinearizedBy mapModel (c.history as) t.order := by
    rw [Chain.history, ← same]
    exact atomic_linearizable matched
  have shown := mem_history_ret run at_ (output_get_ok key val)
  obtain ⟨op, inOrder, rfl, isOutput⟩ := lin.completed id _ shown
  have isInput : op.input = (Request.get key).input := by
    obtain ⟨call, there, input⟩ := (mem_history_call_iff run _ _).mp (lin.called op inOrder)
    cases at_.symm.trans there
    exact input.symm
  obtain ⟨pre, post, split⟩ := List.append_of_mem inOrder
  obtain ⟨final, accepted⟩ := lin.legal
  have get : op.input.op = false := by rw [isInput]; rfl
  have last := mapModel_get_lastPut accepted split get
  rw [isOutput] at last
  obtain ⟨put, member, isPut, isKey, isVal⟩ := exists_of_lastPut last
  have inWhole : put ∈ t.order := by
    rw [split]
    exact List.mem_append_left _ member
  obtain ⟨call, there, input⟩ := (mem_history_call_iff run _ _).mp (lin.called put inWhole)
  refine ⟨put.id, call, there, ?_⟩
  cases request : call.req with
  | set key' val' =>
    rw [request] at input
    rw [← input] at isKey isVal
    rw [isInput] at isKey
    cases isKey
    cases isVal
    rfl
  | get key' =>
    rw [request] at input
    rw [← input] at isPut
    cases isPut

end Runs

end Col733.Lab3.Cr

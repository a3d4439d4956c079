import Col733.Lab3.Cr.Test
import Col733.Misc.Widening

/-!
# What the checker reads of a test

The log of a test is a wider history than that of the chain: a thread logs its call before
the request is sent, and its return after the reply has come. The checker numbers the calls as
they are logged. What it does not see is the first SET, of the main thread: it takes effect
before everything else, and gives the key the value that the checker takes for a key that was
never put.
-/

namespace Col733.Lab3

/-- The event of the checker, without the worker. -/
def LogEvent.event (e : LogEvent) : Event CrInputOutput CrInputOutput :=
  match e.kind with
  | .callEvent => .call e.id e.value
  | .returnEvent => .ret e.id e.value

theorem parseLines_concat {p : ParseState} {lines : List (List UInt8)} {line : List UInt8} :
    parseLines p (lines ++ [line]) = (parseLines p lines).bind fun q => parseLine q line := by
  induction lines generalizing p with
  | nil =>
    show (parseLine p line).bind some = _
    rw [Option.bind_fun_some]
    rfl
  | cons first lines ih =>
    rw [List.cons_append, parseLines, parseLines, Option.bind_assoc]
    exact congrArg _ (funext fun q => ih)

namespace Cr.Test

open ClientLog

variable {T : Test}

/-! ## The requests -/

/-- A request that a test makes. -/
def Known (req : Request) : Prop := req = .get "key" ∨ ∃ n : Nat, req = .set "key" (toString n)

/-- A GET of the key has been served with a value, or is going to be. -/
def Served (call : Call) : Prop :=
  call.req = .get "key" → (∃ i, call.phase = .sent i) ∨ ∃ val,
    (∃ i, call.phase = .replied i ⟨"OK", some val⟩) ∨ call.phase = .answered ⟨"OK", some val⟩

/-- As long as the tail has the key, GETs are served. -/
theorem served_step {c : Chain} {s s' : Cr.State} {a : Cr.Action} (inv : ChainInv c s)
    (stored : ((s.d c.tail).get? "key").isSome = true)
    (served : ∀ id call, s.calls id = some call → Served call) (isInternal : internal a = true)
    (step : c.step s a = some s') : ∀ id call, s'.calls id = some call → Served call := by
  have replaced : ∀ {other new}, s'.calls = Function.update s.calls other (some new) →
      Served new → ∀ id call, s'.calls id = some call → Served call := by
    intro other new calls good id call at_
    rw [calls] at at_
    by_cases here : id = other
    · rw [here, Function.update_self] at at_
      exact Option.some.inj at_ ▸ good
    · rw [Function.update_of_ne here] at at_
      exact served id call at_
  have assigned : ∀ {id client i socks} {req : Request} {phase : Phase} {rest : List Nat},
      s.calls id = some ⟨client, req, .assigned i, socks⟩ → Served ⟨client, req, phase, rest⟩ := by
    intro id client i socks req phase rest at_ isGet
    obtain ⟨k, -, fits⟩ := inv.of_call at_
    obtain ⟨⟨key, val, isSet⟩, -⟩ := fits.assigned
    cases isSet.symm.trans isGet
  cases Chain.moves_of_step step with
  | invoke => cases isInternal
  | assign id client i key val socks at_ =>
    refine replaced rfl fun isGet => ?_
    cases isGet
  | forward _ _ _ _ _ _ at_ | forwardEof _ _ _ _ _ _ at_ | forwardRaises _ _ _ _ _ _ at_
  | exhausted _ _ _ _ _ at_ | finish _ _ _ _ _ at_ => exact replaced rfl (assigned at_)
  | lookup id client i key socks at_ =>
    refine replaced rfl fun isGet => ?_
    cases isGet
    obtain ⟨k, -, -, atTail, -⟩ := inv.of_call at_
    have here : i = c.tail := atTail
    subst here
    have last : c.next c.tail = none := (Chain.next_eq_none_iff c c.tail).mpr (tail_succ c)
    obtain ⟨val, found⟩ := Option.isSome_iff_exists.mp stored
    refine .inr ⟨val, .inl ⟨c.tail, ?_⟩⟩
    show c.get s c.tail "key" = _
    simp only [Chain.get, last, found]
  | receive id sock client i req reply socks at_ =>
    refine replaced rfl fun isGet => ?_
    obtain ⟨k, -, fits⟩ := inv.of_call at_
    obtain ⟨⟨key, val, isSet⟩, -⟩ := fits.replied
    cases isSet.symm.trans isGet
  | receiveEof id sock client i req socks at_ =>
    refine replaced rfl fun isGet => ?_
    cases isGet
    obtain ⟨k, -, -, -, none_⟩ := inv.of_call at_
    cases none_
  | respond id client i req reply at_ =>
    refine replaced rfl fun isGet => ?_
    rcases served id _ at_ isGet with ⟨j, sent⟩ | ⟨val, ⟨j, there⟩ | there⟩
    · cases sent
    · cases there
      exact .inr ⟨val, .inr rfl⟩
    · cases there
  | respondEof id client i req at_ =>
    refine replaced rfl fun isGet => ?_
    rcases served id _ at_ isGet with ⟨j, there⟩ | ⟨val, ⟨j, there⟩ | there⟩
    · cases there
    · cases there
    · cases there

/-- What the main thread knows of the chain, when `calls` calls have been logged. -/
def MainAt (T : Test) (chain : Cr.State) (calls : Nat) : Main → Prop
  | .start => calls = 0 ∧ ∀ id, chain.calls id = none
  | .setting => calls = 0 ∧ chain.Made 0 T.client1 (.set "key" "0")
  | .started => ∃ reply socks,
      chain.calls 0 = some ⟨T.client1, .set "key" "0", .answered reply, socks⟩

/-- What a thread knows of the chain. -/
def WorkerAt (chain : Cr.State) (w : Worker) : WorkerState → Prop
  | ⟨_, .ready⟩ => True
  | ⟨_, .logged k⟩ => chain.calls (k + 1) = none
  | ⟨i, .waiting k⟩ => chain.Made (k + 1) w.client (w.request i)
  | ⟨_, .failed⟩ => False

/-- The requests of a test: only the threads make them, each one at a time. -/
structure Requests (T : Test) (chain : Cr.State) (main : Main) (workers : Fin T.count → WorkerState)
    (calls : Nat) (bs : List Cr.Action) : Prop where
  run : T.chain.system.Run bs chain
  met : T.chain.system.Meets (OneAtATime T.clients) bs
  known : ∀ id call, chain.calls id = some call → Known call.req
  served : main = .started → ∀ id call, chain.calls id = some call → Served call
  made : ∀ id call, chain.calls id = some call → id ≤ calls
  owned : ∀ id call, chain.calls id = some call → call.waiting = true →
    (id = 0 ∧ main = .setting) ∨ ∃ t i k, workers t = ⟨i, .waiting k⟩ ∧ id = k + 1
  main : MainAt T chain calls main
  workers : ∀ t, WorkerAt chain (T.workers t) (workers t)

section Requests

variable {chain chain' : Cr.State} {main : Main} {workers : Fin T.count → WorkerState}
  {calls : Nat} {bs : List Cr.Action} {a : Cr.Action} {t : Fin T.count} {i k : Nat}

theorem requests_init (T : Test) :
    Requests T T.chain.system.init .start (fun _ => {}) 0 [] where
  run := T.chain.system.run_nil
  met := trivial
  known _ _ at_ := by cases at_
  served started := by cases started
  made _ _ at_ := by cases at_
  owned _ _ at_ := by cases at_
  main := ⟨rfl, fun _ => rfl⟩
  workers _ := trivial

/-- The request 0 is the SET of the main thread. -/
theorem Requests.first (requests : Requests T chain main workers calls bs) {call : Call}
    (at_ : chain.calls 0 = some call) : call.req = .set "key" "0" := by
  have known := requests.main
  cases main with
  | start => cases at_.symm.trans (known.2 0)
  | setting =>
    obtain ⟨-, phase, socks, there⟩ := known
    cases at_.symm.trans there
    rfl
  | started =>
    obtain ⟨reply, socks, there⟩ := known
    cases at_.symm.trans there
    rfl

/-- After the start, the first SET has been answered with OK. -/
theorem Requests.answered (requests : Requests T chain .started workers calls bs)
    (few : T.clients.card ≤ T.chain.poolSz) :
    ∃ reply socks, chain.calls 0 = some ⟨T.client1, .set "key" "0", .answered reply, socks⟩ ∧
      reply.status = "OK" := by
  obtain ⟨reply, socks, at_⟩ := requests.main
  have healthy := (fewInv_run requests.run requests.met few).healthy 0 _ at_
  exact ⟨reply, socks, at_, healthy.ok _ _ reply rfl (.inr rfl)⟩

theorem WorkerAt.moves {w : Worker} {st : WorkerState} (before : WorkerAt chain w st)
    (isInternal : internal a = true) (moved : T.chain.step chain a = some chain') :
    WorkerAt chain' w st := by
  obtain ⟨i, place⟩ := st
  cases place with
  | ready => trivial
  | logged k =>
    show chain'.calls (k + 1) = none
    cases at_ : chain'.calls (k + 1) with
    | none => rfl
    | some call =>
      obtain ⟨old, was, -⟩ := call_of_step isInternal moved at_
      cases was.symm.trans before
  | waiting k => exact made_step before moved
  | failed => exact before

/-- A handler moves, or a client reads its reply. -/
theorem Requests.moves (requests : Requests T chain main workers calls bs)
    (few : T.clients.card ≤ T.chain.poolSz) (isInternal : internal a = true)
    (moved : T.chain.step chain a = some chain') :
    Requests T chain' main workers calls (bs ++ [a]) where
  run := requests.run.snoc moved
  met := by
    refine requests.met.snoc requests.run ?_ moved
    cases a with
    | invoke => cases isInternal
    | assign | forward | forwardDead | exhausted | finish | lookup | receive | respond => trivial
  known id call at_ := by
    obtain ⟨old, was, -, req, -⟩ := call_of_step isInternal moved at_
    rw [req]
    exact requests.known id old was
  served started := by
    subst started
    obtain ⟨reply, socks, at_, ok⟩ := requests.answered few
    exact served_step (chainInv_run requests.run) (tail_holds requests.run at_ ok)
      (requests.served rfl) isInternal moved
  made id call at_ := by
    obtain ⟨old, was, -⟩ := call_of_step isInternal moved at_
    exact requests.made id old was
  owned id call at_ waits := by
    obtain ⟨old, was, -, -, waited⟩ := call_of_step isInternal moved at_
    exact requests.owned id old was (waited waits)
  main := by
    have before := requests.main
    cases main with
    | start =>
      refine ⟨before.1, fun id => ?_⟩
      cases at_ : chain'.calls id with
      | none => rfl
      | some call =>
        obtain ⟨old, was, -⟩ := call_of_step isInternal moved at_
        rw [before.2 id] at was
        cases was
    | setting => exact ⟨before.1, made_step before.2 moved⟩
    | started =>
      obtain ⟨reply, socks, at_⟩ := before
      exact ⟨reply, socks, answered_step isInternal moved at_ rfl⟩
  workers t := (requests.workers t).moves isInternal moved

theorem WorkerAt.sent {w : Worker} {st : WorkerState} {id : Nat} {call : Call}
    (before : WorkerAt chain w st) (fresh : chain.calls id = none)
    (other : ∀ i k, st = ⟨i, .logged k⟩ → k + 1 ≠ id) : WorkerAt (chain.setCall id call) w st := by
  obtain ⟨i, place⟩ := st
  cases place with
  | ready => trivial
  | logged k =>
    show (chain.setCall id call).calls (k + 1) = none
    rw [State.setCall_calls, Function.update_of_ne (other i k rfl)]
    exact before
  | waiting k =>
    obtain ⟨phase, socks, at_⟩ := before
    refine ⟨phase, socks, ?_⟩
    rw [State.setCall_calls, Function.update_of_ne, at_]
    rintro rfl
    cases at_.symm.trans fresh
  | failed => exact before

/-- What has been made after a new request. -/
theorem calls_setCall {id other : Nat} {new call : Call}
    (at_ : (chain.setCall id new).calls other = some call) :
    (other = id ∧ call = new) ∨ (other ≠ id ∧ chain.calls other = some call) := by
  rw [State.setCall_calls] at at_
  by_cases here : other = id
  · rw [here, Function.update_self] at at_
    exact .inl ⟨here, (Option.some.inj at_).symm⟩
  · rw [Function.update_of_ne here] at at_
    exact .inr ⟨here, at_⟩

/-- The main thread sends its SET. -/
theorem Requests.set (requests : Requests T chain .start workers calls bs)
    (sent : T.chain.step chain (.invoke 0 T.client1 (.set "key" "0")) = some chain') :
    Requests T chain' .setting workers calls
      (bs ++ [.invoke 0 T.client1 (.set "key" "0")]) := by
  obtain ⟨zero, nothing⟩ := requests.main
  obtain ⟨fresh, rfl⟩ := step_invoke sent
  have only : ∀ id call, (chain.setCall 0 ⟨T.client1, .set "key" "0", .sent 0, []⟩).calls id =
      some call → id = 0 ∧ call = ⟨T.client1, .set "key" "0", .sent 0, []⟩ := by
    intro id call at_
    rcases calls_setCall at_ with new | ⟨-, old⟩
    · exact new
    · rw [nothing id] at old
      cases old
  refine ⟨requests.run.snoc sent, requests.met.snoc requests.run ⟨?_, ?_⟩ sent, ?_, nofun, ?_, ?_,
    ⟨zero, _, _, by rw [State.setCall_calls, Function.update_self]⟩, fun t => ?_⟩
  · exact Finset.mem_insert_self _ _
  · intro id call at_
    rw [nothing id] at at_
    cases at_
  · intro id call at_
    rw [(only id call at_).2]
    exact .inr ⟨0, rfl⟩
  · intro id call at_
    rw [(only id call at_).1]
    exact Nat.zero_le _
  · intro id call at_ _
    exact .inl ⟨(only id call at_).1, rfl⟩
  · exact (requests.workers t).sent fresh fun i k _ => Nat.succ_ne_zero k

/-- It starts the threads, after the reply. -/
theorem Requests.start {client : Nat} {req : Request} {reply : Reply} {socks : List Nat}
    (requests : Requests T chain .setting workers calls bs)
    (at_ : chain.calls 0 = some ⟨client, req, .answered reply, socks⟩) :
    Requests T chain .started workers calls bs := by
  obtain ⟨zero, phase, socks', there⟩ := requests.main
  cases at_.symm.trans there
  have only : ∀ id call, chain.calls id = some call → id = 0 := by
    intro id call here
    have bound := requests.made id call here
    omega
  refine { requests with
    served := fun _ id call here isGet => ?_
    owned := fun id call here waits => ?_
    main := ⟨reply, socks, at_⟩ }
  · cases only id call here
    cases at_.symm.trans here
    cases isGet
  · rcases requests.owned id call here waits with ⟨rfl, -⟩ | byThread
    · cases at_.symm.trans here
      cases waits
    · exact .inr byThread

/-- A thread that does not wait moves to a place where it does not wait either. -/
theorem owned_update {id : Nat} {call : Call} {place : Place}
    (owned : (id = 0 ∧ main = .setting) ∨ ∃ t i k, workers t = ⟨i, .waiting k⟩ ∧ id = k + 1)
    (before : ∀ k, (workers t).place = .waiting k → k + 1 = id → call.waiting = false)
    (waits : call.waiting = true) :
    (id = 0 ∧ main = .setting) ∨ ∃ t' i' k, Function.update workers t ⟨i, place⟩ t' =
      ⟨i', .waiting k⟩ ∧ id = k + 1 := by
  rcases owned with byMain | ⟨t', i', k, there, rfl⟩
  · exact .inl byMain
  · refine .inr ⟨t', i', k, ?_, rfl⟩
    rw [Function.update_of_ne, there]
    rintro rfl
    have done := before k (by rw [there]) rfl
    rw [done] at waits
    cases waits

/-- A thread logs a call. -/
theorem Requests.logCall (requests : Requests T chain .started workers calls bs)
    (here : workers t = ⟨i, .ready⟩) :
    Requests T chain .started (Function.update workers t ⟨i, .logged calls⟩) (calls + 1) bs where
  run := requests.run
  met := requests.met
  known := requests.known
  served := requests.served
  made id call at_ := Nat.le_succ_of_le (requests.made id call at_)
  owned id call at_ waits := by
    refine owned_update (requests.owned id call at_ waits) (fun k isWaiting => ?_) waits
    rw [here] at isWaiting
    cases isWaiting
  main := requests.main
  workers := by
    refine System.holds_update (P := fun t st => WorkerAt chain (T.workers t) st)
      requests.workers ?_
    show chain.calls (calls + 1) = none
    cases at_ : chain.calls (calls + 1) with
    | none => rfl
    | some call => exact absurd (requests.made _ call at_) (by omega)

/-- A thread logs a return, and is ready for the next iteration. -/
theorem Requests.logReturn {client : Nat} {req : Request} {reply : Reply} {socks : List Nat}
    (requests : Requests T chain main workers calls bs) (here : workers t = ⟨i, .waiting k⟩)
    (at_ : chain.calls (k + 1) = some ⟨client, req, .answered reply, socks⟩) :
    Requests T chain main (Function.update workers t ⟨i + 1, .ready⟩) calls bs where
  run := requests.run
  met := requests.met
  known := requests.known
  served := requests.served
  made := requests.made
  owned id call there waits := by
    refine owned_update (requests.owned id call there waits) (fun k' isWaiting same => ?_) waits
    rw [here] at isWaiting
    cases isWaiting
    subst same
    cases at_.symm.trans there
    rfl
  main := requests.main
  workers := System.holds_update (P := fun t st => WorkerAt chain (T.workers t) st)
    requests.workers trivial

/-- A thread sends its request. -/
theorem Requests.send (requests : Requests T chain .started workers calls bs)
    (here : workers t = ⟨i, .logged k⟩) (below : k < calls)
    (distinct : ∀ t' i', workers t' = ⟨i', .logged k⟩ → t' = t)
    (sent : T.chain.step chain
      (.invoke (k + 1) (T.workers t).client ((T.workers t).request i)) = some chain') :
    Requests T chain' .started (Function.update workers t ⟨i, .waiting k⟩) calls
      (bs ++ [.invoke (k + 1) (T.workers t).client ((T.workers t).request i)]) := by
  obtain ⟨fresh, rfl⟩ := step_invoke sent
  refine ⟨requests.run.snoc sent, requests.met.snoc requests.run ⟨?_, ?_⟩ sent, ?_, ?_, ?_, ?_,
    ?_, ?_⟩
  · exact Finset.mem_insert_of_mem (Finset.mem_image_of_mem _ (Finset.mem_univ t))
  · intro id call at_ client
    by_contra waiting
    rcases requests.owned id call at_ (by simpa using waiting) with
      ⟨-, setting⟩ | ⟨t', i', k', there, rfl⟩
    · cases setting
    · -- the client of another thread is another one
      have knows := requests.workers t'
      rw [there] at knows
      obtain ⟨phase, socks, at'⟩ := knows
      cases at_.symm.trans at'
      cases T.clientsInj client
      rw [here] at there
      cases there
  · intro id call at_
    rcases calls_setCall at_ with ⟨-, rfl⟩ | ⟨-, old⟩
    · show Known ((T.workers t).request i)
      unfold Worker.request
      cases (T.workers t).role with
      | setter => exact .inr ⟨i, rfl⟩
      | getter => exact .inl rfl
    · exact requests.known id call old
  · intro _ id call at_
    rcases calls_setCall at_ with ⟨-, rfl⟩ | ⟨-, old⟩
    · exact fun _ => .inl ⟨_, rfl⟩
    · exact requests.served rfl id call old
  · intro id call at_
    rcases calls_setCall at_ with ⟨rfl, -⟩ | ⟨-, old⟩
    · exact below
    · exact requests.made id call old
  · intro id call at_ waits
    rcases calls_setCall at_ with ⟨rfl, -⟩ | ⟨-, old⟩
    · exact .inr ⟨t, i, k, Function.update_self _ _ _, rfl⟩
    · refine owned_update (requests.owned id call old waits) (fun k' isWaiting => ?_) waits
      rw [here] at isWaiting
      cases isWaiting
  · obtain ⟨reply, socks, at_⟩ := requests.main
    refine ⟨reply, socks, ?_⟩
    rw [State.setCall_calls, Function.update_of_ne (Nat.succ_ne_zero k).symm, at_]
  · intro t'
    by_cases same : t' = t
    · subst same
      rw [Function.update_self]
      exact ⟨_, _, Function.update_self _ _ _⟩
    · rw [Function.update_of_ne same]
      refine (requests.workers t').sent fresh fun i' k' there => ?_
      intro equal
      cases Nat.succ.inj equal
      exact same (distinct t' i' there)

/-- A reply is a success, and the number that is logged is that of the request or of some
other one. -/
theorem Requests.returns {client : Nat} {req : Request} {reply : Reply} {socks : List Nat}
    (requests : Requests T chain .started workers calls bs)
    (few : T.clients.card ≤ T.chain.poolSz) (here : workers t = ⟨i, .waiting k⟩)
    (at_ : chain.calls (k + 1) = some ⟨client, req, .answered reply, socks⟩) :
    ∃ n, (T.workers t).called i reply = some ((T.workers t).returning n) ∧
      req.output reply = some ((T.workers t).output n) := by
  have knows := requests.workers t
  rw [here] at knows
  obtain ⟨phase, socks', there⟩ := knows
  cases at_.symm.trans there
  have healthy := (fewInv_run requests.run requests.met few).healthy _ _ at_
  have served := requests.served rfl _ _ at_
  unfold Worker.called Worker.returning Worker.output
  unfold Worker.request at healthy served at_ ⊢
  cases role : (T.workers t).role with
  | setter =>
    rw [role] at healthy
    have ok : reply.status = "OK" := healthy.ok _ _ reply rfl (.inr rfl)
    refine ⟨i, rfl, ?_⟩
    show (if reply.status = "OK" then _ else none) = _
    rw [if_pos ok]
    rfl
  | getter =>
    rw [role] at served at_
    rcases served rfl with ⟨j, sent⟩ | ⟨val, ⟨j, there⟩ | there⟩
    · cases sent
    · cases there
    · cases there
      obtain ⟨other, call, made, isSet⟩ := value_was_set requests.run at_ rfl
      rcases requests.known other call made with isGet | ⟨n, known⟩
      · cases isGet.symm.trans isSet
      · cases isSet.symm.trans known
        exact ⟨n, rfl, rfl⟩

end Requests

/-! ## The lines -/

/-- The number of the call that the thread is in. -/
def WorkerState.ticket? : WorkerState → Option Nat
  | ⟨_, .logged k⟩ | ⟨_, .waiting k⟩ => some k
  | _ => none

/-- The history that the checker has read. -/
def shown (p : ParseState) : List (Event CrInputOutput CrInputOutput) :=
  p.events.map LogEvent.event

theorem shown_call (p : ParseState) (worker : Nat) (value : CrInputOutput) :
    shown (p.call worker value) = shown p ++ [.call p.id value] :=
  List.map_append

theorem shown_ret (p : ParseState) (worker : Nat) (value : CrInputOutput) :
    shown (p.ret worker value) =
      shown p ++ [.ret ((p.procIdMap.get? worker).getD 0) value] :=
  List.map_append

/-- The lines of the file, and what the checker knows when it has read them: its map has the
call of every thread that is in one. -/
structure Lines (T : Test) (workers : Fin T.count → WorkerState) (calls : Nat)
    (log : List (List UInt8)) (p : ParseState) : Prop where
  parsed : parseLines ParseState.start log = some p
  plain : ∀ line ∈ log, newline ∉ line ∧ dropCR line = line
  ids : p.id = calls
  holds : ∀ t k, (workers t).ticket? = some k → k < calls ∧
    p.procIdMap.get? (T.workers t).number = some k ∧
      Event.call k ((T.workers t).request (workers t).i).input ∈ shown p
  distinct : ∀ t t' k, (workers t).ticket? = some k → (workers t').ticket? = some k → t = t'
  pending : ∀ k input, Event.call k input ∈ shown p →
    (∃ output, Event.ret k output ∈ shown p) ∨ ∃ t, (workers t).ticket? = some k

section Lines

variable {workers : Fin T.count → WorkerState} {calls : Nat} {log : List (List UInt8)}
  {p : ParseState} {t : Fin T.count} {i k : Nat}

theorem lines_init (T : Test) : Lines T (fun _ => {}) 0 [] ParseState.start where
  parsed := rfl
  plain _ member := by cases member
  ids := rfl
  holds _ _ ticket := by cases ticket
  distinct _ _ _ ticket := by cases ticket
  pending _ _ member := by cases member

/-- A line that tells an event is read. -/
theorem Lines.parse (lines : Lines T workers calls log p) {line : Line}
    {kind : EventKind} {value : CrInputOutput}
    (told : line.shown? = some ((T.workers t).number, kind, value)) :
    parseLines ParseState.start (log ++ [line.text]) =
      some (tell p (some ((T.workers t).number, kind, value))) := by
  rw [parseLines_concat, lines.parsed, Option.bind_some, parseLine_text, told]
  intro w worker
  rw [worker?_eq, told] at worker
  cases worker
  exact T.inRange t

/-- The ticket of a thread after another one has moved. -/
theorem ticket_update {st : WorkerState} {t' : Fin T.count}
    (ticket : (Function.update workers t st t').ticket? = some k) :
    (t' = t ∧ st.ticket? = some k) ∨ (t' ≠ t ∧ (workers t').ticket? = some k) := by
  by_cases same : t' = t
  · subst same
    rw [Function.update_self] at ticket
    exact .inl ⟨rfl, ticket⟩
  · rw [Function.update_of_ne same] at ticket
    exact .inr ⟨same, ticket⟩

/-- A call is logged, and read as the next one. -/
theorem Lines.logCall (lines : Lines T workers calls log p) (here : workers t = ⟨i, .ready⟩)
    (time : Time) :
    Lines T (Function.update workers t ⟨i, .logged calls⟩) (calls + 1)
      (log ++ [clientLine time (T.workers t) ((T.workers t).calling i)])
      (p.call (T.workers t).number ((T.workers t).request i).input) where
  parsed := by
    rw [text_callLine, lines.parse (shown_callLine time (T.workers t) i)]
    rfl
  plain line member := by
    rcases List.mem_append.mp member with old | new
    · exact lines.plain line old
    · rw [List.mem_singleton.mp new]
      exact plain_clientLine time _ (printable_calling _ i)
  ids := congrArg (· + 1) lines.ids
  holds t' k ticket := by
    rw [shown_call, lines.ids]
    show _ ∧ (p.procIdMap.set (T.workers t).number p.id).get? _ = some k ∧ _
    rcases ticket_update ticket with ⟨rfl, new⟩ | ⟨other, old⟩
    · cases new
      rw [Function.update_self, Dict.get?_set_self, lines.ids]
      exact ⟨Nat.lt_succ_self _, rfl, List.mem_append_right _ List.mem_cons_self⟩
    · obtain ⟨below, mapped, member⟩ := lines.holds t' k old
      rw [Function.update_of_ne other, Dict.get?_set_of_ne _ fun same => other (T.numbersInj same)]
      exact ⟨Nat.lt_succ_of_lt below, mapped, List.mem_append_left _ member⟩
  distinct one two k ticket ticket' := by
    rcases ticket_update ticket with ⟨rfl, new⟩ | ⟨-, old⟩
    · rcases ticket_update ticket' with ⟨rfl, -⟩ | ⟨-, old'⟩
      · rfl
      · cases new
        exact absurd (lines.holds two _ old').1 (Nat.lt_irrefl _)
    · rcases ticket_update ticket' with ⟨rfl, new'⟩ | ⟨-, old'⟩
      · cases new'
        exact absurd (lines.holds one _ old).1 (Nat.lt_irrefl _)
      · exact lines.distinct one two k old old'
  pending k input member := by
    rw [shown_call] at member ⊢
    rcases List.mem_append.mp member with old | new
    · rcases lines.pending k input old with ⟨output, returned⟩ | ⟨t', ticket⟩
      · exact .inl ⟨output, List.mem_append_left _ returned⟩
      · refine .inr ⟨t', ?_⟩
        rw [Function.update_of_ne, ticket]
        rintro rfl
        rw [here] at ticket
        cases ticket
    · cases List.mem_singleton.mp new
      refine .inr ⟨t, ?_⟩
      rw [Function.update_self, ← lines.ids]
      rfl

/-- A thread waits for its reply, in the same call. -/
theorem Lines.send (lines : Lines T workers calls log p) (here : workers t = ⟨i, .logged k⟩) :
    Lines T (Function.update workers t ⟨i, .waiting k⟩) calls log p := by
  have same : ∀ t', (Function.update workers t ⟨i, .waiting k⟩ t').ticket? =
      (workers t').ticket? ∧ (Function.update workers t ⟨i, .waiting k⟩ t').i = (workers t').i := by
    intro t'
    by_cases equal : t' = t
    · subst equal
      rw [Function.update_self, here]
      exact ⟨rfl, rfl⟩
    · rw [Function.update_of_ne equal]
      exact ⟨rfl, rfl⟩
  refine ⟨lines.parsed, lines.plain, lines.ids, fun t' k' ticket => ?_, fun one two k' => ?_,
    fun k' input member => ?_⟩
  · rw [(same t').1] at ticket
    rw [(same t').2]
    exact lines.holds t' k' ticket
  · rw [(same one).1, (same two).1]
    exact lines.distinct one two k'
  · rcases lines.pending k' input member with returned | ⟨t', ticket⟩
    · exact .inl returned
    · exact .inr ⟨t', by rw [(same t').1, ticket]⟩

/-- A return is logged, and read as that of the call. -/
theorem Lines.logReturn (lines : Lines T workers calls log p)
    (here : workers t = ⟨i, .waiting k⟩) (time : Time) (n : Nat) :
    Lines T (Function.update workers t ⟨i + 1, .ready⟩) calls
      (log ++ [clientLine time (T.workers t) ((T.workers t).returning n)])
      (p.ret (T.workers t).number ((T.workers t).output n)) ∧
    shown (p.ret (T.workers t).number ((T.workers t).output n)) =
      shown p ++ [.ret k ((T.workers t).output n)] := by
  have ticket : (workers t).ticket? = some k := by rw [here]; rfl
  have isRet : shown (p.ret (T.workers t).number ((T.workers t).output n)) =
      shown p ++ [.ret k ((T.workers t).output n)] := by
    rw [shown_ret, (lines.holds t k ticket).2.1, Option.getD_some]
  refine ⟨⟨?_, ?_, lines.ids, ?_, ?_, ?_⟩, isRet⟩
  · rw [text_returnLine, lines.parse (shown_returnLine time (T.workers t) n)]
    rfl
  · intro line member
    rcases List.mem_append.mp member with old | new
    · exact lines.plain line old
    · rw [List.mem_singleton.mp new]
      exact plain_clientLine time _ (printable_returning _ n)
  · intro t' k' ticket'
    rcases ticket_update ticket' with ⟨-, none_⟩ | ⟨other, old⟩
    · cases none_
    · obtain ⟨below, mapped, member⟩ := lines.holds t' k' old
      rw [Function.update_of_ne other, isRet]
      refine ⟨below, ?_, List.mem_append_left _ member⟩
      exact (Dict.get?_erase_of_ne _ fun same => other (T.numbersInj same)).trans mapped
  · intro one two k' ticket' ticket''
    rcases ticket_update ticket' with ⟨-, none_⟩ | ⟨-, old⟩
    · cases none_
    · rcases ticket_update ticket'' with ⟨-, none_⟩ | ⟨-, old'⟩
      · cases none_
      · exact lines.distinct one two k' old old'
  · intro k' input member
    rw [isRet] at member ⊢
    rcases List.mem_append.mp member with old | new
    · rcases lines.pending k' input old with ⟨output, returned⟩ | ⟨t', ticket'⟩
      · exact .inl ⟨output, List.mem_append_left _ returned⟩
      · by_cases same : t' = t
        · subst same
          cases ticket.symm.trans ticket'
          exact .inl ⟨_, List.mem_append_right _ List.mem_cons_self⟩
        · exact .inr ⟨t', by rw [Function.update_of_ne same, ticket']⟩
    · cases List.mem_singleton.mp new

end Lines

/-! ## The two histories -/

/-- The first SET, as the checker would record it. -/
def firstSet : CrInputOutput := { op := true, key := "key", value := "0" }

/-- The history of the chain, and the wider one that the checker reads. The first SET has
returned before any other request is sent. -/
structure Seen (history wide : List (Event CrInputOutput CrInputOutput)) : Prop where
  widens : Widens Nat.succ history wide
  first : ∀ k input, Event.call (k + 1) input ∈ history →
    Precedes history (.ret 0 firstSet) (.call (k + 1) input)

section Seen

variable {history wide : List (Event CrInputOutput CrInputOutput)} {k : Nat}
  {input : CrInputOutput}

theorem Seen.append (seen : Seen history wide) {more : List (Event CrInputOutput CrInputOutput)}
    (widens : Widens Nat.succ (history ++ more) wide)
    (silent : ∀ k input, Event.call (k + 1) input ∉ more) : Seen (history ++ more) wide where
  widens := widens
  first k input member := by
    rcases List.mem_append.mp member with old | new
    · exact (seen.first k input old).append more
    · exact absurd new (silent k input)

/-- The first SET is called. -/
theorem Seen.set (seen : Seen history wide) (input : CrInputOutput) :
    Seen (history ++ [.call 0 input]) wide := by
  refine seen.append (seen.widens.call fun other zero => ?_) fun k input' member => ?_
  · exact absurd zero (Nat.succ_ne_zero other)
  · cases List.mem_singleton.mp member

/-- An action of the chain that sends nothing. -/
theorem Seen.moves {s : Cr.State} {a : Cr.Action} (seen : Seen history wide)
    (isInternal : internal a = true) : Seen (history ++ clientEvents s a) wide := by
  rcases clientEvents_internal s isInternal with none_ | ⟨id, output, one⟩
  · rw [none_, List.append_nil]
    exact seen
  · rw [one]
    refine seen.append seen.widens.ret fun k input member => ?_
    cases List.mem_singleton.mp member

/-- A thread sends its request, which it has logged. -/
theorem Seen.send (seen : Seen history wide) (returned : Event.ret 0 firstSet ∈ history)
    (logged : Event.call k input ∈ wide) : Seen (history ++ [.call (k + 1) input]) wide where
  widens := seen.widens.call fun other same => by
    cases Nat.succ.inj same
    exact logged
  first other input' member := by
    rcases List.mem_append.mp member with old | new
    · exact (seen.first other input' old).append _
    · rw [List.mem_singleton.mp new]
      exact precedes_concat_iff.mpr (.inr ⟨returned, rfl⟩)

end Seen

/-- What holds in every state that a test reaches. -/
structure Inv (s : State T) (bs : List Cr.Action) (p : ParseState) : Prop where
  requests : Requests T s.chain s.main s.workers s.calls bs
  lines : Lines T s.workers s.calls s.log p
  seen : Seen (T.chain.history bs) (shown p)

section Runs

variable {s s' : State T} {bs : List Cr.Action} {p : ParseState} {as : List (Action T)}

theorem inv_init (T : Test) : Inv T.system.init [] ParseState.start where
  requests := requests_init T
  lines := lines_init T
  seen := ⟨Widens.nil _, fun _ _ member => by cases member⟩

/-- A thread is in a call only after the start. -/
theorem Inv.started (inv : Inv s bs p) {t : Fin T.count} {k : Nat}
    (ticket : (s.workers t).ticket? = some k) : s.main = .started := by
  have below := (inv.lines.holds t k ticket).1
  have known := inv.requests.main
  cases main : s.main with
  | started => rfl
  | start =>
    rw [main] at known
    have zero := known.1
    omega
  | setting =>
    rw [main] at known
    have zero := known.1
    omega

/-- One step of a test. -/
theorem Inv.step (few : T.clients.card ≤ T.chain.poolSz) (inv : Inv s bs p) {a : Action T}
    (step : T.step s a = some s') : ∃ bs' p', Inv s' bs' p' := by
  obtain ⟨requests, lines, seen⟩ := inv
  cases moves_of_step step with
  | set chain main sent =>
    rw [main] at requests
    refine ⟨_, p, requests.set sent, lines, ?_⟩
    rw [history_snoc requests.run sent]
    exact seen.set _
  | start client req reply socks main at_ =>
    rw [main] at requests
    exact ⟨bs, p, requests.start at_, lines, seen⟩
  | logCall t time i main here more =>
    rw [main] at requests
    refine ⟨bs, _, ?_, lines.logCall here time, ?_⟩
    · show Requests T s.chain s.main _ _ bs
      rw [main]
      exact requests.logCall here
    · rw [shown_call]
      refine ⟨seen.widens.showCall fun input' member => ?_, seen.first⟩
      obtain ⟨call, there, -⟩ := (mem_history_call_iff requests.run _ _).mp member
      have bound := requests.made _ call there
      have ids := lines.ids
      omega
  | send t i k chain here sent =>
    have ticket : (s.workers t).ticket? = some k := by rw [here]; rfl
    have started := Inv.started ⟨requests, lines, seen⟩ ticket
    rw [started] at requests
    obtain ⟨below, -, logged⟩ := lines.holds t k ticket
    refine ⟨bs ++ [.invoke (k + 1) (T.workers t).client ((T.workers t).request i)], p, ?_,
      lines.send here, ?_⟩
    · show Requests T chain s.main _ _ _
      rw [started]
      refine requests.send here below (fun t' i' there => ?_) sent
      exact lines.distinct t' t k (by rw [there]; rfl) ticket
    · rw [history_snoc requests.run sent]
      obtain ⟨reply, socks, at_, ok⟩ := requests.answered few
      have tells : (Request.set "key" "0").output reply = some firstSet := by
        rw [Request.output, if_pos ok]
        rfl
      rw [here] at logged
      exact seen.send (mem_history_ret requests.run at_ tells) logged
  | logReturn t time i k client req reply socks message here at_ returned =>
    have ticket : (s.workers t).ticket? = some k := by rw [here]; rfl
    have started := Inv.started ⟨requests, lines, seen⟩ ticket
    rw [started] at requests
    obtain ⟨n, called, tells⟩ := requests.returns few here at_
    cases returned.symm.trans called
    obtain ⟨lines', isRet⟩ := lines.logReturn here time n
    refine ⟨bs, _, ?_, lines', ?_⟩
    · show Requests T s.chain s.main _ _ bs
      rw [started]
      exact requests.logReturn here at_
    · rw [isRet]
      exact ⟨seen.widens.showRet (mem_history_ret requests.run at_ tells), seen.first⟩
  | fail t time i k client req reply socks here at_ raised =>
    have ticket : (s.workers t).ticket? = some k := by rw [here]; rfl
    have started := Inv.started ⟨requests, lines, seen⟩ ticket
    rw [started] at requests
    obtain ⟨n, called, -⟩ := requests.returns few here at_
    cases raised.symm.trans called
  | chain a chain isInternal moved =>
    refine ⟨_, p, requests.moves few isInternal moved, lines, ?_⟩
    rw [history_snoc requests.run moved]
    exact seen.moves isInternal

theorem inv_run (few : T.clients.card ≤ T.chain.poolSz) (run : T.system.Run as s) :
    ∃ bs p, Inv s bs p := by
  refine System.run_invariant (P := fun s => ∃ bs p, Inv s bs p)
    ⟨[], ParseState.start, inv_init T⟩ ?_ run
  rintro s a s' ⟨bs, p, inv⟩ step
  exact inv.step few step

/-- The checker takes "0" for a key that was never put, which is what the first SET has put. -/
theorem crModel_of_first {ops : List (Operation CrInputOutput CrInputOutput)}
    {first : Operation CrInputOutput CrInputOutput} (isFirst : first.input = firstSet)
    {final : Dict String String}
    (accepted : mapModel.replay mapModel.init (first :: ops) = some final) :
    ∃ final, crModel.replay crModel.init ops = some final := by
  let rel (m m' : Dict String String) : Prop :=
    ∀ key val, m.get? key = some val → (m'.get? key).getD "0" = val
  have start : rel (Dict.empty.set "key" "0") Dict.empty := by
    intro key val held
    rw [Dict.get?_set] at held
    split at held
    · cases held
      rfl
    · cases held
  have step : ∀ m m' i o, rel m m' → (mapModel.step m i o).1 = true →
      (crModel.step m' i o).1 = true ∧ rel (mapModel.step m i o).2 (crModel.step m' i o).2 := by
    intro m m' i o related fits
    by_cases put : i.op = true
    · simp only [mapModel, crModel, if_pos put]
      refine ⟨trivial, fun key val held => ?_⟩
      rw [Dict.get?_set] at held ⊢
      split at held
      · rename_i here
        rw [if_pos here]
        exact Option.some.inj held
      · rename_i other
        rw [if_neg other]
        exact related key val held
    · simp only [mapModel, if_neg put, decide_eq_true_eq] at fits
      obtain ⟨sameKey, held⟩ := fits
      have value := related i.key o.value held
      simp only [mapModel, crModel, if_neg put]
      rw [← sameKey] at value
      cases found : m'.get? o.key with
      | none =>
        rw [found] at value
        exact ⟨decide_eq_true value.symm, related⟩
      | some val =>
        rw [found] at value
        exact ⟨decide_eq_true value, related⟩
  simp only [SeqModel.replay, isFirst] at accepted
  obtain ⟨final', accepted', -⟩ := SeqModel.replay_mono step start accepted
  exact ⟨final', accepted'⟩

/-- What the checker reads is linearizable. -/
theorem Inv.linearizable (inv : Inv s bs p) : ∃ order, LinearizedBy crModel (shown p) order := by
  obtain ⟨requests, lines, seen⟩ := inv
  obtain ⟨cs, t, matched, -, same⟩ := (chainSimulation T.chain).run requests.run
  have lin : LinearizedBy mapModel (T.chain.history bs) t.order := by
    rw [Chain.history, ← same]
    exact atomic_linearizable matched
  have names : ∀ id, Nat.pred (Nat.succ id) = id := Nat.pred_succ
  by_cases returned : ∃ output, Event.ret 0 output ∈ T.chain.history bs
  · obtain ⟨output, returned⟩ := returned
    obtain ⟨op, inOrder, zero, -⟩ := lin.completed 0 output returned
    have others : ∀ y ∈ t.order, y ≠ op → ∃ k, y.id = k + 1 := by
      intro y member other
      refine Nat.exists_eq_succ_of_ne_zero fun isZero => other ?_
      exact List.inj_on_of_nodup_map lin.nodup member inOrder (isZero.trans zero.symm)
    obtain ⟨rest, isOrder⟩ := exists_eq_cons lin.nodup.of_map inOrder fun y member other => by
      obtain ⟨k, isSucc⟩ := others y member other
      have called := lin.called y member
      rw [isSucc] at called
      refine lin.realTime op inOrder y member firstSet y.input ?_
      rw [zero, isSucc]
      exact seen.first k y.input called
    have distinct := lin.nodup
    obtain ⟨final, accepted⟩ := lin.legal
    rw [isOrder] at lin distinct accepted
    have isFirst : op.input = firstSet := by
      obtain ⟨call, there, input⟩ :=
        (mem_history_call_iff requests.run _ _).mp (lin.called op List.mem_cons_self)
      rw [zero] at there
      rw [← input, requests.first there]
      rfl
    refine ⟨rest.map (Operation.rename Nat.pred), LinearizedBy.widen
      (show LinearizedBy mapModel _ ([op] ++ rest) from lin) seen.widens ?_ names ?_
      (crModel_of_first isFirst accepted)⟩
    · intro y member
      have absent := (List.nodup_cons.mp distinct).1
      obtain ⟨k, isSucc⟩ := others y (isOrder ▸ List.mem_cons_of_mem op member) fun equal =>
        absent (equal ▸ List.mem_map_of_mem member)
      rw [isSucc]
      rfl
    · intro y member id
      rw [List.mem_singleton.mp member, zero]
      exact (Nat.succ_ne_zero id).symm
  · -- nothing but the first SET has been called
    rw [← List.append_nil t.order] at lin
    refine ⟨_, lin.widen (N := crModel) seen.widens (fun y member => by cases member) names ?_
      ⟨_, rfl⟩⟩
    intro y member id isSucc
    have called := lin.called y (List.mem_append_left _ member)
    rw [isSucc] at called
    exact returned ⟨firstSet, (seen.first id y.input called).mem_left⟩

/-- No getter ever fails its assertion, whatever the order in which the threads and the servers
move; and in every state the checker reads from the file a history that is linearizable. It is
complete when no thread is in a call. -/
theorem log_linearizable (few : T.clients.card ≤ T.chain.poolSz) (run : T.system.Run as s)
    {open_ : String → Option (List UInt8)} {filename : String}
    (opened : open_ filename = some s.file) (fits : Fits s.file) :
    (∀ t, (s.workers t).place ≠ .failed) ∧
    ∃ events order, parseLog open_ filename = some events ∧
      LinearizedBy crModel (events.map LogEvent.event) order ∧
      ((∀ t, (s.workers t).place = .ready) →
        ∀ id input, Event.call id input ∈ events.map LogEvent.event →
          ∃ output, Event.ret id output ∈ events.map LogEvent.event) := by
  obtain ⟨bs, p, inv⟩ := inv_run few run
  obtain ⟨order, lin⟩ := inv.linearizable
  have isLog : rawLines s.file = s.log :=
    rawLines_flatMap fun line member => (inv.lines.plain line member).1
  have kept : s.log.map dropCR = s.log :=
    (List.map_congr_left fun line member => (inv.lines.plain line member).2).trans (List.map_id _)
  refine ⟨fun t failed => ?_, p.events, order, ?_, lin, fun ready id input member => ?_⟩
  · have known := inv.requests.workers t
    cases here : s.workers t with
    | mk i place =>
      rw [here] at known failed
      cases failed
      exact known
  · rw [parseLog_eq opened, scan_of_fits fits, isLog, kept, inv.lines.parsed, Option.map_some]
  · rcases inv.lines.pending id input member with returned | ⟨t, ticket⟩
    · exact returned
    · have isReady := ready t
      cases here : s.workers t with
      | mk i place =>
        rw [here] at isReady ticket
        cases isReady
        cases ticket

/-! ### `test_gen_history` -/

/-- The two threads, and the cluster. The first thread has the client of the main thread. -/
def genHistory : Test where
  chain := crCluster
  client1 := 0
  count := 2
  workers t :=
    { role := if t.val = 0 then .setter else .getter, client := t.val, iters := 10,
      number := t.val }
  clientsInj _ _ same := Fin.ext same
  numbersInj _ _ same := Fin.ext same
  inRange t := t.isLt.le.trans (by decide)

/-- The SET of the main thread, both threads call, and the getter gets its reply. -/
def firstGet : List (Action genHistory) :=
  let time : Time := ⟨⟨16, by decide⟩, ⟨37, by decide⟩, ⟨2, by decide⟩⟩
  let setter : Fin 2 := ⟨0, Nat.zero_lt_two⟩
  let getter : Fin 2 := ⟨1, Nat.one_lt_two⟩
  [.set, .chain (.assign 0), .chain (.forward 0 0), .chain (.assign 0), .chain (.forward 0 0),
    .chain (.assign 0), .chain (.forward 0 0), .chain (.assign 0), .chain (.finish 0),
    .chain (.receive 0), .chain (.receive 0), .chain (.receive 0), .chain (.respond 0), .start,
    .logCall setter time, .logCall getter time, .send getter, .chain (.lookup 2),
    .chain (.respond 2), .logReturn getter time]

theorem log_linearizable_firstGet :
    ∃ s : State genHistory, genHistory.system.Run firstGet s ∧
      s.file = ascii ("16:37:02 INFO worker_0 Setting key = 0\n" ++
        "16:37:02 INFO worker_1 Getting key\n" ++ "16:37:02 INFO worker_1 Get key = 0\n") ∧
      ∃ events order, parseLog (fun _ => some s.file) "client.log" = some events ∧
        LinearizedBy crModel (events.map LogEvent.event) order := by
  have goes : (genHistory.system.runFrom genHistory.system.init firstGet).any (fun s =>
      s.file == ascii ("16:37:02 INFO worker_0 Setting key = 0\n" ++
        "16:37:02 INFO worker_1 Getting key\n" ++ "16:37:02 INFO worker_1 Get key = 0\n")) =
      true := by decide +kernel
  obtain ⟨s, run, isFile⟩ := (Option.any_eq_true _ _).mp goes
  have file := beq_iff_eq.mp isFile
  have fits : Fits s.file := by
    unfold Fits
    rw [file]
    decide +kernel
  have few : genHistory.clients.card ≤ genHistory.chain.poolSz := by decide
  have reads : ∃ events order, parseLog (fun _ => some s.file) "client.log" = some events ∧
      LinearizedBy crModel (events.map LogEvent.event) order ∧ _ :=
    (log_linearizable few run rfl fits).2
  obtain ⟨events, order, parsed, lin, -⟩ := reads
  exact ⟨s, run, file, events, order, parsed, lin⟩

end Runs

end Cr.Test

end Col733.Lab3

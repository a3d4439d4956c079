import Col733.Lab3.Cr.TestLog
import Col733.Misc.Counter
import Col733.Misc.Progress
import Mathlib.Algebra.Order.BigOperators.Group.Finset

/-!
# The test comes to its end

Every action of a test, of its threads or of the servers, takes one of a number of actions that
is known in advance, and as long as a thread has iterations left some action is possible. So
`join` returns, and the file has a line for every call and for every return.
-/

namespace Col733.Lab3.Cr.Test

variable {T : Test} {s s' : State T} {a : Action T} {as : List (Action T)}

/-- The actions of an iteration: it logs the call, sends the request, logs the return, and takes
three actions of each server. -/
def perIteration (c : Chain) : Nat := 3 * c.len + 3

/-- How many actions a thread takes at most from its place on. -/
def WorkerState.ahead (c : Chain) (chain : Cr.State) (iters : Nat) : WorkerState → Nat
  | ⟨i, .ready⟩ => (iters - i) * perIteration c
  | ⟨i, .logged _⟩ => (iters - (i + 1)) * perIteration c + (3 * c.len + 2)
  | ⟨i, .waiting k⟩ => (iters - (i + 1)) * perIteration c + (chain.ahead c (k + 1) + 1)
  | ⟨_, .failed⟩ => 0

/-- The same for the main thread. -/
def Main.ahead (c : Chain) (chain : Cr.State) : Main → Nat
  | .start => 3 * c.len + 2
  | .setting => chain.ahead c 0 + 1
  | .started => 0

def threadsAhead (T : Test) (chain : Cr.State) (workers : Fin T.count → WorkerState) : Nat :=
  ∑ t, (workers t).ahead T.chain chain (T.workers t).iters

def State.ahead (s : State T) : Nat :=
  s.main.ahead T.chain s.chain + threadsAhead T s.chain s.workers

/-- The actions of the whole test. -/
def work (T : Test) : Nat :=
  3 * T.chain.len + 2 + ∑ t, (T.workers t).iters * perIteration T.chain

/-- The threads have ended. -/
def State.Done (s : State T) : Prop :=
  s.main = .started ∧ ∀ t, s.workers t = ⟨(T.workers t).iters, .ready⟩

section Ahead

variable {c : Chain} {chain chain' : Cr.State} {workers : Fin T.count → WorkerState}

theorem WorkerState.ahead_mono (less : ∀ id, chain'.ahead c id ≤ chain.ahead c id) (iters : Nat)
    (st : WorkerState) : st.ahead c chain' iters ≤ st.ahead c chain iters := by
  obtain ⟨i, place⟩ := st
  cases place with
  | waiting k => exact Nat.add_le_add_left (Nat.succ_le_succ (less (k + 1))) _
  | ready | logged | failed => exact Nat.le_refl _

theorem Main.ahead_mono (less : ∀ id, chain'.ahead c id ≤ chain.ahead c id) (main : Main) :
    main.ahead c chain' ≤ main.ahead c chain := by
  cases main with
  | setting => exact Nat.succ_le_succ (less 0)
  | start | started => exact Nat.le_refl _

/-- No action of the chain gives a thread more to do. -/
theorem threadsAhead_mono (less : ∀ id, chain'.ahead T.chain id ≤ chain.ahead T.chain id)
    (workers : Fin T.count → WorkerState) :
    threadsAhead T chain' workers ≤ threadsAhead T chain workers :=
  Finset.sum_le_sum fun t _ => (workers t).ahead_mono less (T.workers t).iters

/-- A thread that moves gives one of its actions away. -/
theorem threadsAhead_update {t : Fin T.count} {st : WorkerState}
    (less : st.ahead T.chain chain (T.workers t).iters + 1 ≤
      (workers t).ahead T.chain chain (T.workers t).iters) :
    threadsAhead T chain (Function.update workers t st) + 1 ≤ threadsAhead T chain workers := by
  have total := natSum_update
    (fun t (st : WorkerState) => st.ahead T.chain chain (T.workers t).iters) workers t st
  unfold threadsAhead
  omega

theorem perIteration_mul {iters i : Nat} (more : i < iters) :
    (iters - i) * perIteration c = (iters - (i + 1)) * perIteration c + (3 * c.len + 3) := by
  rw [show iters - i = iters - (i + 1) + 1 by omega, Nat.succ_mul, perIteration]

/-- An action of the chain that sends nothing carries on a request that waits. -/
theorem exists_carried {a : Cr.Action} (isInternal : internal a = true)
    (step : c.step chain a = some chain') :
    ∃ id call, a.carries id = true ∧ chain.calls id = some call ∧ call.waiting = true := by
  cases Chain.moves_of_step step with
  | invoke => cases isInternal
  | assign id _ _ _ _ _ at_ | forward id _ _ _ _ _ at_ | forwardEof id _ _ _ _ _ at_
  | forwardRaises id _ _ _ _ _ at_ | exhausted id _ _ _ _ at_ | finish id _ _ _ _ at_
  | lookup id _ _ _ _ at_ | receive id _ _ _ _ _ _ at_ | receiveEof id _ _ _ _ _ at_
  | respond id _ _ _ _ at_ | respondEof id _ _ _ at_ =>
    exact ⟨id, _, beq_self_eq_true id, at_, rfl⟩

end Ahead

section Counts

/-- The iterations of a thread are not more than it is to do. -/
def WorkerState.Within (iters : Nat) : WorkerState → Prop
  | ⟨i, .ready⟩ => i ≤ iters
  | ⟨i, .logged _⟩ | ⟨i, .waiting _⟩ => i < iters
  | ⟨_, .failed⟩ => True

/-- The lines that a thread has logged. -/
def WorkerState.lines : WorkerState → Nat
  | ⟨i, .ready⟩ => 2 * i
  | ⟨i, .logged _⟩ | ⟨i, .waiting _⟩ | ⟨i, .failed⟩ => 2 * i + 1

/-- Nothing else is logged. -/
structure Counted (s : State T) : Prop where
  within : ∀ t, (s.workers t).Within (T.workers t).iters
  lines : s.log.length = ∑ t, (s.workers t).lines

theorem counted_init (T : Test) : Counted T.system.init where
  within _ := Nat.zero_le _
  lines := by
    show 0 = ∑ _, 0
    rw [Finset.sum_const_zero]

/-- One thread moves, and logs as many lines as its place says. -/
theorem Counted.update (counted : Counted s) {t : Fin T.count} {st : WorkerState}
    (workers : s'.workers = Function.update s.workers t st) (within : st.Within (T.workers t).iters)
    (log : s'.log.length + (s.workers t).lines = s.log.length + st.lines) : Counted s' where
  within := by
    rw [workers]
    exact System.holds_update
      (P := fun t (st : WorkerState) => st.Within (T.workers t).iters) counted.within within
  lines := by
    have total := natSum_update (fun _ (st : WorkerState) => st.lines) s.workers t st
    have before := counted.lines
    rw [workers]
    omega

theorem Counted.step (counted : Counted s) (step : T.step s a = some s') : Counted s' := by
  cases moves_of_step step with
  | set | start | chain => exact ⟨counted.within, counted.lines⟩
  | logCall t time i main here more =>
    refine counted.update rfl more ?_
    rw [here, List.length_append]
    show s.log.length + 1 + 2 * i = s.log.length + (2 * i + 1)
    omega
  | send t i k chain here sent =>
    have within := counted.within t
    rw [here] at within
    refine counted.update rfl within ?_
    rw [here]
    rfl
  | logReturn t time i k client req reply socks message here at_ returned =>
    have within := counted.within t
    rw [here] at within
    refine counted.update rfl within ?_
    rw [here, List.length_append]
    show s.log.length + 1 + (2 * i + 1) = s.log.length + 2 * (i + 1)
    omega
  | fail t time i k client req reply socks here at_ raised =>
    refine counted.update rfl trivial ?_
    rw [here]
    rfl

end Counts

/-- What holds along a run, of the requests, the file and the counts. -/
def Reached (s : State T) : Prop := (∃ bs p, Inv s bs p) ∧ Counted s

theorem Reached.step (few : T.clients.card ≤ T.chain.poolSz) (reached : Reached s)
    (step : T.step s a = some s') : Reached s' := by
  obtain ⟨⟨bs, p, inv⟩, counted⟩ := reached
  exact ⟨inv.step few step, counted.step step⟩

/-- Every action is one of those ahead. -/
theorem Reached.falls (reached : Reached s) (step : T.step s a = some s') :
    s'.ahead + 1 ≤ s.ahead := by
  obtain ⟨⟨bs, p, inv⟩, -⟩ := reached
  have chainInv := chainInv_run inv.requests.run
  have less : ∀ {b chain'}, T.chain.step s.chain b = some chain' →
      ∀ id, chain'.ahead T.chain id ≤ s.chain.ahead T.chain id := fun moved id =>
    (Nat.le_add_right _ _).trans (ahead_step chainInv moved)
  unfold State.ahead
  cases moves_of_step step with
  | set chain main sent =>
    have workers := threadsAhead_mono (less sent) s.workers
    have first : chain.ahead T.chain 0 ≤ 3 * T.chain.len := by
      refine (less sent 0).trans_eq ?_
      rw [Cr.State.ahead, (step_invoke sent).1, Option.elim_none]
    rw [main]
    show chain.ahead T.chain 0 + 1 + threadsAhead T chain s.workers + 1 ≤
      3 * T.chain.len + 2 + threadsAhead T s.chain s.workers
    omega
  | start client req reply socks main at_ =>
    rw [main]
    show 0 + threadsAhead T s.chain s.workers + 1 ≤
      s.chain.ahead T.chain 0 + 1 + threadsAhead T s.chain s.workers
    omega
  | logCall t time i main here more =>
    refine Nat.add_le_add_left (threadsAhead_update ?_) _
    rw [here]
    show _ + (3 * T.chain.len + 2) + 1 ≤ (_ - i) * perIteration T.chain
    rw [perIteration_mul more]
    omega
  | send t i k chain here sent =>
    have workers := threadsAhead_mono (less sent) (Function.update s.workers t ⟨i, .waiting k⟩)
    have main := s.main.ahead_mono (less sent)
    have moved : threadsAhead T s.chain (Function.update s.workers t ⟨i, .waiting k⟩) + 1 ≤
        threadsAhead T s.chain s.workers := by
      refine threadsAhead_update ?_
      rw [here, WorkerState.ahead, WorkerState.ahead, Cr.State.ahead, (step_invoke sent).1,
        Option.elim_none]
      omega
    show s.main.ahead T.chain chain +
      threadsAhead T chain (Function.update s.workers t ⟨i, .waiting k⟩) + 1 ≤ _
    omega
  | logReturn t time i k client req reply socks message here at_ returned =>
    refine Nat.add_le_add_left (threadsAhead_update ?_) _
    rw [here]
    exact Nat.add_le_add_left (Nat.le_add_left 1 _) _
  | fail t time i k client req reply socks here at_ raised =>
    refine Nat.add_le_add_left (threadsAhead_update ?_) _
    rw [here]
    exact (Nat.le_add_left 1 _).trans (Nat.le_add_left _ _)
  | chain b chain isInternal moved =>
    obtain ⟨id, call, carries, at_, waits⟩ := exists_carried isInternal moved
    have falls : chain.ahead T.chain id + (b.carries id).toNat ≤ s.chain.ahead T.chain id :=
      ahead_step chainInv moved
    rw [carries, Bool.toNat_true] at falls
    have main := s.main.ahead_mono (less moved)
    have workers := threadsAhead_mono (less moved) s.workers
    show s.main.ahead T.chain chain + threadsAhead T chain s.workers + 1 ≤ _
    rcases inv.requests.owned id call at_ waits with ⟨rfl, setting⟩ | ⟨t, i, k, here, rfl⟩
    · rw [setting] at main ⊢
      have own : Main.setting.ahead T.chain chain + 1 ≤ Main.setting.ahead T.chain s.chain :=
        Nat.succ_le_succ falls
      omega
    · have strict : threadsAhead T chain s.workers < threadsAhead T s.chain s.workers :=
        Finset.sum_lt_sum
        (fun t' _ => (s.workers t').ahead_mono (less moved) (T.workers t').iters)
        ⟨t, Finset.mem_univ t, by
          rw [here]
          exact Nat.add_lt_add_left (Nat.succ_lt_succ falls) _⟩
      omega

/-- As long as the reply to a request has not been read, something moves at the chain. -/
theorem Reached.chain_moves {id client : Nat} {req : Request} (few : T.clients.card ≤ T.chain.poolSz)
    (reached : Reached s) (made : s.chain.Made id client req) :
    (∃ reply socks, s.chain.calls id = some ⟨client, req, .answered reply, socks⟩) ∨
      ∃ a, (T.step s a).isSome = true := by
  obtain ⟨⟨bs, p, inv⟩, -⟩ := reached
  obtain ⟨phase, socks, at_⟩ := made
  have healthy := (fewInv_run inv.requests.run inv.requests.met few).healthy id _ at_
  cases ended : phase.over with
  | true =>
    cases phase with
    | answered reply => exact .inl ⟨reply, socks, at_⟩
    | unanswered i => exact absurd rfl (healthy.heard i)
    | sent | assigned | replied | closed => cases ended
  | false =>
    obtain ⟨b, carries, enabled⟩ := exists_carrying (chainInv_run inv.requests.run) at_ ended
    have isInternal : internal b = true := by
      cases b with
      | invoke => cases carries
      | assign | forward | forwardDead | exhausted | finish | lookup | receive | respond => rfl
    obtain ⟨chain, moved⟩ := Option.isSome_iff_exists.mp enabled
    exact .inr ⟨.chain b, by
      simp only [Test.step, isInternal, if_true, moved, Option.map_some, Option.isSome_some]⟩

/-- As long as the threads have not ended, something moves. -/
theorem Reached.moves (few : T.clients.card ≤ T.chain.poolSz) (reached : Reached s)
    (open_ : ¬ s.Done) : ∃ a s', T.step s a = some s' := by
  suffices enabled : ∃ a, (T.step s a).isSome = true by
    obtain ⟨a, isSome⟩ := enabled
    exact ⟨a, Option.isSome_iff_exists.mp isSome⟩
  obtain ⟨bs, p, inv⟩ := reached.1
  have known := inv.requests.main
  cases main : s.main with
  | start =>
    rw [main] at known
    have sent := invoke_enabled (c := T.chain) T.client1 (.set "key" "0") (known.2 0)
    exact ⟨.set, by simp only [Test.step, main, sent, Option.map_some, Option.isSome_some]⟩
  | setting =>
    rw [main] at known
    rcases reached.chain_moves few known.2 with ⟨reply, socks, at_⟩ | moves
    · exact ⟨.start, by simp only [Test.step, main, at_, Option.isSome_some]⟩
    · exact moves
  | started =>
    have unfinished : ∃ t, s.workers t ≠ ⟨(T.workers t).iters, .ready⟩ := by
      by_contra none_
      exact open_ ⟨main, fun t => by_contra fun other => none_ ⟨t, other⟩⟩
    obtain ⟨t, other⟩ := unfinished
    have within := reached.2.within t
    have thread := inv.requests.workers t
    let time : Time := ⟨⟨0, by decide⟩, ⟨0, by decide⟩, ⟨0, by decide⟩⟩
    cases here : s.workers t with
    | mk i place =>
      rw [here] at other within thread
      cases place with
      | ready =>
        have more : i < (T.workers t).iters := by
          refine Nat.lt_of_le_of_ne within fun same => other ?_
          rw [same]
        exact ⟨.logCall t time, by
          simp only [Test.step, main, here, more, if_true, Option.isSome_some]⟩
      | logged k =>
        have sent := invoke_enabled (c := T.chain) (T.workers t).client ((T.workers t).request i)
          thread
        exact ⟨.send t, by
          simp only [Test.step, here, sent, Option.map_some, Option.isSome_some]⟩
      | waiting k =>
        rcases reached.chain_moves few thread with ⟨reply, socks, at_⟩ | moves
        · refine ⟨.logReturn t time, ?_⟩
          cases called : (T.workers t).called i reply with
          | some message => simp only [Test.step, here, at_, called, Option.isSome_some]
          | none => simp only [Test.step, here, at_, called, Option.isSome_some]
        · exact moves
      | failed => exact thread.elim

/-- The actions ahead, as a potential of the test. -/
def testPotential (T : Test) : System.Potential T.system Reached fun _ => true where
  value := State.ahead
  falls reached step := reached.falls step

theorem reached_run (few : T.clients.card ≤ T.chain.poolSz) (run : T.system.Run as s) :
    Reached s :=
  System.run_invariant (P := Reached) ⟨⟨[], ParseState.start, inv_init T⟩, counted_init T⟩
    (fun _ _ _ reached step => reached.step few step) run

/-- No run of a test is longer than the number of actions that is computed from the chain and
from the iterations, it stops only where all threads have ended, and it can get there from
everywhere; then every call and every return has its line in the file. -/
theorem test_ends (few : T.clients.card ≤ T.chain.poolSz) (run : T.system.Run as s) :
    as.length ≤ T.work ∧
    ((∀ a, T.step s a = none) → s.Done) ∧
    (s.Done → s.log.length = ∑ t, 2 * (T.workers t).iters) ∧
    ∃ bs s', as.length + bs.length ≤ T.work ∧ T.system.Run (as ++ bs) s' ∧ s'.Done := by
  have reached := reached_run few run
  have kept : ∀ {s a s'}, Reached s → T.system.step s a = some s' → Reached s' :=
    fun reached step => reached.step few step
  have spent := (testPotential T).countP_le kept
    ⟨⟨[], ParseState.start, inv_init T⟩, counted_init T⟩ run
  have all : as.countP (fun _ => true) = as.length := congrFun List.countP_true as
  have first : (testPotential T).value T.system.init = T.work := rfl
  rw [all, first] at spent
  refine ⟨(Nat.le_add_right _ _).trans spent, fun stuck => ?_, fun done => ?_, ?_⟩
  · by_contra open_
    obtain ⟨a, s', step⟩ := reached.moves few open_
    rw [stuck a] at step
    cases step
  · rw [reached.2.lines]
    exact Finset.sum_congr rfl fun t _ => by rw [done.2 t]; rfl
  · obtain ⟨bs, s', short, -, moved, -, done⟩ := (testPotential T).finishes
      (fun reached _ step => kept reached step)
      (fun s reached open_ => by
        obtain ⟨a, s', step⟩ := reached.moves few open_
        exact ⟨a, s', rfl, step⟩) reached
    refine ⟨bs, s', by omega, ?_, done⟩
    rw [System.Run, System.runFrom_append,
      show T.system.runFrom T.system.init as = some s from run]
    exact moved

/-- The two threads of `test_gen_history` take at most 314 actions, after which the file has 40
lines. -/
theorem test_ends_genHistory :
    ∃ s : State genHistory, genHistory.system.Run firstGet s ∧
      ∃ bs s', 20 + bs.length ≤ 314 ∧ genHistory.system.Run (firstGet ++ bs) s' ∧
        s'.log.length = 40 := by
  have some_ : (genHistory.system.runFrom genHistory.system.init firstGet).isSome = true := by
    decide +kernel
  obtain ⟨s, run⟩ := Option.isSome_iff_exists.mp some_
  have few : genHistory.clients.card ≤ genHistory.chain.poolSz := by decide
  have work : genHistory.work = 314 := by decide +kernel
  obtain ⟨-, -, -, bs, s', short, extended, done⟩ := test_ends few run
  rw [work] at short
  have lines := (test_ends few extended).2.2.1 done
  exact ⟨s, run, bs, s', short, extended, lines⟩

end Col733.Lab3.Cr.Test

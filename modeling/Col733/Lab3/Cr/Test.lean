import Col733.Lab3.Cr.Calls
import Col733.Lab3.History

/-!
# `cr_test.py`: the client log of a test

The threads of `test_gen_history` and of `test_throughput`: setters, which set the key to the
number of each iteration, and getters. A thread logs what it is going to do, calls its client,
and logs what has been done; a getter asserts before that its call has been a success. The main
thread sets the key before it starts them, and does not log this.

The threads run side by side, with the handlers of the servers, and the file has the lines in
the order in which they were logged.
-/

namespace Col733.Lab3

/-! ## Numbers in the log -/

theorem ascii_append (s t : String) : ascii (s ++ t) = ascii s ++ ascii t := by
  rw [ascii, String.toList_append, List.map_append, ascii, ascii]

theorem asString_ascii {s : String} (bytes : ∀ c ∈ s.toList, c.toNat < 256) :
    asString (ascii s) = s := by
  have back : ∀ c ∈ s.toList, Char.ofNat c.toNat.toUInt8.toNat = c := by
    intro c member
    rw [Nat.toUInt8, UInt8.toNat_ofNat_of_lt' (bytes c member), Char.ofNat_toNat]
  have whole : (ascii s).map (fun b => Char.ofNat b.toNat) = s.toList := by
    rw [ascii, List.map_map]
    exact (List.map_congr_left back).trans (List.map_id _)
  rw [asString, whole, String.ofList_toList]

namespace ClientLog

/-- The characters of a number. -/
theorem isDigit_of_mem {n : Nat} {c : Char} (member : c ∈ (toString n).toList) :
    48 ≤ c.toNat ∧ c.toNat ≤ 57 := by
  rw [Nat.toString_eq_repr, Nat.toList_repr] at member
  have isDigit := Nat.isDigit_of_mem_toDigits (by omega) (by omega) member
  rw [Char.isDigit, Bool.and_eq_true, decide_eq_true_eq, decide_eq_true_eq] at isDigit
  exact isDigit

/-- A number, as it is written. -/
def Digits.ofNat (n : Nat) : Digits where
  bytes := ascii (toString n)
  nonempty := by
    rw [ascii, Nat.toString_eq_repr, Nat.toList_repr]
    exact mt List.map_eq_nil_iff.mp Nat.toDigits_ne_nil
  all b member := by
    obtain ⟨c, inText, rfl⟩ := List.mem_map.mp member
    obtain ⟨low, high⟩ := isDigit_of_mem inText
    have small : c.toNat < 256 := by omega
    have same : c.toNat.toUInt8.toNat = c.toNat := UInt8.toNat_ofNat_of_lt' small
    rw [digit, decide_eq_true_eq, UInt8.le_iff_toNat_le, UInt8.le_iff_toNat_le, same]
    exact ⟨low, high⟩

theorem Digits.asString_ofNat (n : Nat) : asString (Digits.ofNat n).bytes = toString n :=
  asString_ascii fun _ member => lt_of_le_of_lt (isDigit_of_mem member).2 (by decide)

/-- The number that is read is the number that was written. -/
theorem decimal_ofNat (n : Nat) : decimal (Digits.ofNat n).bytes = n := by
  have read : ∀ (cs : List Char) (start : Nat), (∀ c ∈ cs, c.toNat < 256) →
      (cs.map fun c => c.toNat.toUInt8).foldl (fun n b => 10 * n + (b.toNat - 48)) start =
        Nat.ofDigitChars 10 cs start := by
    intro cs
    induction cs with
    | nil => intro start _; rfl
    | cons c cs ih =>
      intro start small
      have same : c.toNat.toUInt8.toNat = c.toNat :=
        UInt8.toNat_ofNat_of_lt' (small c List.mem_cons_self)
      rw [List.map_cons, List.foldl_cons, same, ih _ fun d member =>
        small d (List.mem_cons_of_mem c member)]
      exact Nat.ofDigitChars_cons.symm
  have small : ∀ c ∈ (toString n).toList, c.toNat < 256 := fun _ member =>
    lt_of_le_of_lt (isDigit_of_mem member).2 (by decide)
  refine (read _ 0 small).trans ?_
  rw [Nat.toString_eq_repr, Nat.toList_repr, Nat.ofDigitChars_ten_toDigits]

end ClientLog


/-! ## The threads -/

namespace Cr

open ClientLog

/-- The function that a thread runs. -/
inductive Role where
  | setter
  | getter
  deriving DecidableEq, Repr

/-- A thread: what it runs, and the arguments `c`, `iters` and `name`, which is `worker_` and
a number. -/
structure Worker where
  role : Role
  client : Nat
  iters : Nat
  number : Nat

namespace Worker

/-- What the client is asked in the iteration `i`. -/
def request (w : Worker) (i : Nat) : Request :=
  match w.role with
  | .setter => .set "key" (toString i)
  | .getter => .get "key"

/-- The message before the call. -/
def calling (w : Worker) (i : Nat) : String :=
  match w.role with
  | .setter => "Setting key = " ++ toString i
  | .getter => "Getting key"

/-- The message after it. A setter does not look at what `set` returns, a getter asserts that
`get` has returned `True`; `none` when it raises. -/
def called (w : Worker) (i : Nat) (reply : Reply) : Option String :=
  match w.role with
  | .setter => some ("Set key = " ++ toString i)
  | .getter => if reply.status = "OK" then reply.val.map fun val => "Get key = " ++ val else none

def name (w : Worker) : String := "worker_" ++ toString w.number

/-- The message after a call in which the client has set or got the number `n`. -/
def returning (w : Worker) (n : Nat) : String :=
  match w.role with
  | .setter => "Set key = " ++ toString n
  | .getter => "Get key = " ++ toString n

/-- The output that the checker finds in it. -/
def output (w : Worker) (n : Nat) : CrInputOutput where
  op := decide (w.role = .setter)
  key := "key"
  value := toString n

end Worker

/-- The time of a line, `HH:mm:ss`. -/
structure Time where
  hour : Fin 24
  minute : Fin 60
  second : Fin 60

/-- Two digits. -/
def twoDigits (n : Nat) : String := toString (n / 10 % 10) ++ toString (n % 10)

def Time.text (t : Time) : String :=
  twoDigits t.hour.val ++ ":" ++ twoDigits t.minute.val ++ ":" ++ twoDigits t.second.val

/-- A line of the client log, in the format of `core/logger.py`. -/
def clientLine (time : Time) (w : Worker) (message : String) : List UInt8 :=
  ascii (time.text ++ " INFO " ++ w.name ++ " " ++ message)

/-- A test: the chain, the client of the main thread, and the threads. Each has a client and a
name of its own, the main thread's client apart, and the numbers in the names are `int`s. -/
structure Test where
  chain : Chain
  client1 : Nat
  count : Nat
  workers : Fin count → Worker
  clientsInj : Function.Injective fun t => (workers t).client
  numbersInj : Function.Injective fun t => (workers t).number
  inRange : ∀ t, (workers t).number ≤ 9223372036854775807

namespace Test

/-- The clients that `connect` has returned. -/
def clients (T : Test) : Finset Nat :=
  insert T.client1 (Finset.univ.image fun t => (T.workers t).client)

/-- How far the main thread is: it has not called `set`, it waits for the reply, or it has
started the threads. -/
inductive Main where
  | start
  | setting
  | started
  deriving DecidableEq, Repr

/-- Where a thread is in an iteration. The calls that are logged are numbered. -/
inductive Place where
  /-- At the beginning; or at the end, when there are no more iterations. -/
  | ready
  /-- It has logged the call. -/
  | logged (call : Nat)
  /-- Its client waits for the reply. -/
  | waiting (call : Nat)
  /-- It has raised. -/
  | failed
  deriving DecidableEq, Repr

structure WorkerState where
  i : Nat := 0
  place : Place := .ready
  deriving DecidableEq, Repr

/-- `calls` is the number of calls that have been logged, and `log` are the lines of the file.
The request of the main thread is that with the number 0 at the chain, the others follow. -/
structure State (T : Test) where
  chain : Cr.State
  main : Main
  workers : Fin T.count → WorkerState
  calls : Nat
  log : List (List UInt8)

/-- The file. -/
def State.file {T : Test} (s : State T) : List UInt8 := s.log.flatMap fun line => line ++ [newline]

inductive Action (T : Test) where
  /-- The main thread calls `client1.set("key", "0")`. -/
  | set
  /-- The call has returned, and it starts the threads. -/
  | start
  /-- A thread logs the call. -/
  | logCall (t : Fin T.count) (time : Time)
  /-- Its client sends the request. -/
  | send (t : Fin T.count)
  /-- The client returns, and the thread logs this, or raises. -/
  | logReturn (t : Fin T.count) (time : Time)
  /-- A handler moves, or a client reads its reply. -/
  | chain (a : Cr.Action)

variable (T : Test)

/-- A thread moves. -/
def State.move {T : Test} (s : State T) (t : Fin T.count) (i : Nat) (place : Place) : State T :=
  { s with workers := Function.update s.workers t ⟨i, place⟩ }

/-- One action of a thread, of a client, or of a handler. -/
def step (s : State T) : Action T → Option (State T)
  | .set =>
    match s.main with
    | .start =>
      (T.chain.step s.chain (.invoke 0 T.client1 (.set "key" "0"))).map fun chain =>
        { s with chain := chain, main := .setting }
    | _ => none
  | .start =>
    match s.main, s.chain.calls 0 with
    | .setting, some ⟨_, _, .answered _, _⟩ => some { s with main := .started }
    | _, _ => none
  | .logCall t time =>
    match s.main, s.workers t with
    | .started, ⟨i, .ready⟩ =>
      if i < (T.workers t).iters then
        some { s.move t i (.logged s.calls) with
          calls := s.calls + 1
          log := s.log ++ [clientLine time (T.workers t) ((T.workers t).calling i)] }
      else none
    | _, _ => none
  | .send t =>
    match s.workers t with
    | ⟨i, .logged k⟩ =>
      (T.chain.step s.chain (.invoke (k + 1) (T.workers t).client ((T.workers t).request i))).map
        fun chain => { s.move t i (.waiting k) with chain := chain }
    | _ => none
  | .logReturn t time =>
    match s.workers t with
    | ⟨i, .waiting k⟩ =>
      match s.chain.calls (k + 1) with
      | some ⟨_, _, .answered reply, _⟩ =>
        match (T.workers t).called i reply with
        | some message =>
          some { s.move t (i + 1) .ready with
            log := s.log ++ [clientLine time (T.workers t) message] }
        | none => some (s.move t i .failed)
      | _ => none
    | _ => none
  | .chain a =>
    if internal a then (T.chain.step s.chain a).map fun chain => { s with chain := chain }
    else none

/-- The test, after `setUp`, with an empty file. -/
def system : System (State T) (Action T) where
  init :=
    { chain := T.chain.system.init
      main := .start
      workers := fun _ => {}
      calls := 0
      log := [] }
  step := T.step

/-- What a step can be. -/
inductive Moves {T : Test} (s : State T) : Action T → State T → Prop
  | set (chain : Cr.State) (main : s.main = .start)
      (sent : T.chain.step s.chain (.invoke 0 T.client1 (.set "key" "0")) = some chain) :
      Moves s .set { s with chain := chain, main := .setting }
  | start (client : Nat) (req : Request) (reply : Reply) (socks : List Nat)
      (main : s.main = .setting)
      (at_ : s.chain.calls 0 = some ⟨client, req, .answered reply, socks⟩) :
      Moves s .start { s with main := .started }
  | logCall (t : Fin T.count) (time : Time) (i : Nat) (main : s.main = .started)
      (here : s.workers t = ⟨i, .ready⟩) (more : i < (T.workers t).iters) :
      Moves s (.logCall t time) { s.move t i (.logged s.calls) with
        calls := s.calls + 1
        log := s.log ++ [clientLine time (T.workers t) ((T.workers t).calling i)] }
  | send (t : Fin T.count) (i k : Nat) (chain : Cr.State) (here : s.workers t = ⟨i, .logged k⟩)
      (sent : T.chain.step s.chain
        (.invoke (k + 1) (T.workers t).client ((T.workers t).request i)) = some chain) :
      Moves s (.send t) { s.move t i (.waiting k) with chain := chain }
  | logReturn (t : Fin T.count) (time : Time) (i k client : Nat) (req : Request) (reply : Reply)
      (socks : List Nat) (message : String) (here : s.workers t = ⟨i, .waiting k⟩)
      (at_ : s.chain.calls (k + 1) = some ⟨client, req, .answered reply, socks⟩)
      (returned : (T.workers t).called i reply = some message) :
      Moves s (.logReturn t time) { s.move t (i + 1) .ready with
        log := s.log ++ [clientLine time (T.workers t) message] }
  | fail (t : Fin T.count) (time : Time) (i k client : Nat) (req : Request) (reply : Reply)
      (socks : List Nat) (here : s.workers t = ⟨i, .waiting k⟩)
      (at_ : s.chain.calls (k + 1) = some ⟨client, req, .answered reply, socks⟩)
      (raised : (T.workers t).called i reply = none) :
      Moves s (.logReturn t time) (s.move t i .failed)
  | chain (a : Cr.Action) (chain : Cr.State) (isInternal : internal a = true)
      (moved : T.chain.step s.chain a = some chain) : Moves s (.chain a) { s with chain := chain }

theorem moves_of_step {T : Test} {s s' : State T} {a : Action T} (step : T.step s a = some s') :
    Moves s a s' := by
  cases a with
  | set =>
    simp only [Test.step] at step
    split at step
    · obtain ⟨chain, sent, rfl⟩ := Option.map_eq_some_iff.mp step
      exact .set chain ‹_› sent
    · cases step
  | start =>
    simp only [Test.step] at step
    split at step
    · cases step
      exact .start _ _ _ _ ‹_› ‹_›
    · cases step
  | logCall t time =>
    simp only [Test.step] at step
    split at step
    · split at step
      · cases step
        exact .logCall t time _ ‹_› ‹_› ‹_›
      · cases step
    · cases step
  | send t =>
    simp only [Test.step] at step
    split at step
    · obtain ⟨chain, sent, rfl⟩ := Option.map_eq_some_iff.mp step
      exact .send t _ _ chain ‹_› sent
    · cases step
  | logReturn t time =>
    simp only [Test.step] at step
    split at step
    · split at step
      · split at step
        · cases step
          exact .logReturn t time _ _ _ _ _ _ _ ‹_› ‹_› ‹_›
        · cases step
          exact .fail t time _ _ _ _ _ _ ‹_› ‹_› ‹_›
      · cases step
    · cases step
  | chain a =>
    simp only [Test.step] at step
    split at step
    · obtain ⟨chain, moved, rfl⟩ := Option.map_eq_some_iff.mp step
      exact .chain a chain ‹_› moved
    · cases step

/-! ## The lines that are logged -/

/-- Characters of one byte that do not end a line. -/
def printable (s : String) : Bool :=
  s.toList.all fun c => decide (32 ≤ c.toNat) && decide (c.toNat < 256)

theorem printable_append {s t : String} (first : printable s = true) (second : printable t = true) :
    printable (s ++ t) = true := by
  rw [printable, String.toList_append, List.all_append, Bool.and_eq_true]
  exact ⟨first, second⟩

theorem printable_toString (n : Nat) : printable (toString n) = true := by
  refine List.all_eq_true.mpr fun c member => ?_
  obtain ⟨low, high⟩ := isDigit_of_mem member
  rw [Bool.and_eq_true, decide_eq_true_eq, decide_eq_true_eq]
  omega

theorem printable_time (time : Time) : printable time.text = true := by
  have number : ∀ n, printable (twoDigits n) = true := fun n =>
    printable_append (printable_toString _) (printable_toString _)
  exact printable_append (printable_append (printable_append (printable_append (number _) rfl)
    (number _)) rfl) (number _)

/-- No character of the line ends it. -/
theorem plain_clientLine (time : Time) (w : Worker) {message : String}
    (isPrintable : printable message = true) :
    newline ∉ clientLine time w message ∧
      dropCR (clientLine time w message) = clientLine time w message := by
  have whole : printable (time.text ++ " INFO " ++ w.name ++ " " ++ message) = true :=
    printable_append (printable_append (printable_append (printable_append (printable_time time)
      rfl) (printable_append rfl (printable_toString _))) rfl) isPrintable
  have large : ∀ b ∈ clientLine time w message, 32 ≤ b.toNat := by
    intro b member
    obtain ⟨c, inText, rfl⟩ := List.mem_map.mp member
    have both := List.all_eq_true.mp whole c inText
    rw [Bool.and_eq_true, decide_eq_true_eq, decide_eq_true_eq] at both
    rw [Nat.toUInt8, UInt8.toNat_ofNat_of_lt' both.2]
    exact both.1
  refine ⟨fun member => ?_, if_neg fun last => ?_⟩
  · exact absurd (large newline member) (by decide)
  · exact absurd (large carriageReturn (List.mem_of_getLast? last)) (by decide)

/-- What the log says of the sender. -/
def sender (time : Time) (w : Worker) : Sender where
  stamp := ascii (time.text ++ " ")
  plain := by
    have number : ∀ n : Nat, capitalI ∉ ascii (toString n) := fun n member => by
      cases (Digits.ofNat n).all capitalI member
    have two : ∀ n, capitalI ∉ ascii (twoDigits n) := fun n member => by
      rw [twoDigits, ascii_append] at member
      rcases List.mem_append.mp member with first | second
      · exact number _ first
      · exact number _ second
    have colon : capitalI ∉ ascii ":" := by decide
    have blank : capitalI ∉ ascii " " := by decide
    intro member
    simp only [Time.text, ascii_append, List.mem_append] at member
    rcases member with ((((member | member) | member) | member) | member) | member
    · exact two _ member
    · exact colon member
    · exact two _ member
    · exact colon member
    · exact two _ member
    · exact blank member
  number := Digits.ofNat w.number

theorem worker_sender (time : Time) (w : Worker) : (sender time w).worker = w.number :=
  decimal_ofNat w.number

/-- A line is one of the format that the checker reads. -/
theorem clientLine_eq (time : Time) (w : Worker) {verb : Verb} {message : String}
    {args : List UInt8} (split : ascii message = ascii verb.word ++ (ascii " " ++ args)) :
    clientLine time w message = logLine (sender time w) verb args := by
  have level : ascii " INFO " = ascii " " ++ (ascii "INFO" ++ ascii " ") := rfl
  rw [clientLine, Worker.name]
  simp only [ascii_append, level, split, List.append_assoc]
  simp only [logLine, sender, ascii_append, List.append_assoc]
  rfl

/-- The line of a call. -/
def callLine (time : Time) (w : Worker) (i : Nat) : Line :=
  match w.role with
  | .setter => .setting (sender time w) aKey (Digits.ofNat i)
  | .getter => .getting (sender time w) aKey

theorem text_callLine (time : Time) (w : Worker) (i : Nat) :
    clientLine time w (w.calling i) = (callLine time w i).text := by
  unfold Worker.calling callLine
  cases w.role with
  | setter => exact clientLine_eq time w (ascii_append _ _)
  | getter =>
    have split : ascii "Getting key" = ascii Verb.getting.word ++ (ascii " " ++ ascii "key") := rfl
    exact clientLine_eq time w split

theorem printable_calling (w : Worker) (i : Nat) : printable (w.calling i) = true := by
  unfold Worker.calling
  cases w.role with
  | setter => exact printable_append rfl (printable_toString i)
  | getter => exact show printable "Getting key" = true from rfl

theorem shown_callLine (time : Time) (w : Worker) (i : Nat) :
    (callLine time w i).shown? = some (w.number, .callEvent, (w.request i).input) := by
  unfold callLine Worker.request
  cases w.role with
  | setter =>
    show some ((sender time w).worker, _, (⟨true, "key", asString (Digits.ofNat i).bytes⟩ :
      CrInputOutput)) = _
    rw [worker_sender, Digits.asString_ofNat]
    rfl
  | getter =>
    show some ((sender time w).worker, _, _) = _
    rw [worker_sender]
    rfl

/-- The line of a return, where `n` is the number that the client has set or got. -/
def returnLine (time : Time) (w : Worker) (n : Nat) : Line :=
  match w.role with
  | .setter => .set (sender time w) aKey (Digits.ofNat n)
  | .getter => .get (sender time w) aKey (Digits.ofNat n)

theorem text_returnLine (time : Time) (w : Worker) (n : Nat) :
    clientLine time w (w.returning n) = (returnLine time w n).text := by
  unfold Worker.returning returnLine
  cases w.role with
  | setter => exact clientLine_eq time w (ascii_append _ _)
  | getter => exact clientLine_eq time w (ascii_append _ _)

theorem printable_returning (w : Worker) (n : Nat) : printable (w.returning n) = true := by
  unfold Worker.returning
  cases w.role with
  | setter => exact printable_append rfl (printable_toString n)
  | getter => exact printable_append rfl (printable_toString n)

theorem shown_returnLine (time : Time) (w : Worker) (n : Nat) :
    (returnLine time w n).shown? = some (w.number, .returnEvent, w.output n) := by
  unfold returnLine Worker.output
  cases w.role with
  | setter =>
    show some ((sender time w).worker, _, (⟨true, "key", asString (Digits.ofNat n).bytes⟩ :
      CrInputOutput)) = _
    rw [worker_sender, Digits.asString_ofNat]
    rfl
  | getter =>
    show some ((sender time w).worker, _, (⟨false, "key", asString (Digits.ofNat n).bytes⟩ :
      CrInputOutput)) = _
    rw [worker_sender, Digits.asString_ofNat]
    rfl

end Test

end Cr

end Col733.Lab3

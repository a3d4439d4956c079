import Col733.Lab3.Cr.Server

/-!
# One `CrClient` and its chain

A client that makes one call after the other, on connections that its pools keep: one to each
server, with the head for `set` and the tail for `get`. Every message arrives as it was sent.
A handler that raises closes its connection, and on a closed connection `send` finds the end of
the stream or an exception, as the case may be in each call. As the calls follow one another,
each pool always hands out the same socket.
-/

namespace Col733.Lab3.Cr

open TcpClient

/-- A server, and whether the socket that its pool for the next server hands out is connected. -/
structure Node where
  d : Store := []
  link : Bool := true

/-- What `send` finds on a closed connection. -/
inductive Closed where
  | eof
  | raises

def Closed.result : Closed → Result
  | .eof => Received.result (.invalid messageHeaderInvalid)
  | .raises => Received.result .raised

/-- A call of `send`: whether the connection is open, and what the handler at its other end does
with the message. A handler that returns nothing sends nothing, and the call waits. -/
def exchange (closed : Closed) (isOpen : Bool) (outcome : Option (Option (Option Json))) :
    Bool × Option Result :=
  if isOpen then
    match outcome with
    | some (some (some reply)) => (true, some (.decoded reply))
    | some (some none) | none => (true, none)
    | some none => (false, some closed.result)
  else (false, some closed.result)

/-- A message for the first of the servers: what becomes of the servers, and what
`_process_req` returns. -/
def serve (keys : Keys) (closed : Closed) : List Node → Json →
    List Node × Option (Option (Option Json))
  | [], _ => ([], some none)
  | node :: rest, message =>
    match processReq keys (!rest.isEmpty) node.d message with
    | (d, .returns reply) => ({ node with d := d } :: rest, some (some (some reply)))
    | (d, .raises) => ({ node with d := d } :: rest, some none)
    | (d, .forwards request) =>
      let below := if node.link then serve keys closed rest request else (rest, none)
      let call := exchange closed node.link below.2
      ({ d := d, link := call.1 } :: below.1, call.2.map Result.returned)

/-- A call of the client. -/
inductive Op where
  | set (key val : String)
  | get (key : String)

def Op.message : Op → Json
  | .set key val => .obj [("type", .str "SET"), ("key", .str key), ("val", .str val)]
  | .get key => .obj [("type", .str "GET"), ("key", .str key)]

/-- `conns` are the sockets of the client, one in each pool. `waiting` says that a call has not
returned, and that there are no more calls. -/
structure ClientState where
  nodes : List Node
  conns : List Bool
  waiting : Bool := false

/-- A chain of `more` servers behind the head. -/
def ClientState.initial (more : Nat) : ClientState where
  nodes := List.replicate (more + 1) {}
  conns := List.replicate (more + 1) true

/-- The index in `conns`: `conns[0]` for `set` and `conns[-1]` for `get`. -/
def ClientState.target (s : ClientState) : Op → Nat
  | .set _ _ => 0
  | .get _ => s.conns.length - 1

/-- `response["status"]` and `response["val"]`, `none` when they raise. -/
def field (response : Json) (key : String) : Option Json :=
  match response with
  | .obj items => (Dict.ofList items).get? key
  | _ => none

def isOK : Json → Bool
  | .str s => s == "OK"
  | _ => false

/-- What the calls return. -/
inductive Returned where
  | set (ok : Bool)
  | get (ok : Bool) (val : Json)

/-- `set` and `get` after `send`, `none` when they raise. The result of `send` must not be
`None`. -/
def Op.finish (op : Op) (result : Result) : Option Returned := do
  let response ← (← result.returned)
  let status ← field response "status"
  match op with
  | .set _ _ => some (.set (isOK status))
  | .get _ =>
    if isOK status then (field response "val").map (.get true) else some (.get false status)

/-- A call: what it returns, or that it raises; `none` when it does not return. -/
def ClientState.call (keys : Keys) (s : ClientState) (op : Op) (closed : Closed) :
    ClientState × Option (Option Returned) :=
  if s.waiting then (s, none)
  else
    let i := s.target op
    let isOpen := (s.conns[i]?).getD false
    let below := if isOpen then serve keys closed (s.nodes.drop i) op.message
      else (s.nodes.drop i, none)
    let result := exchange closed isOpen below.2
    ({ nodes := s.nodes.take i ++ below.1
       conns := s.conns.set i result.1
       waiting := result.2.isNone },
      result.2.map op.finish)

/-! ## Runs -/

/-- The calls that were made, the last one first, each with what `send` finds in it if the
connection is closed. -/
abbrev Calls := List (Op × Closed)

/-- The state after the calls. -/
def after (keys : Keys) (more : Nat) : Calls → ClientState
  | [] => .initial more
  | (op, closed) :: before => ((after keys more before).call keys op closed).1

/-- What a call returns that comes after the calls. -/
def outcome (keys : Keys) (more : Nat) (before : Calls) (c : Op × Closed) :
    Option (Option Returned) :=
  ((after keys more before).call keys c.1 c.2).2

/-- The value that was last set for the key. -/
def lastSet : Calls → String → Option String
  | [], _ => none
  | (.set key val, _) :: before, k => if key = k then some val else lastSet before k
  | (.get _, _) :: before, k => lastSet before k

/-- There was a `get` of a key that was not set before. -/
def missed : Calls → Bool
  | [] => false
  | (.set _ _, _) :: before => missed before
  | (.get key, _) :: before => (lastSet before key).isNone || missed before

/-- `set` has returned `True`, or `get` a pair with `True`. -/
def Succeeded : Option (Option Returned) → Prop
  | some (some (.set ok)) => ok = true
  | some (some (.get ok _)) => ok = true
  | _ => False

/-- What is expected of a call: `True`, or the value that was last set. -/
def Expected (before : Calls) : Op → Option (Option Returned) → Prop
  | .set _ _, result => result = some (some (.set true))
  | .get key, result => ∀ val, lastSet before key = some val →
      result = some (some (.get true (.str val)))

/-- After any call that failed, every later call returns what is expected. -/
def Recovers (keys : Keys) (more : Nat) (calls : Calls) : Prop :=
  ∀ c before, (c :: before) <:+ calls →
    (∃ c' earlier, (c' :: earlier) <:+ before ∧ ¬ Succeeded (outcome keys more earlier c')) →
      Expected before c.1 (outcome keys more before c)

/-- After a miss, `get` of a key that was not set is harmless, and `set` if the head is not the
tail. -/
def Harmless (more : Nat) (before : Calls) : Op → Prop
  | .set _ _ => more ≠ 0
  | .get key => lastSet before key = none

section Client

variable {keys : Keys} {closed : Closed} {more : Nat} {s : ClientState} {nodes : List Node}
  {key val : String} {before : Calls} {op : Op}

/-- `{"status": "OK"}`. -/
def okReply : Json := .obj [("status", .str "OK")]

/-- What a SET leaves at a server. -/
def Node.assign (key val : String) (node : Node) : Node :=
  { node with d := (.str key, .str val) :: node.d }

theorem getItem_assign (node : Node) (k : String) :
    (node.assign key val).d.getItem keys (.str k) =
      if key = k then some (.str val) else node.d.getItem keys (.str k) := by
  have head : keys.same (.str key) (.str k) = (key == k) := keys.str key k
  unfold Node.assign Store.getItem
  by_cases same : key = k
  · rw [List.find?_cons_of_pos (by rw [head]; exact beq_iff_eq.mpr same), if_pos same]
    rfl
  · rw [List.find?_cons_of_neg (by rw [head]; exact mt beq_iff_eq.mp same), if_neg same]

/-- As long as the servers are connected, a SET goes through the chain. -/
theorem serve_set (present : nodes ≠ []) (linked : ∀ node ∈ nodes, node.link = true) :
    serve keys closed nodes (Op.set key val).message =
      (nodes.map (Node.assign key val), some (some (some okReply))) := by
  induction nodes with
  | nil => exact absurd rfl present
  | cons node rest ih =>
    cases rest with
    | nil => rfl
    | cons next rest =>
      have below := ih (List.cons_ne_nil _ _) fun n member => linked n (List.mem_cons_of_mem _ member)
      have link := linked node List.mem_cons_self
      have forwarded : processReq keys true node.d (Op.set key val).message =
        ((.str key, .str val) :: node.d, .forwards (Op.set key val).message) := rfl
      rw [serve, List.isEmpty_cons, Bool.not_false, forwarded]
      simp only [link, if_true, below]
      rw [List.map_cons (a := node), Node.assign, link]
      rfl

/-- The tail serves a GET if it has the key. -/
theorem serve_get (keys : Keys) (closed : Closed) (key : String) (node : Node) :
    serve keys closed [node] (Op.get key).message =
      ([node], match node.d.getItem keys (.str key) with
        | some val => some (some (some (.obj [("status", .str "OK"), ("val", val)])))
        | none => some none) := by
  have handled : processReq keys false node.d (Op.get key).message =
      (node.d, match node.d.getItem keys (.str key) with
        | some val => .returns (.obj [("status", .str "OK"), ("val", val)])
        | none => .raises) := rfl
  rw [serve, List.isEmpty_nil, Bool.not_true, handled]
  cases node.d.getItem keys (.str key) <;> rfl

/-- A call on a closed connection fails, however it ends. -/
theorem not_succeeded_closed (op : Op) (closed : Closed) :
    ¬ Succeeded (some (op.finish closed.result)) := by
  cases closed with
  | eof => cases op <;> exact Bool.false_ne_true
  | raises => cases op <;> exact not_false

theorem call_of_closed (calling : s.waiting = false)
    (isClosed : s.conns[s.target op]? = some false) :
    s.call keys op closed =
      ({ nodes := s.nodes, conns := s.conns.set (s.target op) false, waiting := false },
        some (op.finish closed.result)) := by
  unfold ClientState.call
  simp only [calling, isClosed, Option.getD_some, exchange, Bool.false_eq_true, if_false,
    List.take_append_drop, Option.isNone_some, Option.map_some]

theorem call_set_of_open (calling : s.waiting = false) (isOpen : s.conns[0]? = some true)
    (present : s.nodes ≠ []) (linked : ∀ node ∈ s.nodes, node.link = true) :
    s.call keys (.set key val) closed =
      ({ nodes := s.nodes.map (Node.assign key val), conns := s.conns.set 0 true,
         waiting := false }, some (some (.set true))) := by
  unfold ClientState.call ClientState.target
  simp only [calling, isOpen, Option.getD_some, if_true, Bool.false_eq_true, if_false,
    List.drop_zero, List.take_zero, List.nil_append, serve_set present linked]
  rfl

/-- What the tail makes of a GET. -/
theorem call_get_of_open (calling : s.waiting = false) (length : s.nodes.length = more + 1)
    (conns : s.conns.length = more + 1) (isOpen : s.conns[more]? = some true)
    (stored : ∀ node ∈ s.nodes, node.d.getItem keys (.str key) = (lastSet before key).map .str) :
    s.call keys (.get key) closed =
      ({ nodes := s.nodes, conns := s.conns.set more (lastSet before key).isSome,
         waiting := false },
        some (match lastSet before key with
          | some val => some (.get true (.str val))
          | none => (Op.get key).finish closed.result)) := by
  have inside : more < s.nodes.length := by omega
  have tail : s.nodes.drop more = [s.nodes[more]] := by
    rw [List.drop_eq_getElem_cons inside, List.drop_of_length_le (by omega)]
  have restored : s.nodes.take more ++ [s.nodes[more]] = s.nodes := by
    rw [← tail, List.take_append_drop]
  have served := serve_get keys closed key s.nodes[more]
  rw [stored _ (List.getElem_mem inside)] at served
  unfold ClientState.call ClientState.target
  simp only [calling, conns, Nat.add_sub_cancel, isOpen, Option.getD_some, if_true,
    Bool.false_eq_true, if_false, tail, served, restored]
  cases lastSet before key <;> rfl

/-- After any calls: nothing waits, and the chain is connected. The head is reached as long as it
is not the tail or no `get` has missed, and then every server has what was set; the tail is
reached as long as no `get` has missed. -/
structure Inv (keys : Keys) (more : Nat) (before : Calls) (s : ClientState) : Prop where
  calling : s.waiting = false
  length : s.nodes.length = more + 1
  conns : s.conns.length = more + 1
  linked : ∀ node ∈ s.nodes, node.link = true
  head : s.conns[0]? = some (decide (more ≠ 0) || !missed before)
  tail : s.conns[more]? = some !missed before
  stored : (decide (more ≠ 0) || !missed before) = true → ∀ node ∈ s.nodes, ∀ k,
    node.d.getItem keys (.str k) = (lastSet before k).map .str

theorem inv_initial (keys : Keys) (more : Nat) : Inv keys more [] (.initial more) where
  calling := rfl
  length := List.length_replicate
  conns := List.length_replicate
  linked := by
    intro node member
    rw [(List.mem_replicate.mp member).2]
  head := by simp [ClientState.initial, missed]
  tail := by simp [ClientState.initial, missed]
  stored := by
    intro _ node member k
    rw [(List.mem_replicate.mp member).2]
    rfl

theorem Inv.nonempty (inv : Inv keys more before s) : s.nodes ≠ [] := by
  intro empty
  have length := inv.length
  rw [empty] at length
  cases length

/-- A `set`, as long as the head is reached. -/
theorem Inv.set_reached (inv : Inv keys more before s)
    (reached : (decide (more ≠ 0) || !missed before) = true) :
    (s.call keys (.set key val) closed).2 = some (some (.set true)) ∧
      Inv keys more ((.set key val, closed) :: before) (s.call keys (.set key val) closed).1 := by
  rw [call_set_of_open inv.calling (reached ▸ inv.head) inv.nonempty inv.linked]
  refine ⟨rfl, rfl, ?_, ?_, ?_, ?_, ?_, ?_⟩
  · rw [List.length_map, inv.length]
  · rw [List.length_set, inv.conns]
  · intro node member
    obtain ⟨old, there, rfl⟩ := List.mem_map.mp member
    exact inv.linked old there
  · rw [List.getElem?_set_self (by rw [inv.conns]; omega)]
    exact congrArg some reached.symm
  · by_cases single : more = 0
    · subst single
      rw [List.getElem?_set_self (by rw [inv.conns]; omega)]
      exact congrArg some reached.symm
    · rw [List.getElem?_set_ne (Ne.symm single)]
      exact inv.tail
  · intro _ node member k
    obtain ⟨old, there, rfl⟩ := List.mem_map.mp member
    rw [getItem_assign, inv.stored reached old there k, lastSet]
    split <;> rfl

/-- A `set` when the only server has closed the connection. -/
theorem Inv.set_closed (inv : Inv keys more before s)
    (unreached : (decide (more ≠ 0) || !missed before) = false) :
    (s.call keys (.set key val) closed).2 = some ((Op.set key val).finish closed.result) ∧
      Inv keys more ((.set key val, closed) :: before) (s.call keys (.set key val) closed).1 := by
  obtain ⟨single, hit⟩ := Bool.or_eq_false_iff.mp unreached
  have zero : more = 0 := by simpa using single
  subst zero
  rw [call_of_closed inv.calling (unreached ▸ inv.head)]
  refine ⟨rfl, rfl, inv.length, ?_, inv.linked, ?_, ?_, ?_⟩
  · rw [List.length_set, inv.conns]
  · exact (List.getElem?_set_self (by rw [inv.conns]; exact Nat.zero_lt_one)).trans
      (congrArg some unreached.symm)
  · exact (List.getElem?_set_self (by rw [inv.conns]; exact Nat.zero_lt_one)).trans
      (congrArg some hit.symm)
  · exact fun reached => absurd (unreached.symm.trans reached) Bool.false_ne_true

/-- A `get` leaves the tail's connection open if it has not missed and none before has. -/
theorem Inv.after_get (inv : Inv keys more before s) (key : String) (closed : Closed) :
    Inv keys more ((.get key, closed) :: before)
      { nodes := s.nodes
        conns := s.conns.set more !missed ((.get key, closed) :: before)
        waiting := false } := by
  have inside : more < s.conns.length := by rw [inv.conns]; omega
  refine ⟨rfl, inv.length, ?_, inv.linked, ?_, List.getElem?_set_self inside, ?_⟩
  · rw [List.length_set, inv.conns]
  · by_cases single : more = 0
    · subst single
      exact List.getElem?_set_self inside
    · have head := inv.head
      rw [decide_eq_true single, Bool.true_or] at head ⊢
      rw [List.getElem?_set_ne single, head]
  · intro reached node member k
    refine inv.stored ?_ node member k
    rw [missed, Bool.not_or, Bool.or_eq_true, Bool.and_eq_true] at reached
    rw [Bool.or_eq_true]
    exact reached.imp_right And.right

/-- A `get` fails from the first miss on. -/
theorem Inv.get (inv : Inv keys more before s) :
    (s.call keys (.get key) closed).2 =
        some (if missed ((.get key, closed) :: before) = true then
            (Op.get key).finish closed.result
          else (lastSet before key).map fun val => .get true (.str val)) ∧
      Inv keys more ((.get key, closed) :: before) (s.call keys (.get key) closed).1 := by
  have target : s.target (.get key) = more := by
    rw [ClientState.target, inv.conns, Nat.add_sub_cancel]
  have kept := inv.after_get key closed
  cases earlier : missed before with
  | true =>
    have now : missed ((.get key, closed) :: before) = true := by
      rw [missed, earlier, Bool.or_true]
    have isClosed : s.conns[s.target (.get key)]? = some false := by
      rw [target, inv.tail, earlier]
      rfl
    rw [now] at kept ⊢
    rw [call_of_closed inv.calling isClosed, target]
    exact ⟨rfl, kept⟩
  | false =>
    have now : missed ((.get key, closed) :: before) = (lastSet before key).isNone := by
      rw [missed, earlier, Bool.or_false]
    have isOpen : s.conns[more]? = some true := by
      rw [inv.tail, earlier]
      rfl
    have stored := inv.stored (by rw [earlier, Bool.not_false, Bool.or_true])
    rw [now] at kept ⊢
    rw [call_get_of_open inv.calling inv.length inv.conns isOpen fun node member =>
      stored node member key]
    cases found : lastSet before key with
    | none =>
      rw [found] at kept
      exact ⟨rfl, kept⟩
    | some val =>
      rw [found] at kept
      exact ⟨rfl, kept⟩

theorem inv_call (inv : Inv keys more before s) :
    Inv keys more ((op, closed) :: before) (s.call keys op closed).1 := by
  cases op with
  | get key => exact inv.get.2
  | set key val =>
    cases reached : decide (more ≠ 0) || !missed before with
    | true => exact (inv.set_reached reached).2
    | false => exact (inv.set_closed reached).2

theorem inv_after (keys : Keys) (more : Nat) (calls : Calls) :
    Inv keys more calls (after keys more calls) := by
  induction calls with
  | nil => exact inv_initial keys more
  | cons c before ih => exact inv_call ih

/-- A miss is not forgotten. -/
theorem missed_of_suffix {earlier : Calls} (inside : earlier <:+ before)
    (miss : missed earlier = true) : missed before = true := by
  induction before with
  | nil =>
    rw [List.suffix_nil.mp inside] at miss
    cases miss
  | cons c before ih =>
    rcases List.suffix_cons_iff.mp inside with here | there
    · exact here ▸ miss
    · have later := ih there
      rcases c with ⟨op, closed⟩
      cases op with
      | set key val => exact later
      | get key => rw [missed, later, Bool.or_true]

/-- A call that fails is a miss or comes after one. -/
theorem missed_of_failed {c : Op × Closed} (failed : ¬ Succeeded (outcome keys more before c)) :
    missed (c :: before) = true := by
  rcases c with ⟨op, closed⟩
  have inv := inv_after keys more before
  cases op with
  | get key =>
    by_contra hit
    rw [outcome, inv.get.1, if_neg hit] at failed
    rw [missed, Bool.or_eq_true, not_or, Option.isNone_iff_eq_none] at hit
    obtain ⟨val, found⟩ := Option.ne_none_iff_exists'.mp hit.1
    rw [found] at failed
    exact failed rfl
  | set key val =>
    cases reached : decide (more ≠ 0) || !missed before with
    | true =>
      rw [outcome, (inv.set_reached reached).1] at failed
      exact absurd rfl failed
    | false =>
      rw [missed]
      simpa using (Bool.or_eq_false_iff.mp reached).2

/-- A miss fails. -/
theorem failed_of_missed (miss : missed before = true) :
    ∃ c earlier, (c :: earlier) <:+ before ∧ ¬ Succeeded (outcome keys more earlier c) := by
  induction before with
  | nil => cases miss
  | cons c before ih =>
    by_cases earlier : missed before = true
    · obtain ⟨c', before', inside, failed⟩ := ih earlier
      exact ⟨c', before', inside.trans (List.suffix_cons _ _), failed⟩
    · rcases c with ⟨op, closed⟩
      refine ⟨_, _, List.suffix_refl _, ?_⟩
      cases op with
      | set key val => exact absurd miss earlier
      | get key =>
        rw [outcome, (inv_after keys more before).get.1, if_pos miss]
        exact not_succeeded_closed _ _

/-- After a miss, exactly the harmless calls return what is expected. -/
theorem expected_iff {c : Op × Closed} (miss : missed before = true) :
    Expected before c.1 (outcome keys more before c) ↔ Harmless more before c.1 := by
  rcases c with ⟨op, closed⟩
  have inv := inv_after keys more before
  cases op with
  | get key =>
    have now : missed ((.get key, closed) :: before) = true := by
      rw [missed, miss, Bool.or_true]
    rw [outcome, inv.get.1, if_pos now, Harmless]
    cases found : lastSet before key with
    | none => exact ⟨fun _ => rfl, fun _ val some => by rw [found] at some; cases some⟩
    | some val =>
      constructor
      · intro expected
        have same := expected val found
        exact absurd (same ▸ rfl) (not_succeeded_closed (.get key) closed)
      · intro none
        cases none
  | set key val =>
    rw [outcome, Harmless]
    by_cases single : more = 0
    · have unreached : (decide (more ≠ 0) || !missed before) = false := by
        rw [miss, single]
        rfl
      rw [(inv.set_closed unreached).1]
      constructor
      · intro expected
        exact absurd (expected ▸ rfl) (not_succeeded_closed (.set key val) closed)
      · exact fun several => absurd single several
    · have reached : (decide (more ≠ 0) || !missed before) = true := by
        rw [decide_eq_true single, Bool.true_or]
      rw [(inv.set_reached reached).1]
      exact ⟨fun _ => single, fun _ => rfl⟩

end Client

/-- On every chain and for every sequence of calls, however `send` ends on a closed connection:
after a failed call all calls return what is expected if and only if every call after a `get` of
a key that was not set is again a `get` of such a key, or a `set` where the head is not the
tail. -/
theorem client_recovers_iff (keys : Keys) (more : Nat) (calls : Calls) :
    Recovers keys more calls ↔
      ∀ c before, (c :: before) <:+ calls → missed before = true → Harmless more before c.1 := by
  constructor
  · intro recovers c before inside miss
    exact (expected_iff miss).mp (recovers c before inside (failed_of_missed miss))
  · intro harmless c before inside failure
    obtain ⟨c', earlier, there, failed⟩ := failure
    have miss := missed_of_suffix there (missed_of_failed failed)
    exact (expected_iff miss).mpr (harmless c before inside miss)

/-- On the chain of four servers: a `get` of a key that was never set, then `k` is set, and
`get("k")` does not return what was set. -/
theorem not_client_recovers :
    ¬ Recovers stringKeys 3 [(.get "k", .eof), (.set "k" "v", .eof), (.get "x", .eof)] := by
  intro recovers
  have miss : missed [(.set "k" "v", .eof), (.get "x", .eof)] = true := rfl
  have harmless := (expected_iff miss).mp
    (recovers _ _ (List.suffix_refl _) (failed_of_missed miss))
  cases harmless

end Col733.Lab3.Cr

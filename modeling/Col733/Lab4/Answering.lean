import Col733.Lab4.Node
import Mathlib.Tactic.Tauto

/-!
# Which requests a Bayou server answers

`_process_req` takes the type out of the request before its `try`, and its `try`
answers an `AssertionError` alone. So a request without a type, a write without a
character or with a time that is no pair, and the un-severing of a connection that is
not severed end the handler with another exception, and nothing is sent back. All
other requests are answered.
-/

namespace Col733.Lab4

variable (env : Env) (s : BayouAppServer) (now : Int)

/-- The reply has the status `Err`. -/
def IsErr (reply : JsonMessage) : Prop := reply.get? "status" = some (.str "Err")

theorem not_isErr_of_status {reply : JsonMessage} {status : String}
    (found : reply.get? "status" = some (.str status)) (differs : status ≠ "Err") :
    ¬ IsErr reply := by
  intro err
  rw [IsErr, found] at err
  injection err with same
  injection same with same
  exact differs same

theorem not_isErr_of_missing {reply : JsonMessage} (missing : reply.get? "status" = none) :
    ¬ IsErr reply := by
  intro err
  rw [IsErr, missing] at err
  cases err

/-- The value has an item 0 and an item 1. -/
def TwoItems : Json → Prop
  | .arr xs => 2 ≤ xs.length
  | .str s => 2 ≤ s.toList.length
  | _ => False

/-- A storage operation that raises has left the storage as it was. -/
def Undone {α : Type} (result : Except String α × Storage) (st : Storage) : Prop :=
  ∀ text, result.1 = .error text → result.2 = st

/-- The request, of which `body` is what is left when its type is taken out, cannot be
served: its type is unknown, it lacks a field, it names a server to which there is no
connection, or a connection that is not severed. -/
def CannotServeAs (body : JsonMessage) : Option RequestTypes → Prop
  | none => True
  | some .severConn => ∀ peer, body.get? "peer_name" = some peer →
      s.connectionStub.connections.contains (env.str peer) = false
  | some .unseverConn => ∀ peer, body.get? "peer_name" = some peer →
      env.str peer ∉ s.connectionStub.dcServers
  | some .antiEntropy => body.get? "c" = none ∨ body.get? "f" = none
  | some .appendChar => body.get? "char" = none
  | some .getString => False

def CannotServe (msg : JsonMessage) : Prop :=
  match msg.get? "type" with
  | none => True
  | some field => CannotServeAs env s (msg.erase "type") (RequestTypes.ofField field)

/-- The request is answered by a message. The message has the status `Err` if the request
cannot be served, and a request that is answered with `Err` changes neither the set of
severed connections nor the storage. -/
def Answered (msg : JsonMessage) : Prop :=
  ∃ reply s', s.processReq env now msg = (.ok reply, s') ∧
    (CannotServe env s msg → IsErr reply) ∧
    (IsErr reply → s'.connectionStub.dcServers = s.connectionStub.dcServers ∧
      s'.storage = s.storage)

/-- What a request of a kind needs so as not to raise past the `try`. -/
def ServableAs (body : JsonMessage) : Option RequestTypes → Prop
  | some .unseverConn => ∀ peer, body.get? "peer_name" = some peer →
      s.connectionStub.connections.contains (env.str peer) = true →
        env.str peer ∈ s.connectionStub.dcServers
  | some .antiEntropy => ∀ req, AntiEntropyReq.fromMsg body = .ok req →
      Undone (env.antiEntropy s.storage req.c req.f) s.storage
  | some .appendChar => (∃ char, body.get? "char" = some char) ∧
      (∀ l, body.get? "ltime" = some l → TwoItems l) ∧
      ∀ entry, BayouAppServer.deserialize s.name now body (.str "APPEND_CHAR") = .ok entry →
        Undone (s.storeOwn env entry) s.storage
  | _ => True

/-- The request has a type and what its kind needs. -/
def Servable (msg : JsonMessage) : Prop :=
  ∃ field, msg.get? "type" = some field ∧
    ServableAs env s now (msg.erase "type") (RequestTypes.ofField field)

/-! ## The fields of a write -/

theorem subscript_raises {x : Json} {i : Nat} {raised : Raised}
    (error : subscript x i = .error raised) : ∀ text, raised ≠ .assertionError text := by
  intro text same
  subst same
  unfold subscript at error
  split at error
  · split at error <;> cases error
  · split at error <;> cases error
  · cases error
  all_goals cases error

theorem exists_two_of_length {α : Type} {xs : List α} (two : 2 ≤ xs.length) :
    ∃ a b rest, xs = a :: b :: rest := by
  rcases xs with _ | ⟨a, _ | ⟨b, rest⟩⟩
  · simp at two
  · simp at two
  · exact ⟨a, b, rest, rfl⟩

theorem subscripts_of_twoItems {x : Json} (two : TwoItems x) :
    ∃ n t, subscript x 0 = .ok n ∧ subscript x 1 = .ok t := by
  cases x with
  | arr xs =>
    obtain ⟨a, b, rest, rfl⟩ := exists_two_of_length two
    exact ⟨a, b, rfl, rfl⟩
  | str text =>
    obtain ⟨a, b, rest, chars⟩ := exists_two_of_length two
    exact ⟨.str (String.singleton a), .str (String.singleton b), by simp [subscript, chars],
      by simp [subscript, chars]⟩
  | null | bool | int | float | obj => exact two.elim

theorem twoItems_of_subscript {x t : Json} (second : subscript x 1 = .ok t) : TwoItems x := by
  unfold subscript at second
  cases x with
  | arr xs =>
    cases item : xs[1]? with
    | none =>
      simp only [item] at second
      cases second
    | some val =>
      obtain ⟨bound, _⟩ := List.getElem?_eq_some_iff.mp item
      exact bound
  | str text =>
    cases item : text.toList[1]? with
    | none =>
      simp only [item] at second
      cases second
    | some val =>
      obtain ⟨bound, _⟩ := List.getElem?_eq_some_iff.mp item
      exact bound
  | null | bool | int | float | obj => cases second

/-- The time of a write is found if and only if the one that the request brings is a pair. -/
theorem ltimeOf_ok_iff (name : String) (now : Int) (body : JsonMessage) :
    (∃ ltime, BayouAppServer.ltimeOf name now body = .ok ltime) ↔
      ∀ l, body.get? "ltime" = some l → TwoItems l := by
  cases brought : body.get? "ltime" with
  | none =>
    apply iff_of_true
    · exact ⟨_, BayouAppServer.ltimeOf_stamped brought⟩
    · exact fun l there => nomatch there
  | some l =>
    rw [BayouAppServer.ltimeOf_brought brought]
    constructor
    · rintro ⟨ltime, success⟩ l' same
      cases same
      obtain ⟨n, _, success⟩ := bind_eq_ok success
      obtain ⟨t, second, _⟩ := bind_eq_ok success
      exact twoItems_of_subscript second
    · intro two
      obtain ⟨n, t, first, second⟩ := subscripts_of_twoItems (two l rfl)
      exact ⟨{ name := n, ts := t }, by rw [first, second]; rfl⟩

variable {now} in
theorem ltimeOf_raises {name : String} {body : JsonMessage} {raised : Raised}
    (error : BayouAppServer.ltimeOf name now body = .error raised) :
    ∀ text, raised ≠ .assertionError text := by
  cases brought : body.get? "ltime" with
  | none =>
    rw [BayouAppServer.ltimeOf_stamped brought] at error
    cases error
  | some l =>
    rw [BayouAppServer.ltimeOf_brought brought] at error
    rcases bind_eq_error error with first | ⟨n, _, error⟩
    · exact subscript_raises first
    rcases bind_eq_error error with second | ⟨t, _, error⟩
    · exact subscript_raises second
    cases error

/-! ## What comes of the result of the `match` -/

section Outcome

variable {env s now} {msg : JsonMessage} {field : Json} {s' : BayouAppServer}

theorem answered_of_assertion {text : String} (typed : msg.get? "type" = some field)
    (raised : s.dispatch env now (msg.erase "type") field = (.error (.assertionError text), s')) :
    Answered env s now msg ↔
      s'.connectionStub.dcServers = s.connectionStub.dcServers ∧ s'.storage = s.storage := by
  have result : s.processReq env now msg = (.ok (errReply text), s') := by
    simp only [BayouAppServer.processReq, JsonMessage.pop, typed, raised]
  constructor
  · rintro ⟨reply, after, same, _, unchanged⟩
    rw [result] at same
    cases same
    exact unchanged rfl
  · intro unchanged
    exact ⟨_, _, result, fun _ => rfl, fun _ => unchanged⟩

theorem not_answered_of_raised {raised : Raised} (typed : msg.get? "type" = some field)
    (other : ∀ text, raised ≠ .assertionError text)
    (result : s.dispatch env now (msg.erase "type") field = (.error raised, s')) :
    ¬ Answered env s now msg := by
  rintro ⟨reply, after, same, _⟩
  simp only [BayouAppServer.processReq, JsonMessage.pop, typed, result] at same
  cases raised with
  | assertionError text => exact other text rfl
  | keyError | typeError | indexError | simulatedConnectionError => cases same

theorem answered_of_served {reply : JsonMessage} (typed : msg.get? "type" = some field)
    (served : ¬ IsErr reply) (can : ¬ CannotServe env s msg)
    (result : s.dispatch env now (msg.erase "type") field = (.ok reply, s')) :
    Answered env s now msg := by
  refine ⟨reply, s', ?_, fun cannot => absurd cannot can, fun err => absurd err served⟩
  simp only [BayouAppServer.processReq, JsonMessage.pop, typed, result]

theorem cannotServe_iff (typed : msg.get? "type" = some field) :
    CannotServe env s msg ↔
      CannotServeAs env s (msg.erase "type") (RequestTypes.ofField field) := by
  unfold CannotServe
  rw [typed]

/-- A request refused by an assertion before anything is changed is answered. -/
theorem answered_of_refused {text : String} (typed : msg.get? "type" = some field)
    (raised : s.dispatch env now (msg.erase "type") field = (.error (.assertionError text), s)) :
    Answered env s now msg :=
  (answered_of_assertion typed raised).mpr ⟨rfl, rfl⟩

end Outcome

/-! ## The kinds of requests -/

section Kinds

variable {env s now} {msg : JsonMessage}

theorem answered_severConn (typed : msg.get? "type" = some (.str "SEVER_CONN")) :
    Answered env s now msg := by
  cases found : (msg.erase "type").get? "peer_name" with
  | none =>
    apply answered_of_refused typed
    show s.changeStub (SeverConnRequest.peerName env _ >>= _) = _
    rw [SeverConnRequest.peerName, peerName_of_missing env _ found]
    rfl
  | some peer =>
    have dispatched : s.dispatch env now (msg.erase "type") (.str "SEVER_CONN") =
        s.changeStub (s.connectionStub.severConnection (env.str peer)) := by
      show s.changeStub (SeverConnRequest.peerName env _ >>= _) = _
      rw [SeverConnRequest.peerName, peerName_of_found env _ found]
      rfl
    unfold ConnectionStub.severConnection at dispatched
    split at dispatched
    · rename_i connected
      apply answered_of_served typed _ _ dispatched
      · exact not_isErr_of_status rfl (by decide)
      · rw [cannotServe_iff typed]
        intro cannot
        rw [cannot peer found] at connected
        cases connected
    · exact answered_of_refused typed dispatched

theorem answered_unseverConn_iff (typed : msg.get? "type" = some (.str "UNSEVER_CONN")) :
    Answered env s now msg ↔ ServableAs env s now (msg.erase "type") (some .unseverConn) := by
  cases found : (msg.erase "type").get? "peer_name" with
  | none =>
    apply iff_of_true
    · apply answered_of_refused typed
      show s.changeStub (UnSeverConnRequest.peerName env _ >>= _) = _
      rw [UnSeverConnRequest.peerName, peerName_of_missing env _ found]
      rfl
    · intro peer there
      rw [found] at there
      cases there
  | some peer =>
    have dispatched : s.dispatch env now (msg.erase "type") (.str "UNSEVER_CONN") =
        s.changeStub (s.connectionStub.unseverConnection (env.str peer)) := by
      show s.changeStub (UnSeverConnRequest.peerName env _ >>= _) = _
      rw [UnSeverConnRequest.peerName, peerName_of_found env _ found]
      rfl
    have needs : ServableAs env s now (msg.erase "type") (some .unseverConn) ↔
        (s.connectionStub.connections.contains (env.str peer) = true →
          env.str peer ∈ s.connectionStub.dcServers) := by
      simp only [ServableAs, found, Option.some.injEq, forall_eq']
    rw [needs]
    unfold ConnectionStub.unseverConnection at dispatched
    split at dispatched
    · rename_i connected
      split at dispatched
      · rename_i severed
        apply iff_of_true
        · apply answered_of_served typed _ _ dispatched
          · exact not_isErr_of_status rfl (by decide)
          · rw [cannotServe_iff typed]
            exact fun cannot => cannot peer found severed
        · exact fun _ => severed
      · rename_i notSevered
        apply iff_of_false
        · apply not_answered_of_raised typed _ dispatched
          intro text same
          cases same
        · exact fun must => notSevered (must connected)
    · rename_i notConnected
      apply iff_of_true
      · exact answered_of_refused typed dispatched
      · exact fun connected => absurd connected notConnected

theorem answered_antiEntropy_iff (typed : msg.get? "type" = some (.str "ANTI_ENTROPY")) :
    Answered env s now msg ↔ ServableAs env s now (msg.erase "type") (some .antiEntropy) := by
  have dispatched : s.dispatch env now (msg.erase "type") (.str "ANTI_ENTROPY") =
      s.serveAntiEntropy env (msg.erase "type") := rfl
  unfold BayouAppServer.serveAntiEntropy at dispatched
  cases read : AntiEntropyReq.fromMsg (msg.erase "type") with
  | error raised =>
    obtain ⟨text, rfl⟩ := AntiEntropyReq.onlyAsserts_fromMsg _ raised read
    rw [read] at dispatched
    apply iff_of_true
    · exact answered_of_refused typed dispatched
    · intro req accepted
      rw [read] at accepted
      cases accepted
  | ok req =>
    obtain ⟨hasC, hasF⟩ := AntiEntropyReq.fields_of_fromMsg read
    have needs : ServableAs env s now (msg.erase "type") (some .antiEntropy) ↔
        Undone (env.antiEntropy s.storage req.c req.f) s.storage := by
      simp only [ServableAs, read, Except.ok.injEq, forall_eq']
    rw [needs]
    rcases result : env.antiEntropy s.storage req.c req.f with ⟨outcome, st⟩
    simp only [read, result] at dispatched
    cases outcome with
    | ok logs =>
      apply iff_of_true
      · apply answered_of_served typed _ _ dispatched
        · exact not_isErr_of_missing rfl
        · rw [cannotServe_iff typed]
          intro missing
          unfold Dict.contains at hasC hasF
          rcases missing with noC | noF
          · rw [noC] at hasC
            cases hasC
          · rw [noF] at hasF
            cases hasF
      · exact fun _ error => nomatch error
    | error text =>
      rw [answered_of_assertion typed dispatched]
      constructor
      · exact fun unchanged _ _ => unchanged.2
      · exact fun undone => ⟨rfl, undone text rfl⟩

theorem answered_getString (typed : msg.get? "type" = some (.str "GET_STRING")) :
    Answered env s now msg := by
  have dispatched : s.dispatch env now (msg.erase "type") (.str "GET_STRING") = _ := rfl
  apply answered_of_served typed _ _ dispatched
  · exact not_isErr_of_status rfl (by decide)
  · rw [cannotServe_iff typed]
    exact id

theorem answered_appendChar_iff (typed : msg.get? "type" = some (.str "APPEND_CHAR")) :
    Answered env s now msg ↔ ServableAs env s now (msg.erase "type") (some .appendChar) := by
  have read := BayouAppServer.deserialize_appendChar s.name now (msg.erase "type")
  unfold ServableAs
  rw [← ltimeOf_ok_iff s.name now]
  cases time : BayouAppServer.ltimeOf s.name now (msg.erase "type") with
  | error raised =>
    rw [time] at read
    apply iff_of_false
    · exact not_answered_of_raised typed (ltimeOf_raises time)
        (BayouAppServer.dispatch_of_raised read)
    · rintro ⟨_, ⟨ltime, same⟩, _⟩
      cases same
  | ok ltime =>
    rw [time] at read
    cases found : (msg.erase "type").get? "char" with
    | none =>
      rw [JsonMessage.getItem_of_missing found] at read
      apply iff_of_false
      · apply not_answered_of_raised typed _ (BayouAppServer.dispatch_of_raised read)
        intro text same
        cases same
      · rintro ⟨⟨char, there⟩, _⟩
        cases there
    | some char =>
      rw [JsonMessage.getItem_of_get? found] at read
      have dispatched : s.dispatch env now (msg.erase "type") (.str "APPEND_CHAR") =
          s.handOver env { char, ltime } := BayouAppServer.dispatch_of_entry read
      unfold BayouAppServer.handOver at dispatched
      rcases result : s.storeOwn env { char, ltime } with ⟨outcome, st⟩
      rw [result] at dispatched
      cases outcome with
      | ok =>
        apply iff_of_true
        · apply answered_of_served typed _ _ dispatched
          · exact not_isErr_of_status rfl (by decide)
          · rw [cannotServe_iff typed]
            intro cannot
            have missing : (msg.erase "type").get? "char" = none := cannot
            rw [found] at missing
            cases missing
        · refine ⟨⟨char, rfl⟩, ⟨ltime, rfl⟩, ?_⟩
          intro entry same
          rw [read] at same
          cases same
          rw [result]
          exact fun _ error => nomatch error
      | error text =>
        rw [answered_of_assertion typed dispatched]
        constructor
        · intro unchanged
          refine ⟨⟨char, rfl⟩, ⟨ltime, rfl⟩, ?_⟩
          intro entry same
          rw [read] at same
          cases same
          rw [result]
          exact fun _ _ => unchanged.2
        · rintro ⟨_, _, undone⟩
          have left := undone { char, ltime } read text
          rw [result] at left
          exact ⟨rfl, left rfl⟩

theorem dispatch_unknown (env : Env) (s : BayouAppServer) (now : Int) (body : JsonMessage)
    {field : Json}
    (unknown : RequestTypes.ofField field = none) :
    s.dispatch env now body field = (.ok (errReply "Must specify type of request"), s) ∨
      s.dispatch env now body field = (.error (.assertionError "Invalid Request"), s) := by
  cases field with
  | null => exact .inl rfl
  | bool | int | float | str | arr | obj =>
    right
    simp only [BayouAppServer.dispatch, BayouAppServer.processAppReq, BayouAppServer.respond,
      BayouAppServer.deserialize, unknown]

/-- A request of an unknown type, `null` included. -/
theorem answered_unknown {field : Json} (typed : msg.get? "type" = some field)
    (unknown : RequestTypes.ofField field = none) : Answered env s now msg := by
  rcases dispatch_unknown env s now (msg.erase "type") unknown with null | refused
  · refine ⟨errReply "Must specify type of request", s, ?_, fun _ => rfl, fun _ => ⟨rfl, rfl⟩⟩
    simp only [BayouAppServer.processReq, JsonMessage.pop, typed, null]
  · exact answered_of_refused typed refused

/-- A request is answered if and only if it has a type and what its kind needs. -/
theorem answered_iff_servable (env : Env) (s : BayouAppServer) (now : Int) (msg : JsonMessage) :
    Answered env s now msg ↔ Servable env s now msg := by
  cases typed : msg.get? "type" with
  | none =>
    apply iff_of_false
    · rintro ⟨reply, s', same, _⟩
      simp only [BayouAppServer.processReq, JsonMessage.pop, typed] at same
      cases same
    · rintro ⟨field, there, _⟩
      rw [typed] at there
      cases there
  | some field =>
    have needs : Servable env s now msg ↔
        ServableAs env s now (msg.erase "type") (RequestTypes.ofField field) := by
      simp only [Servable, typed, Option.some.injEq, exists_eq_left']
    rw [needs]
    cases kind : RequestTypes.ofField field with
    | none => exact iff_of_true (answered_unknown typed kind) trivial
    | some kind' =>
      have same := RequestTypes.ofField_eq_some kind
      subst same
      cases kind' with
      | severConn => exact iff_of_true (answered_severConn typed) trivial
      | unseverConn => exact answered_unseverConn_iff typed
      | antiEntropy => exact answered_antiEntropy_iff typed
      | appendChar => exact answered_appendChar_iff typed
      | getString => exact iff_of_true (answered_getString typed) trivial

end Kinds

/-! ## Runs -/

/-- The step, if it is a request, is answered. -/
def StepAnswered (env : Env) (n : Node) : Action → Prop
  | .request now msg => Answered env n.server now msg
  | .visit _ _ | .nextRound => True

/-- The step, if it is a request, has a type and what its kind needs. -/
def StepServable (env : Env) (n : Node) : Action → Prop
  | .request now msg => Servable env n.server now msg
  | .visit _ _ | .nextRound => True

/-- In every run of a server every request is answered, if and only if every request has a
type and, in the state in which it is handled, what its kind needs. -/
theorem requests_answered (env : Env) (server : BayouAppServer) (as : List Action) :
    (Node.system env server).Meets (StepAnswered env) as ↔
      (Node.system env server).Meets (StepServable env) as := by
  apply System.meetsFrom_congr
  intro n a
  cases a with
  | request now msg => exact answered_iff_servable env n.server now msg
  | visit | nextRound => exact Iff.rfl

/-- A request without a type raises. -/
theorem not_requests_answered :
    ¬ ∀ (env : Env) (topology : Topology) (masterName : String) (si : ServerInfo),
      si ∈ topology.serverInfos.values → ∀ as,
        (Node.system env (topology.createServer masterName si)).Meets (StepAnswered env) as := by
  intro always
  have answered := always Env.accepting twoServers "s1" { name := "s1", port := 10005 } (by decide)
    [.request 1 Dict.empty]
  obtain ⟨reply, s', same, _⟩ := answered.1
  cases same

end Col733.Lab4

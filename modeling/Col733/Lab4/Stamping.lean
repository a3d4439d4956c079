import Col733.Lab4.Node

/-!
# The order in which a server's own writes reach its storage

The handler of a write first stamps the entry, in `deserialize`, and then hands it to the
storage. Between the two steps of one handler those of any other can take place, and
the clock may read the same twice. The waiting handlers are listed in the order in
which they stamped; a handler of which nothing more comes leaves the list.
-/

namespace Col733.Lab4

/-- The handlers at work. `clock` is what the clock read last, `handed` the entries that
have reached `Storage.apply`, in that order; no guard reads `handed`. -/
structure Writers where
  server : BayouAppServer
  clock : Option Int := none
  waiting : List AppLogEntry := []
  handed : List AppLogEntry := []

namespace Writers

inductive Action where
  /-- A handler stamps the entry of a request, of which `body` is what is left without the
  type, when the clock reads `now`. -/
  | stamp (now : Int) (body : JsonMessage)
  /-- The handler at this place of the list hands its entry over. -/
  | handOver (place : Nat)
  /-- Another request, or the loop of anti-entropy, changes the storage. -/
  | other (st : Storage)

/-- The clock may read `now`. -/
def mayRead (w : Writers) (now : Int) : Bool :=
  match w.clock with
  | none => true
  | some last => decide (last ≤ now)

def step (env : Env) (w : Writers) : Action → Option Writers
  | .stamp now body =>
    if w.mayRead now = true ∧ body.contains "ltime" = false then
      match BayouAppServer.deserialize w.server.name now body (.str "APPEND_CHAR") with
      -- the handler raises: it is gone, but the clock has been read
      | .error _ => some { w with clock := some now }
      | .ok entry => some { w with clock := some now, waiting := w.waiting ++ [entry] }
    else none
  | .handOver place =>
    match w.waiting[place]? with
    | none => none
    | some entry => some { w with
        server := (w.server.handOver env entry).2
        waiting := w.waiting.eraseIdx place
        handed := w.handed ++ [entry] }
  | .other st => some { w with server := w.server.setStorage st }

def system (env : Env) (server : BayouAppServer) : System Writers Action :=
  { init := { server }, step := step env }

/-- The entry that the server makes of a write, when its clock reads `now`. -/
def ownEntry (s : BayouAppServer) (now : Int) (char : Json) : AppLogEntry :=
  { char, ltime := { name := s.name, ts := now : LogicalTime }.raw }

theorem deserialize_own {s : BayouAppServer} {now : Int} {body : JsonMessage} {char : Json}
    (fresh : body.contains "ltime" = false) (found : body.get? "char" = some char) :
    BayouAppServer.deserialize s.name now body (.str "APPEND_CHAR") =
      .ok (ownEntry s now char) := by
  have missing : body.get? "ltime" = none := by simpa [Dict.contains] using fresh
  rw [BayouAppServer.deserialize_appendChar, BayouAppServer.ltimeOf_stamped missing,
    JsonMessage.getItem_of_get? found]
  rfl

theorem deserialize_noChar {s : BayouAppServer} {now : Int} {body : JsonMessage}
    (fresh : body.contains "ltime" = false) (noChar : body.get? "char" = none) :
    BayouAppServer.deserialize s.name now body (.str "APPEND_CHAR") =
      .error (.keyError (.str "char")) := by
  have missing : body.get? "ltime" = none := by simpa [Dict.contains] using fresh
  rw [BayouAppServer.deserialize_appendChar, BayouAppServer.ltimeOf_stamped missing,
    JsonMessage.getItem_of_missing noChar]
  rfl

/-- What each action can do. -/
inductive Moves (env : Env) (w : Writers) : Action → Writers → Prop where
  | stamp (now : Int) (body : JsonMessage) (char : Json) (mayRead : w.mayRead now = true)
      (fresh : body.contains "ltime" = false) (found : body.get? "char" = some char) :
      Moves env w (.stamp now body)
        { w with clock := some now, waiting := w.waiting ++ [ownEntry w.server now char] }
  | raise (now : Int) (body : JsonMessage) (mayRead : w.mayRead now = true)
      (fresh : body.contains "ltime" = false) (noChar : body.get? "char" = none) :
      Moves env w (.stamp now body) { w with clock := some now }
  | handOver (place : Nat) (entry : AppLogEntry) (here : w.waiting[place]? = some entry) :
      Moves env w (.handOver place)
        { w with
          server := (w.server.handOver env entry).2
          waiting := w.waiting.eraseIdx place
          handed := w.handed ++ [entry] }
  | other (st : Storage) : Moves env w (.other st) { w with server := w.server.setStorage st }

theorem moves_of_step {env : Env} {w w' : Writers} {a : Action}
    (stepped : step env w a = some w') : Moves env w a w' := by
  cases a with
  | stamp now body =>
    simp only [step] at stepped
    split at stepped
    · rename_i may
      obtain ⟨mayRead, fresh⟩ := may
      cases found : body.get? "char" with
      | none =>
        rw [deserialize_noChar fresh found] at stepped
        cases stepped
        exact .raise now body mayRead fresh found
      | some char =>
        rw [deserialize_own fresh found] at stepped
        cases stepped
        exact .stamp now body char mayRead fresh found
    · cases stepped
  | handOver place =>
    simp only [step] at stepped
    cases here : w.waiting[place]? with
    | none =>
      rw [here] at stepped
      cases stepped
    | some entry =>
      rw [here] at stepped
      cases stepped
      exact .handOver place entry here
  | other st =>
    cases stepped
    exact .other st

/-- The two steps of one handler, one after the other, are what `_process_req` does with
a write. -/
theorem dispatch_eq_handOver (env : Env) (s : BayouAppServer) (now : Int)
    {body : JsonMessage} {char : Json} (fresh : body.contains "ltime" = false)
    (found : body.get? "char" = some char) :
    s.dispatch env now body (.str "APPEND_CHAR") = s.handOver env (ownEntry s now char) :=
  BayouAppServer.dispatch_of_entry (deserialize_own fresh found)

/-! ## The order of the entries -/

/-- The entries that have reached the storage have strictly increasing times. -/
def InOrder (w : Writers) : Prop := w.handed.Pairwise fun e e' => e.ltime.lt e'.ltime

/-- A stamp is later than those before it, and an entry is handed over only when
no handler that stamped before its own still waits. -/
def Prompt (w : Writers) : Action → Prop
  | .stamp now body => ∀ char, body.get? "char" = some char →
      ∀ e ∈ w.handed ++ w.waiting, e.ltime.lt { name := w.server.name, ts := now : LogicalTime }.raw
  | .handOver place => place = 0
  | .other _ => True

/-- The entries handed over, followed by those that wait, have strictly increasing times. -/
def Queued (w : Writers) : Prop :=
  (w.handed ++ w.waiting).Pairwise fun e e' => e.ltime.lt e'.ltime

theorem queued_step {env : Env} {w w' : Writers} {a : Action} (queued : w.Queued)
    (prompt : w.Prompt a) (stepped : step env w a = some w') : w'.Queued := by
  cases moves_of_step stepped with
  | stamp now body char mayRead fresh found =>
    show (w.handed ++ (w.waiting ++ [ownEntry w.server now char])).Pairwise _
    rw [← List.append_assoc, List.pairwise_append]
    refine ⟨queued, List.pairwise_singleton _ _, ?_⟩
    intro e earlier e' last
    rw [List.mem_singleton.mp last]
    exact prompt char found e earlier
  | raise => exact queued
  | handOver place entry here =>
    have first : place = 0 := prompt
    subst first
    obtain ⟨rest, waiting⟩ : ∃ rest, w.waiting = entry :: rest := by
      cases waiting : w.waiting with
      | nil =>
        rw [waiting] at here
        cases here
      | cons e rest =>
        rw [waiting] at here
        cases here
        exact ⟨rest, rfl⟩
    unfold Queued at queued ⊢
    rw [waiting] at queued ⊢
    simpa using queued
  | other st => exact queued

/-! ## Nothing less will do -/

/-- What waits was stamped by this server, no later than the clock has read, and so was
what has been handed over. -/
def Stamped (server : BayouAppServer) (w : Writers) : Prop :=
  w.server.name = server.name ∧ ∀ e ∈ w.handed ++ w.waiting, ∃ t last,
    e.ltime = LogicalTime.raw { name := server.name, ts := t } ∧ w.clock = some last ∧ t ≤ last

theorem stamped_step {env : Env} {server : BayouAppServer} {w w' : Writers} {a : Action}
    (stamped : w.Stamped server) (stepped : step env w a = some w') : w'.Stamped server := by
  obtain ⟨name, times⟩ := stamped
  -- a later reading of the clock is no less than the one before
  have later : ∀ now, w.mayRead now = true → ∀ e ∈ w.handed ++ w.waiting, ∃ t last,
      e.ltime = LogicalTime.raw { name := server.name, ts := t } ∧ some now = some last ∧
        t ≤ last := by
    intro now allowed e member
    obtain ⟨t, last, time, clock, bound⟩ := times e member
    have monotone : last ≤ now := by
      unfold mayRead at allowed
      rw [clock] at allowed
      exact of_decide_eq_true allowed
    exact ⟨t, now, time, rfl, by omega⟩
  cases moves_of_step stepped with
  | stamp now body char mayRead fresh found =>
    refine ⟨name, ?_⟩
    intro e member
    rw [← List.append_assoc] at member
    rcases List.mem_append.mp member with earlier | new
    · exact later now mayRead e earlier
    · rw [List.mem_singleton.mp new]
      exact ⟨now, now, by rw [ownEntry, name], rfl, le_refl now⟩
  | raise now body mayRead fresh noChar => exact ⟨name, later now mayRead⟩
  | handOver place entry here =>
    have same := BayouAppServer.sameServer_handOver env w.server entry
    refine ⟨(congrArg ServerInfo.name same.info).trans name, ?_⟩
    intro e member
    apply times e
    rw [List.append_assoc] at member
    rcases List.mem_append.mp member with earlier | moved
    · exact List.mem_append_left _ earlier
    · rcases List.mem_cons.mp moved with rfl | waits
      · exact List.mem_append_right _ (List.mem_of_getElem? here)
      · exact List.mem_append_right _ (List.mem_of_mem_eraseIdx waits)
  | other st => exact ⟨name, times⟩

/-- The entries that are there can no longer be handed over in order. -/
def Doomed (w : Writers) : Prop :=
  ¬ w.InOrder ∨ (∃ e ∈ w.handed, ∃ e' ∈ w.waiting, ¬ e.ltime.lt e'.ltime) ∨
    ¬ w.waiting.Pairwise fun e e' => e.ltime ≠ e'.ltime

/-- The list around the entry at a place. -/
theorem exists_around {place : Nat} {entry : AppLogEntry} {waiting : List AppLogEntry}
    (here : waiting[place]? = some entry) :
    ∃ front back, waiting = front ++ entry :: back ∧ waiting.eraseIdx place = front ++ back := by
  obtain ⟨bound, item⟩ := List.getElem?_eq_some_iff.mp here
  refine ⟨waiting.take place, waiting.drop (place + 1), ?_, ?_⟩
  · rw [← item, List.getElem_cons_drop, List.take_append_drop]
  · exact List.eraseIdx_eq_take_drop_succ waiting place

theorem doomed_step {env : Env} {w w' : Writers} {a : Action} (doomed : w.Doomed)
    (stepped : step env w a = some w') : w'.Doomed := by
  cases moves_of_step stepped with
  | stamp now body char mayRead fresh found =>
    rcases doomed with disorder | ⟨e, handed, e', waits, late⟩ | twins
    · exact .inl disorder
    · exact .inr (.inl ⟨e, handed, e', List.mem_append_left _ waits, late⟩)
    · exact .inr (.inr fun distinct => twins (List.pairwise_append.mp distinct).1)
  | raise => exact doomed
  | other => exact doomed
  | handOver place entry here =>
    obtain ⟨front, back, around, left⟩ := exists_around here
    rcases doomed with disorder | ⟨e, handed, e', waits, late⟩ | twins
    · exact .inl fun order => disorder (List.pairwise_append.mp order).1
    · by_cases now : e' = entry
      · subst now
        exact .inl fun order => late ((List.pairwise_append.mp order).2.2 e handed e' (by simp))
      · refine .inr (.inl ⟨e, List.mem_append_left _ handed, e', ?_, late⟩)
        rw [around] at waits
        show e' ∈ w.waiting.eraseIdx place
        rw [left]
        simpa [now] using waits
    · -- one of two entries with the same time is handed over, or both still wait
      by_cases twin : ∃ e' ∈ front ++ back, e'.ltime = entry.ltime
      · obtain ⟨e', waits, same⟩ := twin
        refine .inr (.inl ⟨entry, List.mem_append_right _ (List.mem_singleton_self _), e', ?_, ?_⟩)
        · show e' ∈ w.waiting.eraseIdx place
          rw [left]
          exact waits
        · rw [same]
          exact RawTime.lt_irrefl _
      · refine .inr (.inr fun distinct => twins ?_)
        replace distinct : (w.waiting.eraseIdx place).Pairwise _ := distinct
        rw [left] at distinct
        rw [around, List.pairwise_middle fun differ => differ.symm]
        refine List.pairwise_cons.mpr ⟨?_, distinct⟩
        intro e' waits same
        exact twin ⟨e', waits, same.symm⟩

/-- A step that does not meet the condition spoils the order. -/
theorem doomed_of_not_prompt {env : Env} {server : BayouAppServer} {w w' : Writers} {a : Action}
    (queued : w.Queued) (stamped : w.Stamped server) (notPrompt : ¬ w.Prompt a)
    (stepped : step env w a = some w') : w'.Doomed := by
  cases moves_of_step stepped with
  | raise now body mayRead fresh noChar =>
    refine absurd (fun char found => ?_) notPrompt
    rw [noChar] at found
    cases found
  | other => exact absurd trivial notPrompt
  | stamp now body char allowed fresh found =>
    obtain ⟨e, member, late⟩ : ∃ e ∈ w.handed ++ w.waiting,
        ¬ e.ltime.lt (ownEntry w.server now char).ltime := by
      by_contra none
      push Not at none
      exact notPrompt fun _ _ e member => none e member
    rcases List.mem_append.mp member with handed | waits
    · exact .inr (.inl ⟨e, handed, _, List.mem_append_right _ (List.mem_singleton_self _), late⟩)
    · refine .inr (.inr fun distinct => ?_)
      obtain ⟨t, last, time, clock, bound⟩ := stamped.2 e member
      unfold mayRead at allowed
      rw [clock] at allowed
      have monotone : last ≤ now := of_decide_eq_true allowed
      rw [time, ownEntry, stamped.1, LogicalTime.raw_lt_raw] at late
      have same : t = now := by omega
      refine (List.pairwise_append.mp distinct).2.2 e waits _ (List.mem_singleton_self _) ?_
      rw [time, ownEntry, stamped.1, same]
  | handOver place entry here =>
    cases place with
    | zero => exact absurd rfl notPrompt
    | succ place =>
      cases waiting : w.waiting with
      | nil =>
        rw [waiting] at here
        cases here
      | cons first rest =>
        rw [waiting, List.getElem?_cons_succ] at here
        have sooner : first.ltime.lt entry.ltime := by
          have inOrder := (List.pairwise_append.mp queued).2.1
          rw [waiting] at inOrder
          exact (List.pairwise_cons.mp inOrder).1 entry (List.mem_of_getElem? here)
        refine .inr (.inl ⟨entry, List.mem_append_right _ (List.mem_singleton_self _), first, ?_,
          RawTime.lt_asymm sooner⟩)
        show first ∈ (first :: rest).eraseIdx (place + 1)
        exact List.mem_cons_self

theorem meets_or_doomed {env : Env} {server : BayouAppServer} {as : List Action} {w : Writers}
    (run : (system env server).Run as w) :
    w.Stamped server ∧ ((system env server).Meets Prompt as ∧ w.Queued ∨ w.Doomed) := by
  refine System.run_induction (P := fun as w => w.Stamped server ∧
    ((system env server).Meets Prompt as ∧ w.Queued ∨ w.Doomed)) ?_ ?_ run
  · exact ⟨⟨rfl, fun _ member => nomatch member⟩, .inl ⟨trivial, List.Pairwise.nil⟩⟩
  · intro as w a w' earlier holds stepped
    obtain ⟨stamped, order⟩ := holds
    refine ⟨stamped_step stamped stepped, ?_⟩
    rcases order with ⟨meets, queued⟩ | doomed
    · by_cases prompt : w.Prompt a
      · exact .inl ⟨meets.snoc earlier prompt stepped, queued_step queued prompt stepped⟩
      · exact .inr (doomed_of_not_prompt queued stamped prompt stepped)
    · exact .inr (doomed_step doomed stepped)

/-- In every run in which each stamp is later than those before it, and the handlers hand
their entries over in the order in which they stamped them, the entries reach the storage in
strictly increasing order of time. In a run that leaves no handler waiting they do so in no
other case. -/
theorem own_writes_in_order (env : Env) (server : BayouAppServer) {as : List Action}
    {w : Writers} (run : (system env server).Run as w) :
    ((system env server).Meets Prompt as → w.InOrder) ∧
      (w.waiting = [] → w.InOrder → (system env server).Meets Prompt as) := by
  constructor
  · intro prompt
    have queued : w.Queued := by
      refine System.meets_induction (P := fun _ w => w.Queued) ?_ ?_ run prompt
      · exact List.Pairwise.nil
      · exact fun _ w a w' _ holds met stepped => queued_step holds met stepped
    exact (List.pairwise_append.mp queued).1
  · intro finished order
    rcases (meets_or_doomed run).2 with ⟨meets, _⟩ | disorder | ⟨_, _, _, waits, _⟩ | twins
    · exact meets
    · exact absurd order disorder
    · rw [finished] at waits
      cases waits
    · rw [finished] at twins
      exact absurd List.Pairwise.nil twins

/-- The request `{"type": "APPEND_CHAR", "char": c}` without its type. -/
def writeOf (c : String) : JsonMessage := Dict.ofList [("char", .str c)]

/-- Two handlers that overlap and hand their entries over in the order of their stamps. -/
theorem own_writes_in_order_two :
    ∃ w, (system Env.accepting (twoServers.createServer "s1" { name := "s1", port := 10005 })).Run
        [.stamp 1 (writeOf "a"), .stamp 2 (writeOf "b"), .handOver 0, .handOver 0] w ∧
      w.InOrder ∧ w.handed.length = 2 := by
  have run : (system Env.accepting
      (twoServers.createServer "s1" { name := "s1", port := 10005 })).Run
        [.stamp 1 (writeOf "a"), .stamp 2 (writeOf "b"), .handOver 0, .handOver 0] _ := rfl
  refine ⟨_, run, (own_writes_in_order Env.accepting _ run).1 ?_, rfl⟩
  apply System.meetsFrom_cons rfl
  · exact fun _ _ e member => absurd member List.not_mem_nil
  apply System.meetsFrom_cons rfl
  · intro _ _ e member
    rw [List.mem_singleton.mp member]
    exact .inl (by decide)
  apply System.meetsFrom_cons rfl
  · rfl
  apply System.meetsFrom_cons rfl
  · rfl
  trivial

/-- Two handlers that hand their entries over in the other order. -/
theorem not_own_writes_in_order :
    ¬ ∀ (env : Env) (server : BayouAppServer) as w, (system env server).Run as w → w.InOrder := by
  intro always
  have order := always Env.accepting (twoServers.createServer "s1" { name := "s1", port := 10005 })
    [.stamp 1 (writeOf "a"), .stamp 2 (writeOf "b"), .handOver 1, .handOver 0] _ rfl
  have sooner := (List.pairwise_cons.mp order).1 _ (List.mem_singleton_self _)
  rcases sooner with later | ⟨same, _⟩
  · exact absurd later (by decide)
  · exact absurd same (by decide)

end Writers

end Col733.Lab4

import Col733.Lab3.Cr.Applied
import Col733.Misc.Linearizable
import Mathlib.Data.List.Perm.Subperm

/-!
# When the replicas agree

Two SETs of one key that are in flight together may be assigned by a server in one
order and by its successor in the other, since each is forwarded on a socket of its
own; the dictionaries then stay different when both are answered. What the servers
do guarantee is agreement along the runs in which no SET overtakes another one of
its key between two neighbours: there the assignments of a key at a server are at
all times a prefix of those at its predecessor.
-/

namespace Col733.Lab3.Cr

/-- No SET is in flight: all of them have been answered. -/
def Quiet (s : State) : Prop :=
  ∀ id call key val, s.calls id = some call → call.req = .set key val →
    ∃ reply, call.phase = .answered reply

/-- The actions in which a handler raises: the pool is exhausted, or the connection
of the socket it takes is gone. -/
def Action.fails : Action → Bool
  | .exhausted _ | .forwardDead _ _ _ => true
  | _ => false

/-- When the SET assigns at server `i + 1`, that server has already assigned every
SET of the same key that server `i` assigned before this one. -/
def InOrder (s : State) : Action → Prop
  | .assign id =>
    match s.calls id with
    | some ⟨_, .set key _, .sent (i + 1), _⟩ =>
      ∀ other ∈ s.applied i, Precedes (s.applied i) other id → s.keyOf other = some key →
        other ∈ s.applied (i + 1)
    | _ => True
  | _ => True

instance (s : State) (a : Action) : Decidable (InOrder s a) := by
  unfold InOrder
  repeat' split
  all_goals infer_instance

/-- The condition on a step: nothing fails, and no SET overtakes one of its key. -/
def NoOvertaking (s : State) (a : Action) : Prop :=
  a.fails = false ∧ InOrder s a

instance (s : State) (a : Action) : Decidable (NoOvertaking s a) :=
  inferInstanceAs (Decidable (_ ∧ _))

/-! ## The order of the assignments -/

theorem ChainInv.nodup_applied {c : Chain} {s : State} (inv : ChainInv c s) (i : Nat) :
    (s.applied i).Nodup := by
  rw [List.nodup_iff_count_le_one]
  intro id
  have here := inv id
  rw [CallInv] at here
  split at here
  · rw [here i]
    split <;> omega
  · obtain ⟨k, upTo, -⟩ := here
    rw [upTo i]
    split <;> omega

/-- The order of the assignments: along the chain the log of a key only gets shorter
at its end. -/
def OrderInv (s : State) : Prop :=
  ∀ i key, s.logOf (i + 1) key <+: s.logOf i key

theorem orderInv_init (c : Chain) : OrderInv c.system.init := fun _ _ => List.prefix_rfl

/-- A step that assigns nothing keeps the order. -/
theorem OrderInv.of_same {s s' : State} (inv : OrderInv s) (same : SameApplied s s') :
    OrderInv s' := by
  intro i key
  rw [same.logOf, same.logOf]
  exact inv i key

/-- The next assignment of a key is the next one of the predecessor's log, if all
those before it there have been made. -/
theorem concat_prefix {log before : List Nat} {id : Nat} (nodup : before.Nodup)
    (isPrefix : log <+: before) (new : id ∉ log) (member : id ∈ before)
    (earlier : ∀ other, Precedes before other id → other ∈ log) : log ++ [id] <+: before := by
  obtain ⟨rest, rfl⟩ := isPrefix
  have inRest : id ∈ rest := (List.mem_append.mp member).resolve_left new
  cases rest with
  | nil => exact absurd inRest List.not_mem_nil
  | cons head tail =>
    rcases List.mem_cons.mp inRest with rfl | inTail
    · exact ⟨tail, by simp⟩
    · -- what stands between the log and the new assignment would have to be in the log
      have precedes : Precedes (log ++ head :: tail) head id := by
        have back : List.Sublist [head, id] (head :: tail) :=
          List.Sublist.cons_cons head (List.singleton_sublist.mpr inTail)
        exact back.trans (List.sublist_append_right log (head :: tail))
      have disjoint := (List.nodup_append.mp nodup).2.2
      exact absurd rfl (disjoint head (earlier head precedes) head List.mem_cons_self)

/-- An assignment that overtakes none of its key keeps the order. -/
theorem OrderInv.assign {c : Chain} {s s' : State} (inv : OrderInv s) (chain : ChainInv c s)
    {id client i : Nat} {key val : String} {socks : List Nat}
    (at_ : s.calls id = some ⟨client, .set key val, .sent i, socks⟩)
    (inOrder : InOrder s (.assign id))
    (calls : s'.calls =
      Function.update s.calls id (some ⟨client, .set key val, .assigned i, socks⟩))
    (applied : s'.applied = Function.update s.applied i (s.applied i ++ [id])) :
    OrderInv s' := by
  obtain ⟨k, upTo, -, rfl, -, -⟩ := chain.of_call at_
  have ofId : s.keyOf id = some key := by simp only [State.keyOf, at_]
  obtain ⟨keys, -⟩ := sameReq at_ calls rfl
  have logs := logOf_assign applied keys ofId
  intro j other
  rw [logs, logs]
  have old := inv j other
  by_cases same : other = key
  · subst same
    by_cases atServer : j + 1 = k
    · -- the server itself: the SET is the next one of its predecessor's log
      subst atServer
      have differs : ¬ j = j + 1 := by omega
      rw [if_pos ⟨rfl, rfl⟩, if_neg (fun h => differs h.1)]
      have fresh : id ∉ s.applied (j + 1) := by
        have count := upTo (j + 1)
        rw [if_neg (Nat.lt_irrefl _)] at count
        exact List.count_eq_zero.mp count
      have present : id ∈ s.applied j := by
        have count := upTo j
        rw [if_pos (Nat.lt_succ_self j)] at count
        exact List.count_pos_iff.mp (by omega)
      apply concat_prefix ((chain.nodup_applied j).filter _) old
      · exact fun member => fresh (mem_logOf.mp member).1
      · exact mem_logOf.mpr ⟨present, ofId⟩
      · intro earlier precedes
        have ofKey := (mem_logOf.mp precedes.mem_left).2
        have inLog : Precedes (s.applied j) earlier id := precedes.trans List.filter_sublist
        simp only [InOrder, at_] at inOrder
        exact mem_logOf.mpr ⟨inOrder earlier inLog.mem_left inLog ofKey, ofKey⟩
    · rw [if_neg (fun h => atServer h.1)]
      by_cases atPred : j = k
      · subst atPred
        rw [if_pos ⟨rfl, rfl⟩]
        exact old.trans (List.prefix_append _ _)
      · rw [if_neg (fun h => atPred h.1)]
        exact old
  · rw [if_neg (fun h => same h.2), if_neg (fun h => same h.2)]
    exact old

theorem orderInv_step {c : Chain} {s s' : State} {a : Action} (chain : ChainInv c s)
    (inv : OrderInv s) (inOrder : InOrder s a) (step : c.step s a = some s') : OrderInv s' := by
  rcases assigned_or_same chain step with
    ⟨id, client, i, key, val, socks, rfl, at_, calls, -, applied⟩ | ⟨-, same⟩
  · exact inv.assign chain at_ inOrder calls applied
  · exact inv.of_same same

/-! ## A run in which nothing fails -/

/-- In a run in which nothing fails, no handler of a SET raises, and every reply to
a SET says OK. -/
def Unfailed (s : State) : Prop :=
  ∀ id client key val phase socks, s.calls id = some ⟨client, .set key val, phase, socks⟩ →
    match phase with
    | .sent _ | .assigned _ => True
    | .replied _ reply | .answered reply => reply.status = "OK"
    | .closed _ | .unanswered _ => False

/-- A step that replaces one call keeps `Unfailed` if the new call is unfailed. -/
theorem Unfailed.setCall {s s' : State} (unfailed : Unfailed s) {id : Nat} {call : Call}
    (calls : s'.calls = Function.update s.calls id (some call))
    (new : ∀ key val, call.req = .set key val →
      match call.phase with
      | .sent _ | .assigned _ => True
      | .replied _ reply | .answered reply => reply.status = "OK"
      | .closed _ | .unanswered _ => False) : Unfailed s' := by
  intro other client key val phase socks at_
  rw [calls] at at_
  by_cases here : other = id
  · subst here
    rw [Function.update_self] at at_
    cases at_
    exact new key val rfl
  · rw [Function.update_of_ne here] at at_
    exact unfailed other client key val phase socks at_

theorem unfailed_step {c : Chain} {s s' : State} {a : Action} (unfailed : Unfailed s)
    (fine : a.fails = false) (step : c.step s a = some s') : Unfailed s' := by
  cases Chain.moves_of_step step with
  | invoke id client req fresh => exact unfailed.setCall rfl fun _ _ _ => trivial
  | assign id client i key val socks at_ => exact unfailed.setCall rfl fun _ _ _ => trivial
  | forward id sock client i req socks at_ inner idle open_ =>
    exact unfailed.setCall rfl fun _ _ _ => trivial
  | forwardEof id sock client i req socks at_ inner idle dead => cases fine
  | forwardRaises id sock client i req socks at_ inner idle dead => cases fine
  | exhausted id client i req socks at_ inner empty => cases fine
  | finish id client i req socks at_ last => exact unfailed.setCall rfl fun _ _ _ => rfl
  | lookup id client i key socks at_ =>
    refine unfailed.setCall rfl ?_
    intro _ _ isSet
    cases isSet
  | receive id sock client i req reply socks at_ =>
    refine unfailed.setCall rfl ?_
    rintro key val ⟨⟩
    exact unfailed id client key val _ _ at_
  | receiveEof id sock client i req socks at_ =>
    refine unfailed.setCall rfl ?_
    rintro key val ⟨⟩
    exact (unfailed id client key val _ _ at_).elim
  | respond id client i req reply at_ =>
    refine unfailed.setCall rfl ?_
    rintro key val ⟨⟩
    exact unfailed id client key val _ _ at_
  | respondEof id client i req at_ =>
    refine unfailed.setCall rfl ?_
    rintro key val ⟨⟩
    exact (unfailed id client key val _ _ at_).elim

/-! ## Agreement -/

/-- In a quiet state of a run in which nothing failed, every server of the chain has
applied the same SETs. -/
theorem applied_everywhere {c : Chain} {s : State} (chain : ChainInv c s)
    (unfailed : Unfailed s) (quiet : Quiet s) {id : Nat} {key : String}
    (isSet : s.keyOf id = some key) {i : Nat} (inside : i < c.len) : id ∈ s.applied i := by
  cases at_ : s.calls id with
  | none => simp [State.keyOf, at_] at isSet
  | some call =>
    rcases call with ⟨client, req, phase, socks⟩
    cases req with
    | get other => simp [State.keyOf, at_] at isSet
    | set other val =>
      obtain ⟨reply, answered⟩ := quiet id _ other val at_ rfl
      cases (show phase = .answered reply from answered)
      obtain ⟨k, upTo, -, whole⟩ := chain.of_call at_
      have ok : reply.status = "OK" := unfailed id client other val _ _ at_
      have count := upTo i
      rw [if_pos (by rw [whole ok]; exact inside)] at count
      exact List.count_pos_iff.mp (by omega)

/-- The logs of two neighbours are then the same. -/
theorem logOf_eq_of_quiet {c : Chain} {s : State} (chain : ChainInv c s) (inv : OrderInv s)
    (unfailed : Unfailed s) (quiet : Quiet s) {i : Nat} (inside : i + 1 < c.len) (key : String) :
    s.logOf (i + 1) key = s.logOf i key := by
  apply (inv i key).eq_of_length_le
  apply List.Subperm.length_le
  apply List.Nodup.subperm ((chain.nodup_applied i).filter _)
  intro id member
  have isSet := (mem_logOf.mp member).2
  exact mem_logOf.mpr ⟨applied_everywhere chain unfailed quiet isSet inside, isSet⟩

/-- The replicas agree: in every run in which nothing fails and no SET overtakes one
of its key, whenever no SET is in flight the dictionaries of all servers are equal. -/
theorem replicas_agree_when_quiet {c : Chain} {as : List Action} {s : State}
    (run : c.system.Run as s) (meets : c.system.Meets NoOvertaking as) (quiet : Quiet s) :
    ∀ i < c.len, ∀ j < c.len, ∀ key, (s.d i).get? key = (s.d j).get? key := by
  have invs : ChainInv c s ∧ OrderInv s ∧ Unfailed s := by
    refine System.meets_induction (P := fun _ s => ChainInv c s ∧ OrderInv s ∧ Unfailed s)
      ⟨chainInv_init c, orderInv_init c, ?_⟩ ?_ run meets
    · intro id client key val phase socks at_
      cases at_
    · rintro as s a s' - ⟨chain, inv, unfailed⟩ ⟨fine, inOrder⟩ step
      exact ⟨chainInv_step chain step, orderInv_step chain inv inOrder step,
        unfailed_step unfailed fine step⟩
  obtain ⟨chain, inv, unfailed⟩ := invs
  have holds := holdsLast_run run
  have withHead : ∀ i < c.len, ∀ key, (s.d i).get? key = (s.d 0).get? key := by
    intro i inside key
    induction i with
    | zero => rfl
    | succ i ih =>
      rw [holds, logOf_eq_of_quiet chain inv unfailed quiet inside key, ← holds]
      exact ih (by omega)
  intro i hi j hj key
  rw [withHead i hi key, withHead j hj key]

/-- The request that an action makes. -/
def Action.invoked : Action → Option Nat
  | .invoke id _ _ => some id
  | _ => none

/-- Only requests that the run makes have a call. -/
theorem invoked_of_call {c : Chain} {as : List Action} {s : State} (run : c.system.Run as s)
    {id : Nat} {call : Call} (at_ : s.calls id = some call) :
    id ∈ as.filterMap Action.invoked := by
  revert id call
  refine System.run_induction (P := fun as s => ∀ {id : Nat} {call : Call},
    s.calls id = some call → id ∈ as.filterMap Action.invoked) ?_ ?_ run
  · intro id call at_
    cases at_
  · intro as s a s' _ earlier step other call at_
    rw [List.filterMap_append, List.mem_append]
    -- a call is replaced where there was one, except by the action that makes it
    have replaced : ∀ {id : Nat} {old new : Call}, s.calls id = some old →
        s'.calls = Function.update s.calls id (some new) →
        other ∈ as.filterMap Action.invoked := by
      intro id old new present calls
      by_cases here : other = id
      · exact here ▸ earlier present
      · rw [calls, Function.update_of_ne here] at at_
        exact earlier at_
    cases Chain.moves_of_step step with
    | invoke id client req fresh =>
      by_cases here : other = id
      · exact Or.inr (by simp [Action.invoked, here])
      · rw [State.setCall_calls, Function.update_of_ne here] at at_
        exact Or.inl (earlier at_)
    | assign id client i key val socks present => exact Or.inl (replaced present rfl)
    | forward id sock client i req socks present => exact Or.inl (replaced present rfl)
    | forwardEof id sock client i req socks present => exact Or.inl (replaced present rfl)
    | forwardRaises id sock client i req socks present => exact Or.inl (replaced present rfl)
    | exhausted id client i req socks present => exact Or.inl (replaced present rfl)
    | finish id client i req socks present => exact Or.inl (replaced present rfl)
    | lookup id client i key socks present => exact Or.inl (replaced present rfl)
    | receive id sock client i req reply socks present => exact Or.inl (replaced present rfl)
    | receiveEof id sock client i req socks present => exact Or.inl (replaced present rfl)
    | respond id client i req reply present => exact Or.inl (replaced present rfl)
    | respondEof id client i req present => exact Or.inl (replaced present rfl)

/-- The SET, if it is one, has been answered. -/
def settled : Option Call → Bool
  | some ⟨_, .set _ _, .answered _, _⟩ | some ⟨_, .get _, _, _⟩ | none => true
  | _ => false

/-- Whether a state is quiet is seen from the requests of the run. -/
theorem quiet_of_settled {c : Chain} {as : List Action} {s : State} (run : c.system.Run as s)
    (all : ∀ id ∈ as.filterMap Action.invoked, settled (s.calls id) = true) : Quiet s := by
  rintro id ⟨client, req, phase, socks⟩ key val at_ rfl
  have isSettled := all id (invoked_of_call run at_)
  rw [at_] at isSettled
  cases phase with
  | answered reply => exact ⟨reply, rfl⟩
  | sent _ => cases isSettled
  | assigned _ => cases isSettled
  | replied _ _ => cases isSettled
  | closed _ => cases isSettled
  | unanswered _ => cases isSettled

/-- Two SETs of one key that are in flight together, one behind the other. -/
def inFile : List Action :=
  [.invoke 0 0 (.set "k" "1"), .invoke 1 1 (.set "k" "2"), .assign 0, .assign 1,
    .forward 0 30, .forward 1 31, .assign 0, .assign 1,
    .forward 0 0, .forward 1 1, .assign 0, .assign 1,
    .forward 0 0, .assign 0, .forward 1 1, .assign 1, .finish 1, .finish 0,
    .receive 1, .receive 1, .receive 1, .respond 1, .receive 0, .receive 0, .receive 0, .respond 0]

/-- Neither overtakes the other, and the replicas agree. -/
theorem replicas_agree_when_quiet_two :
    ∃ s, crCluster.system.Run inFile s ∧ (s.d 0).get? "k" = some "2" ∧
      ∀ i < 4, ∀ j < 4, ∀ key, (s.d i).get? key = (s.d j).get? key := by
  have run : crCluster.system.Run inFile _ := rfl
  exact ⟨_, run, by decide,
    replicas_agree_when_quiet run (by decide) (quiet_of_settled run (by decide))⟩

/-- Two SETs of one key, the second of which overtakes the first between a and b. -/
def overtaking : List Action :=
  [.invoke 0 0 (.set "k" "1"), .invoke 1 1 (.set "k" "2"), .assign 0, .assign 1,
    .forward 1 31, .forward 0 30, .assign 1, .assign 0,
    .forward 0 0, .assign 0, .forward 0 0, .assign 0, .finish 0,
    .receive 0, .receive 0, .receive 0, .respond 0,
    .forward 1 1, .assign 1, .forward 1 1, .assign 1, .finish 1,
    .receive 1, .receive 1, .receive 1, .respond 1]

/-- Both are answered with OK, and a and b hold different values. -/
theorem not_replicas_agree_when_quiet :
    ¬ ∀ (c : Chain) (as : List Action) (s : State), c.system.Run as s →
      (∀ a ∈ as, a.fails = false) → Quiet s →
      ∀ i < c.len, ∀ j < c.len, ∀ key, (s.d i).get? key = (s.d j).get? key := by
  intro agree
  obtain ⟨s, run, allSettled, differ⟩ : ∃ s, crCluster.system.Run overtaking s ∧
      (∀ id ∈ overtaking.filterMap Action.invoked, settled (s.calls id) = true) ∧
      (s.d 0).get? "k" ≠ (s.d 1).get? "k" := ⟨_, rfl, by decide, by decide⟩
  exact differ (agree crCluster overtaking s run (by decide) (quiet_of_settled run allSettled)
    0 (by decide) 1 (by decide) "k")

end Col733.Lab3.Cr

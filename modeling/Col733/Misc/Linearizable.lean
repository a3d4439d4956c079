import Col733.Misc.System
import Mathlib.Data.List.Nodup
import Mathlib.Logic.Function.Basic

/-!
# Linearizability

Histories of calls and returns, the sequential models they are compared with,
and the atomic object: the transition system in which an operation that has been
called takes effect in one step before it returns. A history of the atomic
object is linearizable in the order in which its operations took effect, so a
system is shown linearizable by a simulation into the atomic object.
-/

namespace Col733

variable {σ ι ο : Type}

/-- A sequential model: `step s input output` says whether the object in state
`s` may answer `input` by `output`, and the state afterwards. -/
structure SeqModel (σ ι ο : Type) where
  init : σ
  step : σ → ι → ο → Bool × σ

/-- One event of a history; `id` tells the operations apart. -/
inductive Event (ι ο : Type) where
  | call (id : Nat) (input : ι)
  | ret (id : Nat) (output : ο)
  deriving DecidableEq, Repr

/-- An operation with the output it is given in a sequential order. -/
structure Operation (ι ο : Type) where
  id : Nat
  input : ι
  output : ο
  deriving DecidableEq, Repr

/-- `x` occurs somewhere before `y`. -/
def Precedes {α : Type} (l : List α) (x y : α) : Prop :=
  List.Sublist [x, y] l

instance {α : Type} [DecidableEq α] (l : List α) (x y : α) : Decidable (Precedes l x y) :=
  inferInstanceAs (Decidable (List.Sublist [x, y] l))

theorem Precedes.append {α : Type} {l : List α} {x y : α} (h : Precedes l x y) (r : List α) :
    Precedes (l ++ r) x y :=
  h.trans (List.sublist_append_left l r)

theorem Precedes.mem_left {α : Type} {l : List α} {x y : α} (h : Precedes l x y) : x ∈ l :=
  h.subset (by simp)

/-- What precedes the new last element is everything that was there before. -/
theorem precedes_concat_iff {α : Type} {l : List α} {x y z : α} :
    Precedes (l ++ [z]) x y ↔ Precedes l x y ∨ (x ∈ l ∧ y = z) := by
  constructor
  · intro h
    obtain ⟨front, back, split, inFront, inBack⟩ := List.sublist_append_iff.mp h
    rcases List.sublist_singleton.mp inBack with rfl | rfl
    · rw [List.append_nil] at split
      exact Or.inl (show List.Sublist [x, y] l by rw [split]; exact inFront)
    · have same : [x] ++ [y] = front ++ [z] := split
      obtain ⟨rfl, last⟩ := List.append_inj' same rfl
      exact Or.inr ⟨List.singleton_sublist.mp inFront, List.head_eq_of_cons_eq last⟩
  · rintro (h | ⟨member, rfl⟩)
    · exact h.append [z]
    · exact (List.singleton_sublist.mpr member).append (List.Sublist.refl [y])

/-- Run a sequence of operations on the model; `none` once an output is refused. -/
def SeqModel.replay (M : SeqModel σ ι ο) : σ → List (Operation ι ο) → Option σ
  | s, [] => some s
  | s, op :: ops =>
    if (M.step s op.input op.output).1 then M.replay (M.step s op.input op.output).2 ops
    else none

theorem SeqModel.replay_append (M : SeqModel σ ι ο) (s : σ) (ops rest : List (Operation ι ο)) :
    M.replay s (ops ++ rest) = (M.replay s ops).bind fun t => M.replay t rest := by
  induction ops generalizing s with
  | nil => rfl
  | cons op ops ih =>
    simp only [List.cons_append, replay]
    split
    · exact ih _
    · rfl

/-- Replaying is monotone in what the model accepts: if one model accepts only
what the other does, with related states, so it is for whole sequences. -/
theorem SeqModel.replay_mono {σ' : Type} {M : SeqModel σ ι ο} {N : SeqModel σ' ι ο}
    {rel : σ → σ' → Prop}
    (step : ∀ s s' i o, rel s s' → (M.step s i o).1 = true →
      (N.step s' i o).1 = true ∧ rel (M.step s i o).2 (N.step s' i o).2)
    {s : σ} {s' : σ'} (related : rel s s') {ops : List (Operation ι ο)} {t : σ}
    (accepted : M.replay s ops = some t) : ∃ t', N.replay s' ops = some t' ∧ rel t t' := by
  induction ops generalizing s s' with
  | nil =>
    have start : s = t := Option.some.inj accepted
    exact ⟨s', rfl, start ▸ related⟩
  | cons op ops ih =>
    simp only [replay] at accepted ⊢
    split at accepted
    · rename_i fits
      obtain ⟨fits', related'⟩ := step s s' op.input op.output related fits
      rw [if_pos fits']
      exact ih related' accepted
    · exact absurd accepted (by simp)

/-- The history is linearizable in the given order: every completed operation is
in it with the output it returned, nothing is in it that was not called, the
model accepts it, and it keeps the order of operations that did not overlap. -/
structure LinearizedBy (M : SeqModel σ ι ο) (history : List (Event ι ο))
    (order : List (Operation ι ο)) : Prop where
  nodup : (order.map Operation.id).Nodup
  called : ∀ op ∈ order, Event.call op.id op.input ∈ history
  completed : ∀ id output, Event.ret id output ∈ history →
    ∃ op ∈ order, op.id = id ∧ op.output = output
  legal : ∃ final, M.replay M.init order = some final
  realTime : ∀ a ∈ order, ∀ b ∈ order, ∀ output input,
    Precedes history (.ret a.id output) (.call b.id input) → Precedes order a b

/-- A model that accepts more linearizes what the stricter one does. -/
theorem LinearizedBy.mono {σ' : Type} {M : SeqModel σ ι ο} {N : SeqModel σ' ι ο}
    {rel : σ → σ' → Prop} (init : rel M.init N.init)
    (step : ∀ s s' i o, rel s s' → (M.step s i o).1 = true →
      (N.step s' i o).1 = true ∧ rel (M.step s i o).2 (N.step s' i o).2)
    {history : List (Event ι ο)} {order : List (Operation ι ο)}
    (lin : LinearizedBy M history order) : LinearizedBy N history order := by
  obtain ⟨final, accepted⟩ := lin.legal
  obtain ⟨final', accepted', -⟩ := SeqModel.replay_mono step init accepted
  exact { lin with legal := ⟨final', accepted'⟩ }

/-- Operations that leave every state as it is may be taken out of a sequence. -/
theorem SeqModel.replay_filter {M : SeqModel σ ι ο} {keep : Operation ι ο → Bool}
    (reads : ∀ s op, keep op = false → (M.step s op.input op.output).2 = s)
    {s final : σ} {ops : List (Operation ι ο)} (accepted : M.replay s ops = some final) :
    M.replay s (ops.filter keep) = some final := by
  induction ops generalizing s with
  | nil => exact accepted
  | cons op ops ih =>
    simp only [replay] at accepted
    split at accepted
    · rename_i fits
      cases kept : keep op with
      | true => simpa [List.filter_cons, kept, replay, fits] using ih accepted
      | false =>
        rw [reads s op kept] at accepted
        simpa [List.filter_cons, kept] using ih accepted
    · exact absurd accepted (by simp)

/-- Pending operations that change nothing may be left out of the order. -/
theorem LinearizedBy.filter {M : SeqModel σ ι ο} {history : List (Event ι ο)}
    {order : List (Operation ι ο)} (lin : LinearizedBy M history order)
    {keep : Operation ι ο → Bool}
    (reads : ∀ s op, keep op = false → (M.step s op.input op.output).2 = s)
    (completed : ∀ op ∈ order, Event.ret op.id op.output ∈ history → keep op = true) :
    LinearizedBy M history (order.filter keep) where
  nodup := lin.nodup.sublist (List.filter_sublist.map _)
  called op member := lin.called op (List.mem_of_mem_filter member)
  completed id output member := by
    obtain ⟨op, inOrder, rfl, rfl⟩ := lin.completed id output member
    exact ⟨op, List.mem_filter.mpr ⟨inOrder, completed op inOrder member⟩, rfl, rfl⟩
  legal := by
    obtain ⟨final, accepted⟩ := lin.legal
    exact ⟨final, SeqModel.replay_filter reads accepted⟩
  realTime a ha b hb output input before := by
    obtain ⟨inA, keptA⟩ := List.mem_filter.mp ha
    obtain ⟨inB, keptB⟩ := List.mem_filter.mp hb
    have both : [a, b].filter keep = [a, b] := by simp [keptA, keptB]
    rw [Precedes, ← both]
    exact (lin.realTime a inA b inB output input before).filter keep

/-! ## The atomic object -/

/-- How far an operation on the atomic object has come. -/
inductive Status (ι ο : Type) where
  | idle
  | called (input : ι)
  | committed (input : ι) (output : ο)
  | returned (input : ι) (output : ο)

structure AtomicState (σ ι ο : Type) where
  status : Nat → Status ι ο
  object : σ
  order : List (Operation ι ο)

inductive AtomicAction (ι ο : Type) where
  | call (id : Nat) (input : ι)
  | commit (id : Nat) (output : ο)
  | ret (id : Nat)

/-- The step of the atomic object. Only `commit` touches the object, and it needs
the model's consent to the output. -/
def SeqModel.atomicStep (M : SeqModel σ ι ο) (s : AtomicState σ ι ο) :
    AtomicAction ι ο → Option (AtomicState σ ι ο)
  | .call id input =>
    match s.status id with
    | .idle => some { s with status := Function.update s.status id (.called input) }
    | _ => none
  | .commit id output =>
    match s.status id with
    | .called input =>
      if (M.step s.object input output).1 then
        some { status := Function.update s.status id (.committed input output)
               object := (M.step s.object input output).2
               order := s.order ++ [⟨id, input, output⟩] }
      else none
    | _ => none
  | .ret id =>
    match s.status id with
    | .committed input output =>
      some { s with status := Function.update s.status id (.returned input output) }
    | _ => none

/-- The atomic object of a sequential model. -/
def SeqModel.atomic (M : SeqModel σ ι ο) : System (AtomicState σ ι ο) (AtomicAction ι ο) where
  init := { status := fun _ => .idle, object := M.init, order := [] }
  step := M.atomicStep

/-- Calls and returns are seen, commits are not. -/
def atomicEvents (s : AtomicState σ ι ο) : AtomicAction ι ο → List (Event ι ο)
  | .call id input => [.call id input]
  | .commit _ _ => []
  | .ret id =>
    match s.status id with
    | .committed _ output => [.ret id output]
    | _ => []

theorem atomicStep_call {M : SeqModel σ ι ο} {s : AtomicState σ ι ο} {id : Nat} (input : ι)
    (idle : s.status id = .idle) :
    M.atomicStep s (.call id input) =
      some { s with status := Function.update s.status id (.called input) } := by
  simp only [SeqModel.atomicStep, idle]

theorem atomicStep_commit {M : SeqModel σ ι ο} {s : AtomicState σ ι ο} {id : Nat} {input : ι}
    {output : ο} (called : s.status id = .called input)
    (accepted : (M.step s.object input output).1 = true) :
    M.atomicStep s (.commit id output) =
      some { status := Function.update s.status id (.committed input output)
             object := (M.step s.object input output).2
             order := s.order ++ [⟨id, input, output⟩] } := by
  simp only [SeqModel.atomicStep, called, accepted, if_true]

theorem atomicStep_ret {M : SeqModel σ ι ο} {s : AtomicState σ ι ο} {id : Nat} {input : ι}
    {output : ο} (committed : s.status id = .committed input output) :
    M.atomicStep s (.ret id) =
      some { s with status := Function.update s.status id (.returned input output) } := by
  simp only [SeqModel.atomicStep, committed]

/-- What a step of the atomic object can be. -/
theorem atomicStep_cases {M : SeqModel σ ι ο} {s s' : AtomicState σ ι ο}
    {a : AtomicAction ι ο} (step : M.atomicStep s a = some s') :
    (∃ id input, a = .call id input ∧ s.status id = .idle ∧
      s' = { s with status := Function.update s.status id (.called input) }) ∨
    (∃ id input output, a = .commit id output ∧ s.status id = .called input ∧
      (M.step s.object input output).1 = true ∧
      s' = { status := Function.update s.status id (.committed input output)
             object := (M.step s.object input output).2
             order := s.order ++ [⟨id, input, output⟩] }) ∨
    (∃ id input output, a = .ret id ∧ s.status id = .committed input output ∧
      s' = { s with status := Function.update s.status id (.returned input output) }) := by
  cases a with
  | call id input =>
    simp only [SeqModel.atomicStep] at step
    split at step
    · exact Or.inl ⟨id, input, rfl, ‹_›, (Option.some.inj step).symm⟩
    · exact absurd step (by simp)
  | commit id output =>
    simp only [SeqModel.atomicStep] at step
    split at step
    · rename_i input called
      split at step
      · exact Or.inr (Or.inl ⟨id, input, output, rfl, called, ‹_›, (Option.some.inj step).symm⟩)
      · exact absurd step (by simp)
    · exact absurd step (by simp)
  | ret id =>
    simp only [SeqModel.atomicStep] at step
    split at step
    · rename_i input output committed
      exact Or.inr (Or.inr ⟨id, input, output, rfl, committed, (Option.some.inj step).symm⟩)
    · exact absurd step (by simp)

/-- The operation took effect: its status carries the output it was given. -/
def Status.Effective (st : Status ι ο) (input : ι) (output : ο) : Prop :=
  st = .committed input output ∨ st = .returned input output

/-- What holds of the history shown so far and the state of the atomic object. -/
structure AtomicInv (M : SeqModel σ ι ο) (history : List (Event ι ο))
    (s : AtomicState σ ι ο) : Prop where
  effective : ∀ id input output,
    (s.status id).Effective input output ↔ ⟨id, input, output⟩ ∈ s.order
  nodup : (s.order.map Operation.id).Nodup
  replayed : M.replay M.init s.order = some s.object
  shown : ∀ id input, Event.call id input ∈ history ↔
    s.status id = .called input ∨ ∃ output, (s.status id).Effective input output
  returned : ∀ id output, Event.ret id output ∈ history →
    ∃ input, s.status id = .returned input output
  realTime : ∀ a ∈ s.order, ∀ b ∈ s.order, ∀ output input,
    Precedes history (.ret a.id output) (.call b.id input) → Precedes s.order a b

theorem atomicInv_init (M : SeqModel σ ι ο) : AtomicInv M [] M.atomic.init where
  effective := by simp [SeqModel.atomic, Status.Effective]
  nodup := by simp [SeqModel.atomic]
  replayed := rfl
  shown := by simp [SeqModel.atomic, Status.Effective]
  returned := by simp
  realTime := by simp [SeqModel.atomic]

/-- An operation that took effect is in the order only once. -/
theorem AtomicInv.notMem_order {M : SeqModel σ ι ο} {history : List (Event ι ο)}
    {s : AtomicState σ ι ο} (inv : AtomicInv M history s) {id : Nat}
    (none : ∀ input output, ¬ (s.status id).Effective input output) :
    ∀ op ∈ s.order, op.id ≠ id := by
  rintro ⟨other, input, output⟩ member rfl
  exact none input output ((inv.effective other input output).mpr member)

/-- A call is appended to the history; nothing of the order is called by it. -/
theorem AtomicInv.call {M : SeqModel σ ι ο} {history : List (Event ι ο)}
    {s : AtomicState σ ι ο} (inv : AtomicInv M history s) {id : Nat} {input : ι}
    (idle : s.status id = .idle) :
    AtomicInv M (history ++ [.call id input])
      { s with status := Function.update s.status id (.called input) } := by
  have absent : ∀ op ∈ s.order, op.id ≠ id :=
    inv.notMem_order (by simp [idle, Status.Effective])
  refine ⟨?_, inv.nodup, inv.replayed, ?_, ?_, ?_⟩
  · intro other i o
    by_cases same : other = id
    · subst same
      have unordered : (⟨other, i, o⟩ : Operation ι ο) ∉ s.order := fun m => absent _ m rfl
      simp [Status.Effective, unordered]
    · simpa [Function.update_of_ne same] using inv.effective other i o
  · intro other i
    by_cases same : other = id
    · subst same
      have uncalled := inv.shown other i
      simp [idle, Status.Effective] at uncalled
      simp [uncalled, Status.Effective, eq_comm]
    · simpa [Function.update_of_ne same, same] using inv.shown other i
  · intro other o member
    have earlier : Event.ret other o ∈ history := by simpa using member
    obtain ⟨i, isReturned⟩ := inv.returned other o earlier
    have different : other ≠ id := by
      rintro rfl
      simp [idle] at isReturned
    exact ⟨i, by simpa [Function.update_of_ne different] using isReturned⟩
  · intro a ha b hb o i before
    rcases precedes_concat_iff.mp before with earlier | ⟨-, last⟩
    · exact inv.realTime a ha b hb o i earlier
    · -- the call is the new one, but its operation is not yet in the order
      injection last with sameId
      exact absurd sameId (absent b hb)

/-- An operation takes effect: it goes to the end of the order, after every
operation that returned before it was called. -/
theorem AtomicInv.commit {M : SeqModel σ ι ο} {history : List (Event ι ο)}
    {s : AtomicState σ ι ο} (inv : AtomicInv M history s) {id : Nat} {input : ι} {output : ο}
    (called : s.status id = .called input) (accepted : (M.step s.object input output).1 = true) :
    AtomicInv M history
      { status := Function.update s.status id (.committed input output)
        object := (M.step s.object input output).2
        order := s.order ++ [⟨id, input, output⟩] } := by
  have absent : ∀ op ∈ s.order, op.id ≠ id :=
    inv.notMem_order (by simp [called, Status.Effective])
  refine ⟨?_, ?_, ?_, ?_, ?_, ?_⟩
  · intro other i o
    by_cases same : other = id
    · subst same
      have unordered : (⟨other, i, o⟩ : Operation ι ο) ∉ s.order := fun m => absent _ m rfl
      simp [Status.Effective, unordered, eq_comm]
    · simpa [Function.update_of_ne same, same] using inv.effective other i o
  · simp only [List.map_append, List.map_cons, List.map_nil]
    refine List.nodup_append.mpr ⟨inv.nodup, by simp, ?_⟩
    intro x member y last
    obtain ⟨op, inOrder, rfl⟩ := List.mem_map.mp member
    rw [List.mem_singleton.mp last]
    exact absent op inOrder
  · simp [SeqModel.replay_append, inv.replayed, SeqModel.replay, accepted]
  · intro other i
    rw [inv.shown other i]
    by_cases same : other = id
    · subst same
      simp [called, Status.Effective, eq_comm]
    · simp [Function.update_of_ne same]
  · intro other o member
    obtain ⟨i, isReturned⟩ := inv.returned other o member
    have different : other ≠ id := by
      rintro rfl
      simp [called] at isReturned
    exact ⟨i, by simpa [Function.update_of_ne different] using isReturned⟩
  · intro a ha b hb o i before
    -- the first of the two has returned, so it is not the operation taking effect now
    obtain ⟨_, isReturned⟩ := inv.returned a.id o before.mem_left
    have different : a.id ≠ id := by
      intro same
      simp [same, called] at isReturned
    have inOrder : a ∈ s.order := by
      rcases List.mem_append.mp ha with old | new
      · exact old
      · exact absurd (congrArg Operation.id (List.mem_singleton.mp new)) different
    rcases List.mem_append.mp hb with old | new
    · exact (inv.realTime a inOrder b old o i before).append _
    · exact precedes_concat_iff.mpr (Or.inr ⟨inOrder, List.mem_singleton.mp new⟩)

/-- A return is appended to the history; a return precedes no earlier call. -/
theorem AtomicInv.ret {M : SeqModel σ ι ο} {history : List (Event ι ο)}
    {s : AtomicState σ ι ο} (inv : AtomicInv M history s) {id : Nat} {input : ι} {output : ο}
    (committed : s.status id = .committed input output) :
    AtomicInv M (history ++ [.ret id output])
      { s with status := Function.update s.status id (.returned input output) } := by
  refine ⟨?_, inv.nodup, inv.replayed, ?_, ?_, ?_⟩
  · intro other i o
    rw [← inv.effective other i o]
    by_cases same : other = id
    · subst same
      simp [committed, Status.Effective]
    · simp [Function.update_of_ne same]
  · intro other i
    have unchanged := inv.shown other i
    by_cases same : other = id
    · subst same
      simpa [committed, Status.Effective] using unchanged
    · simpa [Function.update_of_ne same] using unchanged
  · intro other o member
    by_cases same : other = id
    · subst same
      have isOutput : o = output := by
        rcases List.mem_append.mp member with old | new
        · obtain ⟨i, isReturned⟩ := inv.returned other o old
          simp [committed] at isReturned
        · simpa using new
      exact ⟨input, by simp [isOutput]⟩
    · have earlier : Event.ret other o ∈ history := by simpa [same] using member
      obtain ⟨i, isReturned⟩ := inv.returned other o earlier
      exact ⟨i, by simpa [Function.update_of_ne same] using isReturned⟩
  · intro a ha b hb o i before
    rcases precedes_concat_iff.mp before with earlier | ⟨-, last⟩
    · exact inv.realTime a ha b hb o i earlier
    · exact absurd last (by simp)

/-- The invariant of the atomic object holds along every run. -/
theorem atomicInv_run {M : SeqModel σ ι ο} {as : List (AtomicAction ι ο)}
    {s : AtomicState σ ι ο} (run : M.atomic.Run as s) :
    AtomicInv M (M.atomic.trace atomicEvents as) s := by
  refine System.run_induction
    (P := fun as s => AtomicInv M (M.atomic.trace atomicEvents as) s) (atomicInv_init M) ?_ run
  intro as s a s' earlier inv stepped
  rw [System.trace_snoc atomicEvents earlier stepped]
  obtain ⟨id, input, rfl, idle, rfl⟩ | ⟨id, input, output, rfl, called, accepted, rfl⟩ |
    ⟨id, input, output, rfl, committed, rfl⟩ := atomicStep_cases stepped
  · exact inv.call idle
  · simpa [atomicEvents] using inv.commit called accepted
  · simpa [atomicEvents, committed] using inv.ret committed

/-- Every history of the atomic object is linearizable, in the order in which its
operations took effect. -/
theorem atomic_linearizable {M : SeqModel σ ι ο} {as : List (AtomicAction ι ο)}
    {s : AtomicState σ ι ο} (run : M.atomic.Run as s) :
    LinearizedBy M (M.atomic.trace atomicEvents as) s.order := by
  have inv := atomicInv_run run
  refine ⟨inv.nodup, ?_, ?_, ⟨s.object, inv.replayed⟩, inv.realTime⟩
  · intro op member
    exact (inv.shown op.id op.input).mpr
      (Or.inr ⟨op.output, (inv.effective op.id op.input op.output).mpr member⟩)
  · intro id output member
    obtain ⟨input, isReturned⟩ := inv.returned id output member
    exact ⟨⟨id, input, output⟩, (inv.effective id input output).mp (Or.inr isReturned), rfl, rfl⟩

end Col733

import Col733.Misc.Linearizable

/-!
# Wider histories

A client that writes down a call before it makes it, and a return after it has got it, sees
its operations last longer than they do. Such a wider history is linearizable in every order
in which the narrower one is: what does not overlap there did not overlap here. The operations
have names of their own in the wider history, and some of those of the narrower one may be
missing in it, if they took effect before all others.
-/

namespace Col733

variable {σ ι ο : Type}

/-- In `wide` the operation `inner id` of `history` is called `id`: it is called there no later,
and returns there no earlier. -/
structure Widens (inner : Nat → Nat) (history wide : List (Event ι ο)) : Prop where
  called : ∀ id input, Event.call (inner id) input ∈ history → Event.call id input ∈ wide
  returned : ∀ id output, Event.ret id output ∈ wide → Event.ret (inner id) output ∈ history
  order : ∀ a b output input input', Precedes wide (.ret a output) (.call b input) →
    Event.call (inner b) input' ∈ history →
      Precedes history (.ret (inner a) output) (.call (inner b) input')

namespace Widens

variable {inner : Nat → Nat} {history wide : List (Event ι ο)} {id : Nat} {input : ι} {output : ο}

theorem nil (inner : Nat → Nat) : Widens inner ([] : List (Event ι ο)) [] where
  called _ _ member := by cases member
  returned _ _ member := by cases member
  order _ _ _ _ _ _ member := by cases member

/-- A call is shown, before it is made. -/
theorem showCall (widens : Widens inner history wide)
    (fresh : ∀ input', Event.call (inner id) input' ∉ history) :
    Widens inner history (wide ++ [.call id input]) where
  called other input' member := List.mem_append_left _ (widens.called other input' member)
  returned other output member := by
    rcases List.mem_append.mp member with old | new
    · exact widens.returned other output old
    · cases List.mem_singleton.mp new
  order a b output' _ input' before member := by
    rcases precedes_concat_iff.mp before with old | ⟨-, new⟩
    · exact widens.order a b output' _ input' old member
    · cases new
      exact absurd member (fresh input')

/-- A return is shown, after it has come. -/
theorem showRet (widens : Widens inner history wide)
    (done : Event.ret (inner id) output ∈ history) :
    Widens inner history (wide ++ [.ret id output]) where
  called other input' member := List.mem_append_left _ (widens.called other input' member)
  returned other output' member := by
    rcases List.mem_append.mp member with old | new
    · exact widens.returned other output' old
    · cases List.mem_singleton.mp new
      exact done
  order a b output' _ input' before member := by
    rcases precedes_concat_iff.mp before with old | ⟨-, new⟩
    · exact widens.order a b output' _ input' old member
    · cases new

/-- A call is made that has been shown, or that is not shown. -/
theorem call (widens : Widens inner history wide)
    (shown : ∀ other, inner other = id → Event.call other input ∈ wide) :
    Widens inner (history ++ [.call id input]) wide where
  called other input' member := by
    rcases List.mem_append.mp member with old | new
    · exact widens.called other input' old
    · cases List.mem_singleton.mp new
      exact shown other rfl
  returned other output' member := List.mem_append_left _ (widens.returned other output' member)
  order a b output' _ input' before member := by
    rcases List.mem_append.mp member with old | new
    · exact (widens.order a b output' _ input' before old).append _
    · rw [List.mem_singleton.mp new]
      exact precedes_concat_iff.mpr (.inr ⟨widens.returned a output' before.mem_left, rfl⟩)

/-- An operation returns. -/
theorem ret (widens : Widens inner history wide) :
    Widens inner (history ++ [.ret id output]) wide where
  called other input' member := by
    rcases List.mem_append.mp member with old | new
    · exact widens.called other input' old
    · cases List.mem_singleton.mp new
  returned other output' member := List.mem_append_left _ (widens.returned other output' member)
  order a b output' _ input' before member := by
    rcases List.mem_append.mp member with old | new
    · exact (widens.order a b output' _ input' before old).append _
    · cases List.mem_singleton.mp new

end Widens

/-! ## Orders -/

/-- The operation under another name. -/
def Operation.rename (name : Nat → Nat) (op : Operation ι ο) : Operation ι ο :=
  { op with id := name op.id }

@[simp] theorem Operation.rename_id (name : Nat → Nat) (op : Operation ι ο) :
    (op.rename name).id = name op.id := rfl

/-- The model does not see the names. -/
theorem SeqModel.replay_rename (M : SeqModel σ ι ο) (name : Nat → Nat) (s : σ)
    (ops : List (Operation ι ο)) :
    M.replay s (ops.map (Operation.rename name)) = M.replay s ops := by
  induction ops generalizing s with
  | nil => rfl
  | cons op ops ih =>
    simp only [List.map_cons, replay, ih]
    rfl

/-- What precedes behind a front that it is not in precedes in the rest. -/
theorem Precedes.of_append {α : Type} {front rest : List α} {x y : α}
    (before : Precedes (front ++ rest) x y) (outside : x ∉ front) : Precedes rest x y := by
  induction front with
  | nil => exact before
  | cons z front ih =>
    have other : x ≠ z := fun same => outside (same ▸ List.mem_cons_self)
    refine ih ?_ fun member => outside (List.mem_cons_of_mem z member)
    rcases List.sublist_cons_iff.mp before with later | ⟨r, first, -⟩
    · exact later
    · exact absurd (List.head_eq_of_cons_eq first) other

/-- An element that precedes all others is the first. -/
theorem exists_eq_cons {α : Type} {l : List α} {x : α} (nodup : l.Nodup) (member : x ∈ l)
    (first : ∀ y ∈ l, y ≠ x → Precedes l x y) : ∃ rest, l = x :: rest := by
  cases l with
  | nil => cases member
  | cons y rest =>
    by_cases same : y = x
    · exact ⟨rest, by rw [same]⟩
    · have before := first y List.mem_cons_self same
      have absent := (List.nodup_cons.mp nodup).1
      have outside : x ∉ [y] := by simpa using Ne.symm same
      have behind : Precedes rest x y := Precedes.of_append (show Precedes ([y] ++ rest) x y from before)
        outside
      exact absurd (behind.subset (by simp)) absent

/-- A wider history is linearizable in the order of the narrower one, from which the operations
of a front that it does not show may be left out. -/
theorem LinearizedBy.widen {σ' : Type} {M : SeqModel σ ι ο} {N : SeqModel σ' ι ο}
    {inner outer : Nat → Nat} {history wide : List (Event ι ο)} {front ops : List (Operation ι ο)}
    (lin : LinearizedBy M history (front ++ ops)) (widens : Widens inner history wide)
    (named : ∀ op ∈ ops, inner (outer op.id) = op.id) (names : ∀ id, outer (inner id) = id)
    (hidden : ∀ op ∈ front, ∀ id, op.id ≠ inner id)
    (legal : ∃ final, N.replay N.init ops = some final) :
    LinearizedBy N wide (ops.map (Operation.rename outer)) where
  nodup := by
    have distinct : (ops.map Operation.id).Nodup := by
      refine lin.nodup.sublist ?_
      rw [List.map_append]
      exact List.sublist_append_right _ _
    have same : (ops.map (Operation.rename outer)).map Operation.id =
        (ops.map Operation.id).map outer := by
      rw [List.map_map, List.map_map]
      rfl
    rw [same]
    refine distinct.map_on fun a memberA b memberB equal => ?_
    obtain ⟨x, inX, rfl⟩ := List.mem_map.mp memberA
    obtain ⟨y, inY, rfl⟩ := List.mem_map.mp memberB
    rw [← named x inX, ← named y inY, equal]
  called op member := by
    obtain ⟨x, inX, rfl⟩ := List.mem_map.mp member
    refine widens.called (outer x.id) x.input ?_
    rw [named x inX]
    exact lin.called x (List.mem_append_right _ inX)
  completed id output member := by
    obtain ⟨op, inOrder, isInner, rfl⟩ := lin.completed _ _ (widens.returned id output member)
    rcases List.mem_append.mp inOrder with early | late
    · exact absurd isInner (hidden op early id)
    · refine ⟨op.rename outer, List.mem_map_of_mem late, ?_, rfl⟩
      rw [Operation.rename_id, isInner, names]
  legal := by
    rw [SeqModel.replay_rename]
    exact legal
  realTime a inA b inB output input before := by
    obtain ⟨x, inX, rfl⟩ := List.mem_map.mp inA
    obtain ⟨y, inY, rfl⟩ := List.mem_map.mp inB
    have calledY : Event.call (inner (outer y.id)) y.input ∈ history := by
      rw [named y inY]
      exact lin.called y (List.mem_append_right _ inY)
    have earlier := widens.order _ _ _ _ _ before calledY
    rw [Operation.rename_id, named x inX] at earlier
    rw [Operation.rename_id, named y inY] at earlier
    have ordered := lin.realTime x (List.mem_append_right _ inX) y (List.mem_append_right _ inY)
      _ _ earlier
    have outside : x ∉ front := fun early => hidden x early (outer x.id) (named x inX).symm
    exact (ordered.of_append outside).map (Operation.rename outer)

end Col733

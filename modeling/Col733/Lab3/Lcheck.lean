import Col733.Misc.Dict
import Col733.Misc.Linearizable

/-!
# The sequential model of the linearizability checker

`crModel` of `lcheck/main.go`. A put stores; a get returns the value stored last,
and `"0"` for a key that was never put.
-/

namespace Col733.Lab3

/-- `crInputOutput`: `op` is true for a put. -/
structure CrInputOutput where
  op : Bool
  key : String
  value : String
  deriving DecidableEq, Repr

/-- `crModel`, with its `Init` and its `Step`. -/
def crModel : SeqModel (Dict String String) CrInputOutput CrInputOutput where
  init := Dict.empty
  step m input output :=
    if input.op then (true, m.set input.key input.value)
    else
      match m.get? output.key with
      | some val => (decide (val = output.value), m)
      | none => (decide (output.value = "0"), m)

/-- The map without the default: a get of a key that was never put is refused, and
so is an output about another key. -/
def mapModel : SeqModel (Dict String String) CrInputOutput CrInputOutput where
  init := Dict.empty
  step m input output :=
    if input.op then (true, m.set input.key input.value)
    else (decide (output.key = input.key ∧ m.get? input.key = some output.value), m)

/-- What the map accepts, the checker's model accepts, with the same map after it. -/
theorem crModel_of_mapModel (m m' : Dict String String) (input output : CrInputOutput)
    (same : m = m') (accepted : (mapModel.step m input output).1 = true) :
    (crModel.step m' input output).1 = true ∧
      (mapModel.step m input output).2 = (crModel.step m' input output).2 := by
  subst same
  by_cases put : input.op = true
  · simp [mapModel, crModel, put]
  · simp only [mapModel, if_neg put, decide_eq_true_eq] at accepted
    obtain ⟨sameKey, held⟩ := accepted
    simp [mapModel, crModel, put, sameKey, held]

/-- The value of the last put of the key, if there is one. -/
def lastPut (key : String) (ops : List (Operation CrInputOutput CrInputOutput)) :
    Option String :=
  ((ops.filter fun op => op.input.op && op.input.key == key).getLast?).map (·.input.value)

/-- The map holds the value of the last put of every key. -/
theorem mapModel_replay_get? {ops : List (Operation CrInputOutput CrInputOutput)}
    {m : Dict String String} (accepted : mapModel.replay mapModel.init ops = some m)
    (key : String) : m.get? key = lastPut key ops := by
  induction ops using List.reverseRecOn generalizing m with
  | nil =>
    have start : mapModel.init = m := Option.some.inj accepted
    rw [← start]
    rfl
  | append_singleton ops op ih =>
    rw [SeqModel.replay_append] at accepted
    obtain ⟨before, earlier, last⟩ := Option.bind_eq_some_iff.mp accepted
    have held := ih earlier
    simp only [SeqModel.replay] at last
    split at last
    · have after : (mapModel.step before op.input op.output).2 = m := Option.some.inj last
      rw [← after]
      by_cases put : op.input.op = true
      · by_cases here : key = op.input.key
        · simp [mapModel, put, here, lastPut, List.filter_append]
        · have other : ¬ op.input.key = key := fun h => here h.symm
          simpa [mapModel, put, here, lastPut, List.filter_append, other] using held
      · simpa [mapModel, put, lastPut, List.filter_append] using held
    · exact absurd last (by simp)

/-- Along a sequence that the map accepts, every get returns the value of the last
put of its key. -/
theorem mapModel_get_lastPut {ops pre post : List (Operation CrInputOutput CrInputOutput)}
    {op : Operation CrInputOutput CrInputOutput} {m : Dict String String}
    (accepted : mapModel.replay mapModel.init ops = some m) (split_ : ops = pre ++ op :: post)
    (get : op.input.op = false) : lastPut op.input.key pre = some op.output.value := by
  rw [split_, SeqModel.replay_append] at accepted
  obtain ⟨before, earlier, rest⟩ := Option.bind_eq_some_iff.mp accepted
  rw [← mapModel_replay_get? earlier]
  simp only [SeqModel.replay] at rest
  split at rest
  · rename_i fits
    simp only [mapModel, get, Bool.false_eq_true, if_false, decide_eq_true_eq] at fits
    exact fits.2
  · exact absurd rest (by simp)

end Col733.Lab3

import Mathlib.Data.List.Induction
import Mathlib.Logic.Basic
import Mathlib.Logic.Function.Basic

/-!
# Executable transition systems

A `System` is an initial state with a guarded step function: `step s a` is
`none` where the action `a` is not enabled in `s`. All the nondeterminism of a
modelled program (which thread moves, which socket it takes, what the network
does) is in the choice of the action, so a run is a list of actions and the
same definition replays a schedule and carries the proofs about every one.

The rules are those a safety argument needs: one induction over runs, one for
runs whose steps all meet a condition, the events that a run shows to an
observer, forward simulation between two systems, and what holds at every place
of a state when one place moves.
-/

namespace Col733

/-- A labelled transition system with an executable step. -/
structure System (σ α : Type) where
  init : σ
  step : σ → α → Option σ

namespace System

variable {σ τ α β ε : Type}

/-- The state after performing the actions from `s`, if all are enabled. -/
def runFrom (S : System σ α) : σ → List α → Option σ
  | s, [] => some s
  | s, a :: as => (S.step s a).bind fun next => S.runFrom next as

/-- `S.Run as s`: the schedule `as` is a run of the system and it ends in `s`. -/
def Run (S : System σ α) (as : List α) (s : σ) : Prop :=
  S.runFrom S.init as = some s

@[simp] theorem runFrom_nil (S : System σ α) (s : σ) : S.runFrom s [] = some s := rfl

@[simp] theorem runFrom_cons (S : System σ α) (s : σ) (a : α) (as : List α) :
    S.runFrom s (a :: as) = (S.step s a).bind fun next => S.runFrom next as := rfl

theorem runFrom_singleton (S : System σ α) (s : σ) (a : α) : S.runFrom s [a] = S.step s a := by
  simp only [runFrom_cons, runFrom_nil, Option.bind_fun_some]

theorem runFrom_append (S : System σ α) (s : σ) (as bs : List α) :
    S.runFrom s (as ++ bs) = (S.runFrom s as).bind fun middle => S.runFrom middle bs := by
  induction as generalizing s with
  | nil => rfl
  | cons a as ih =>
    simp only [List.cons_append, runFrom_cons, Option.bind_assoc]
    congr 1
    funext next
    exact ih next

theorem run_nil (S : System σ α) : S.Run [] S.init := rfl

/-- A run is extended at its end by one enabled action. -/
theorem run_snoc_iff (S : System σ α) (as : List α) (a : α) (s' : σ) :
    S.Run (as ++ [a]) s' ↔ ∃ s, S.Run as s ∧ S.step s a = some s' := by
  simp only [Run, runFrom_append, runFrom_cons, runFrom_nil, Option.bind_fun_some]
  exact Option.bind_eq_some_iff

theorem Run.snoc {S : System σ α} {as : List α} {s s' : σ} {a : α}
    (run : S.Run as s) (step : S.step s a = some s') : S.Run (as ++ [a]) s' :=
  (S.run_snoc_iff as a s').mpr ⟨s, run, step⟩

/-- The induction over runs: a property of schedule and state that holds at the
start and survives every enabled action holds of every run. -/
theorem run_induction {S : System σ α} {P : List α → σ → Prop} (init : P [] S.init)
    (step : ∀ as s a s', S.Run as s → P as s → S.step s a = some s' → P (as ++ [a]) s')
    {as : List α} {s : σ} (run : S.Run as s) : P as s := by
  induction as using List.reverseRecOn generalizing s with
  | nil =>
    have start : S.init = s := Option.some.inj run
    exact start ▸ init
  | append_singleton as a ih =>
    obtain ⟨before, earlier, last⟩ := (S.run_snoc_iff as a s).mp run
    exact step as before a s earlier (ih earlier) last

/-- An invariant of the states: the schedule is not mentioned. -/
theorem run_invariant {S : System σ α} {P : σ → Prop} (init : P S.init)
    (step : ∀ s a s', P s → S.step s a = some s' → P s')
    {as : List α} {s : σ} (run : S.Run as s) : P s :=
  run_induction (P := fun _ s => P s) init (fun _ s a s' _ holds => step s a s' holds) run

/-! ## Runs whose steps all meet a condition -/

/-- Every action of the schedule meets `C` in the state before it. -/
def MeetsFrom (S : System σ α) (C : σ → α → Prop) : σ → List α → Prop
  | _, [] => True
  | s, a :: as => C s a ∧ ∀ next, S.step s a = some next → S.MeetsFrom C next as

/-- Every step of the run `as` meets the condition `C`. -/
def Meets (S : System σ α) (C : σ → α → Prop) (as : List α) : Prop :=
  S.MeetsFrom C S.init as

instance decidableMeetsFrom (S : System σ α) (C : σ → α → Prop) [∀ s a, Decidable (C s a)] :
    ∀ s as, Decidable (S.MeetsFrom C s as)
  | _, [] => isTrue trivial
  | s, a :: as =>
    match stepped : S.step s a with
    | none => decidable_of_iff (C s a) (by simp [MeetsFrom, stepped])
    | some next =>
      have := decidableMeetsFrom S C next as
      decidable_of_iff (C s a ∧ S.MeetsFrom C next as) (by simp [MeetsFrom, stepped])

instance (S : System σ α) (C : σ → α → Prop) [∀ s a, Decidable (C s a)] (as : List α) :
    Decidable (S.Meets C as) :=
  decidableMeetsFrom S C S.init as

/-- A step that meets the condition, before actions that meet it. -/
theorem meetsFrom_cons {S : System σ α} {C : σ → α → Prop} {s next : σ} {a : α} {as : List α}
    (step : S.step s a = some next) (met : C s a) (rest : S.MeetsFrom C next as) :
    S.MeetsFrom C s (a :: as) := by
  refine ⟨met, fun other stepped => ?_⟩
  rw [step] at stepped
  exact Option.some.inj stepped ▸ rest

/-- A run that meets a condition meets every weaker one. -/
theorem MeetsFrom.imp {S : System σ α} {C D : σ → α → Prop} (weaker : ∀ s a, C s a → D s a)
    {s : σ} {as : List α} (meets : S.MeetsFrom C s as) : S.MeetsFrom D s as := by
  induction as generalizing s with
  | nil => trivial
  | cons a as ih => exact ⟨weaker s a meets.1, fun next step => ih (meets.2 next step)⟩

/-- Conditions that agree on every step are met by the same schedules. -/
theorem meetsFrom_congr {S : System σ α} {C D : σ → α → Prop} (same : ∀ s a, C s a ↔ D s a)
    {s : σ} {as : List α} : S.MeetsFrom C s as ↔ S.MeetsFrom D s as :=
  ⟨MeetsFrom.imp fun s a => (same s a).mp, MeetsFrom.imp fun s a => (same s a).mpr⟩

/-- Actions that meet the condition in every state. -/
theorem meetsFrom_of_forall {S : System σ α} {C : σ → α → Prop} {as : List α}
    (all : ∀ a ∈ as, ∀ s, C s a) (s : σ) : S.MeetsFrom C s as := by
  induction as generalizing s with
  | nil => trivial
  | cons a as ih =>
    refine ⟨all a List.mem_cons_self s, fun next _ => ih ?_ next⟩
    exact fun b later => all b (List.mem_cons_of_mem a later)

theorem meetsFrom_append {S : System σ α} {C : σ → α → Prop} {s middle : σ} {as bs : List α}
    (reached : S.runFrom s as = some middle) (meets : S.MeetsFrom C s (as ++ bs)) :
    S.MeetsFrom C s as ∧ S.MeetsFrom C middle bs := by
  induction as generalizing s with
  | nil =>
    have start : s = middle := Option.some.inj reached
    exact ⟨trivial, start ▸ meets⟩
  | cons a as ih =>
    obtain ⟨next, first, rest⟩ := Option.bind_eq_some_iff.mp reached
    obtain ⟨met, later⟩ := meets
    obtain ⟨front, back⟩ := ih rest (later next first)
    refine ⟨⟨met, fun other stepped => ?_⟩, back⟩
    rw [first] at stepped
    exact Option.some.inj stepped ▸ front

theorem meets_snoc {S : System σ α} {C : σ → α → Prop} {as : List α} {a : α} {s : σ}
    (run : S.Run as s) (meets : S.Meets C (as ++ [a])) : S.Meets C as ∧ C s a := by
  obtain ⟨front, back⟩ := meetsFrom_append run meets
  exact ⟨front, back.1⟩

/-- A run whose steps meet `C` goes on with steps that meet it. -/
theorem Meets.append {S : System σ α} {C : σ → α → Prop} {as bs : List α} {s : σ}
    (run : S.Run as s) (meets : S.Meets C as) (later : S.MeetsFrom C s bs) :
    S.Meets C (as ++ bs) := by
  suffices extend : ∀ start, S.runFrom start as = some s → S.MeetsFrom C start as →
      S.MeetsFrom C start (as ++ bs) from extend S.init run meets
  clear run meets
  induction as with
  | nil =>
    intro start reached _
    cases reached
    exact later
  | cons a as ih =>
    intro start reached meets
    obtain ⟨next, first, rest⟩ := Option.bind_eq_some_iff.mp reached
    exact meetsFrom_cons first meets.1 (ih next rest (meets.2 next first))

theorem Meets.snoc {S : System σ α} {C : σ → α → Prop} {as : List α} {a : α} {s s' : σ}
    (run : S.Run as s) (meets : S.Meets C as) (met : C s a) (step : S.step s a = some s') :
    S.Meets C (as ++ [a]) :=
  meets.append run (meetsFrom_cons step met trivial)

/-- The induction over the runs whose steps all meet `C`. -/
theorem meets_induction {S : System σ α} {C : σ → α → Prop} {P : List α → σ → Prop}
    (init : P [] S.init)
    (step : ∀ as s a s', S.Run as s → P as s → C s a → S.step s a = some s' → P (as ++ [a]) s')
    {as : List α} {s : σ} (run : S.Run as s) (meets : S.Meets C as) : P as s := by
  refine run_induction (P := fun as s => S.Meets C as → P as s) (fun _ => init) ?_ run meets
  intro as s a s' earlier holds stepped met
  obtain ⟨front, last⟩ := meets_snoc earlier met
  exact step as s a s' earlier (holds front) last stepped

/-! ## Runs without some of their actions -/

/-- The actions that are not kept do not matter for what `R` relates, if the kept ones can be
done without them: then the kept actions alone are a run, and it ends in a related state. -/
theorem run_filter {S : System σ α} {C : σ → α → Prop} {keep : α → Bool} {R : σ → σ → Prop}
    (init : R S.init S.init)
    (kept : ∀ as s t a s', S.Run as s → R s t → C s a → keep a = true → S.step s a = some s' →
      ∃ t', S.step t a = some t' ∧ R s' t')
    (skipped : ∀ as s t a s', S.Run as s → R s t → C s a → keep a = false →
      S.step s a = some s' → R s' t)
    {as : List α} {s : σ} (run : S.Run as s) (meets : S.Meets C as) :
    ∃ t, S.Run (as.filter keep) t ∧ R s t := by
  refine meets_induction (P := fun as s => ∃ t, S.Run (as.filter keep) t ∧ R s t)
    ⟨S.init, S.run_nil, init⟩ ?_ run meets
  rintro as s a s' earlier ⟨t, before, related⟩ met stepped
  rw [List.filter_append]
  cases keeps : keep a with
  | true =>
    obtain ⟨t', stepped', related'⟩ := kept as s t a s' earlier related met keeps stepped
    rw [List.filter_cons_of_pos keeps, List.filter_nil]
    exact ⟨t', before.snoc stepped', related'⟩
  | false =>
    rw [List.filter_cons_of_neg (by simp [keeps]), List.filter_nil, List.append_nil]
    exact ⟨t, before, skipped as s t a s' earlier related met keeps stepped⟩

/-! ## What a run shows -/

/-- The events a run shows, where `obs s a` is what the action `a` shows when it
is performed in `s`. -/
def observeFrom (S : System σ α) (obs : σ → α → List ε) : σ → List α → List ε
  | _, [] => []
  | s, a :: as =>
    match S.step s a with
    | none => []
    | some next => obs s a ++ S.observeFrom obs next as

/-- The events shown by a run from the initial state. -/
def trace (S : System σ α) (obs : σ → α → List ε) (as : List α) : List ε :=
  S.observeFrom obs S.init as

theorem observeFrom_append {S : System σ α} (obs : σ → α → List ε) {s middle : σ}
    {as : List α} (reached : S.runFrom s as = some middle) (bs : List α) :
    S.observeFrom obs s (as ++ bs) = S.observeFrom obs s as ++ S.observeFrom obs middle bs := by
  induction as generalizing s with
  | nil =>
    have start : s = middle := Option.some.inj reached
    subst start
    rfl
  | cons a as ih =>
    obtain ⟨next, first, rest⟩ := Option.bind_eq_some_iff.mp reached
    simp only [List.cons_append, observeFrom, first, ih rest, List.append_assoc]

theorem observeFrom_singleton {S : System σ α} (obs : σ → α → List ε) {s s' : σ} {a : α}
    (step : S.step s a = some s') : S.observeFrom obs s [a] = obs s a := by
  simp [observeFrom, step]

theorem trace_append {S : System σ α} (obs : σ → α → List ε) {s : σ} {as : List α}
    (run : S.Run as s) (bs : List α) :
    S.trace obs (as ++ bs) = S.trace obs as ++ S.observeFrom obs s bs :=
  observeFrom_append obs run bs

theorem trace_snoc {S : System σ α} (obs : σ → α → List ε) {s s' : σ} {as : List α} {a : α}
    (run : S.Run as s) (step : S.step s a = some s') :
    S.trace obs (as ++ [a]) = S.trace obs as ++ obs s a := by
  rw [trace_append obs run, observeFrom_singleton obs step]

/-! ## Forward simulation -/

/-- A forward simulation of `C` by `A`: every step of `C` is matched, from related
states, by the steps `abs s a` of `A`, and both show the same events. -/
structure Simulation (C : System σ α) (A : System τ β) (obsC : σ → α → List ε)
    (obsA : τ → β → List ε) where
  rel : σ → τ → Prop
  abs : σ → α → List β
  init : rel C.init A.init
  step : ∀ {s t a s'}, rel s t → C.step s a = some s' →
    ∃ t', A.runFrom t (abs s a) = some t' ∧ rel s' t' ∧
      A.observeFrom obsA t (abs s a) = obsC s a

/-- Every run of the simulated system is matched by a run of the simulating one
that ends in a related state and shows the same events. -/
theorem Simulation.run {C : System σ α} {A : System τ β} {obsC : σ → α → List ε}
    {obsA : τ → β → List ε} (sim : Simulation C A obsC obsA) {as : List α} {s : σ}
    (run : C.Run as s) :
    ∃ bs t, A.Run bs t ∧ sim.rel s t ∧ A.trace obsA bs = C.trace obsC as := by
  refine run_induction
    (P := fun as s => ∃ bs t, A.Run bs t ∧ sim.rel s t ∧ A.trace obsA bs = C.trace obsC as)
    ⟨[], A.init, A.run_nil, sim.init, rfl⟩ ?_ run
  intro as s a s' earlier holds stepped
  obtain ⟨bs, t, matched, related, same⟩ := holds
  obtain ⟨t', moved, related', shown⟩ := sim.step related stepped
  refine ⟨bs ++ sim.abs s a, t', ?_, related', ?_⟩
  · rw [Run, runFrom_append, show A.runFrom A.init bs = some t from matched]
    exact moved
  · rw [trace_append obsA matched, trace_snoc obsC earlier stepped, same, shown]

/-! ## States made of places -/

section Places

variable {ι : Type} [DecidableEq ι]

/-- What holds at every place holds there after one of them has moved. -/
theorem holds_update {P : ι → σ → Prop} {held : ι → σ} {j : ι} {new : σ}
    (before : ∀ i, P i (held i)) (here : P j new) (i : ι) :
    P i (Function.update held j new i) := by
  by_cases same : i = j
  · subst same
    rw [Function.update_self]
    exact here
  · rw [Function.update_of_ne same]
    exact before i

/-- The same for a relation between two states, when both move at one place. -/
theorem related_update {R : ι → σ → τ → Prop} {held : ι → σ} {other : ι → τ} {j : ι} {new : σ}
    {next : τ} (before : ∀ i, R i (held i) (other i)) (here : R j new next) (i : ι) :
    R i (Function.update held j new i) (Function.update other j next i) := by
  by_cases same : i = j
  · subst same
    rw [Function.update_self, Function.update_self]
    exact here
  · rw [Function.update_of_ne same, Function.update_of_ne same]
    exact before i

end Places

end System

end Col733

import Col733.Lab4.Message
import Col733.Misc.JsonStr
import Mathlib.Data.String.Basic

/-!
# `bayou/storage.py` and the log entries of `bayou/app.py`

Logical times, vector times and the state of a `Storage`. `Storage.apply` and
`Storage.anti_entropy` are exercises left to the reader of the repository, so they
are parameters (`Env`), as are the package `sortedcontainers` and the Unicode tables.
-/

namespace Col733.Lab4

/-- A `LogicalTime`, with the types of its annotations. -/
structure LogicalTime where
  name : String
  ts : Int := 0
  deriving DecidableEq, Repr

/-- A `LogicalTime` as `deserialize` builds it from a request: nothing checks that
the name is a string or that the timestamp is a number. -/
structure RawTime where
  name : Json
  ts : Json

/-- A time whose fields have their annotated types. -/
def LogicalTime.raw (l : LogicalTime) : RawTime := { name := .str l.name, ts := .int l.ts }

/-- `LogicalTime.__lt__`, where the fields have their annotated types. -/
def RawTime.lt : RawTime → RawTime → Prop
  | ⟨.str n, .int t⟩, ⟨.str m, .int u⟩ => t < u ∨ (t = u ∧ n < m)
  | _, _ => False

theorem RawTime.lt_asymm {a b : RawTime} (before : a.lt b) : ¬ b.lt a := by
  unfold RawTime.lt at before
  split at before
  · rintro (later | ⟨same, less⟩)
    · omega
    · rcases before with sooner | ⟨_, less'⟩
      · omega
      · exact absurd less (not_lt_of_gt less')
  · exact before.elim

theorem RawTime.lt_irrefl (a : RawTime) : ¬ a.lt a := fun before => RawTime.lt_asymm before before

/-- The same, as it is computed. -/
def RawTime.before : RawTime → RawTime → Bool
  | ⟨.str n, .int t⟩, ⟨.str m, .int u⟩ => decide (t < u) || (decide (t = u) && decide (n < m))
  | _, _ => false

theorem RawTime.before_iff_lt {a b : RawTime} : a.before b = true ↔ a.lt b := by
  unfold RawTime.before RawTime.lt
  split
  · simp
  · simp

theorem LogicalTime.raw_lt_raw {name : String} {t u : Int} :
    (LogicalTime.raw { name, ts := t }).lt (LogicalTime.raw { name, ts := u }) ↔ t < u := by
  simp [LogicalTime.raw, RawTime.lt]

/-- A `VectorTime`: the time known for each server. -/
abbrev VectorTime := Dict String LogicalTime

namespace VectorTime

/-- `VectorTime.__init__`. -/
def ofTimes (times : List LogicalTime) : VectorTime :=
  Dict.ofList (times.map fun t => (t.name, t))

/-- `VectorTime.new`. -/
def new (servers : List String) : VectorTime :=
  ofTimes (servers.map fun s => { name := s })

/-- `__getitem__`. -/
def getItem (v : VectorTime) (server : String) : Except Raised LogicalTime :=
  match v.get? server with
  | some t => .ok t
  | none => .error (.keyError (.str server))

/-- `advance`: it raises when it knows nothing of the server, and when the clock of
the server would go back. The vector is the one that the call leaves behind, either way. -/
def advance (v : VectorTime) (ltime : LogicalTime) : Except Raised Unit × VectorTime :=
  match getItem v ltime.name with
  | .error raised => (.error raised, v)
  | .ok known =>
    if known.ts ≤ ltime.ts then (.ok (), v.set ltime.name ltime)
    else
      (.error (.assertionError
        ("Tried to take " ++ ltime.name ++ " clock backwards from " ++ toString known.ts ++
          " to " ++ toString ltime.ts ++ "!")), v)

/-- Calls of `advance`, one after the other, up to the first one that raises. -/
def advanceAll (v : VectorTime) : List LogicalTime → Except Raised VectorTime
  | [] => .ok v
  | l :: ls =>
    match advance v l with
    | (.ok (), v') => advanceAll v' ls
    | (.error raised, _) => .error raised

/-- `is_ltime_earlier`. -/
def isLtimeEarlier (v : VectorTime) (ltime : LogicalTime) : Except Raised Bool :=
  match getItem v ltime.name with
  | .error raised => .error raised
  | .ok known => .ok (decide (ltime.ts ≤ known.ts))

/-- `for x in xs: if not p(x): return False`, and `return True` after it. -/
def forAll {α : Type} (p : α → Except Raised Bool) : List α → Except Raised Bool
  | [] => .ok true
  | x :: xs =>
    match p x with
    | .error raised => .error raised
    | .ok false => .ok false
    | .ok true => forAll p xs

/-- `is_vtime_earlier`. -/
def isVtimeEarlier (v vtime : VectorTime) : Except Raised Bool :=
  forAll (fun e => isLtimeEarlier v e.2) vtime.entries

/-- `__eq__` for another vector time; both fields of the times are compared. -/
def eq (v other : VectorTime) : Except Raised Bool :=
  forAll (fun e => (getItem other e.1).map fun t => decide (t = e.2)) v.entries

/-- `to_dict`. -/
def toDict (v : VectorTime) : List (String × Json) :=
  v.entries.map fun e => (e.1, .int e.2.ts)

theorem contains_new {servers : List String} {name : String} :
    (new servers).contains name = true ↔ name ∈ servers := by
  rw [new, ofTimes, Dict.contains_ofList]
  simp

theorem getItem_of_contains {v : VectorTime} {server : String}
    (covered : v.contains server = true) : ∃ t, getItem v server = .ok t := by
  obtain ⟨t, found⟩ := Dict.contains_iff_get?.mp covered
  exact ⟨t, by rw [getItem, found]⟩

theorem advance_eq_ok {v v' : VectorTime} {l : LogicalTime}
    (accepted : advance v l = (.ok (), v')) :
    ∃ known, v.get? l.name = some known ∧ known.ts ≤ l.ts ∧ v' = v.set l.name l := by
  unfold advance getItem at accepted
  cases found : v.get? l.name with
  | none =>
    rw [found] at accepted
    cases accepted
  | some known =>
    rw [found] at accepted
    simp only at accepted
    split at accepted
    · cases accepted
      exact ⟨known, rfl, ‹_›, rfl⟩
    · cases accepted

/-- An accepted `advance` adds no server and drops none. -/
theorem contains_advance {v v' : VectorTime} {ltime : LogicalTime}
    (accepted : advance v ltime = (.ok (), v')) (name : String) :
    v'.contains name = v.contains name := by
  obtain ⟨known, found, _, rfl⟩ := advance_eq_ok accepted
  rw [Dict.contains_set]
  by_cases here : name = ltime.name
  · subst here
    simp [Dict.contains, found]
  · simp [here]

end VectorTime

/-- An `AppLogEntry`. Its `char` is what the request held under that key. -/
structure AppLogEntry where
  char : Json
  ltime : RawTime

/-- `LogEntry.__init__`: the time is read out of a message that holds the timestamp first. -/
def LogEntry.ltimeOf (msg : JsonMessage) : Except Raised RawTime := do
  assertThat (msg.contains "ltime") "Set ltime before getting"
  let n ← subscript (← JsonMessage.getItem msg "ltime") 1
  let t ← subscript (← JsonMessage.getItem msg "ltime") 0
  return { name := n, ts := t }

/-- `AppLogEntry.__init__`. -/
def AppLogEntry.init (char : Json) (ltime : RawTime) : Except Raised AppLogEntry := do
  let ltime ← LogEntry.ltimeOf (Dict.ofList [("ltime", .arr [ltime.ts, ltime.name])])
  return { char, ltime }

/-- The two orders of the fields agree: the entry has the time that it is made with. -/
theorem AppLogEntry.init_eq (char : Json) (ltime : RawTime) :
    AppLogEntry.init char ltime = .ok { char, ltime } := rfl

/-- `AppLogEntry.to_dict`; the tuple of `serialize` is written as a list. -/
def AppLogEntry.toDict (e : AppLogEntry) : Json :=
  .obj [("char", e.char), ("ltime", .arr [e.ltime.name, e.ltime.ts]),
    ("req_type", .str "APPEND_CHAR")]

/-- An `AppState`. -/
structure AppState where
  s : String := ""
  deriving DecidableEq, Repr

structure Storage where
  /-- The time up to which the writes are committed. -/
  c : VectorTime
  /-- The time up to which the tentative writes are performed. -/
  f : VectorTime
  committedLog : List AppLogEntry
  tentativeLog : List AppLogEntry
  committedSt : AppState
  tentativeSt : AppState

/-- `Storage.__init__`. -/
def Storage.new (servers : List String) (initState : AppState) : Storage where
  c := VectorTime.new servers
  f := VectorTime.new servers
  committedLog := []
  tentativeLog := []
  committedSt := initState
  tentativeSt := initState

/-- What the modelled code calls and the repository does not hold. A storage
operation returns or raises `AssertionError` with a text, and either way it leaves a
storage behind. -/
structure Env where
  /-- `isprintable` for a character beyond ASCII, by the version of Unicode. -/
  isPrintable : Char → Bool
  apply : Storage → List AppLogEntry → List AppLogEntry → Except String Unit × Storage
  antiEntropy : Storage → VectorTime → VectorTime →
    Except String (List AppLogEntry × List AppLogEntry) × Storage
  /-- `SortedList(entries, key=lambda l: l.ltime)`. -/
  sortedList : List AppLogEntry → Except Raised (List AppLogEntry)

/-- `str` on a JSON value. -/
def Env.str (env : Env) : Json → String := Json.toStr env.isPrintable

namespace Storage

/-- `commit`. -/
def commit (env : Env) (st : Storage) (writes : List AppLogEntry) : Except String Unit × Storage :=
  env.apply st writes []

/-- `tentative`. -/
def tentative (env : Env) (st : Storage) (writes : List AppLogEntry) :
    Except String Unit × Storage :=
  env.apply st [] writes

end Storage

end Col733.Lab4

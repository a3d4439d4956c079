import Col733.Lab3.Lcheck
import Col733.Misc.Pattern

/-!
# Reading the client log

`getWorkerId` and `parseLog` of `lcheck/main.go`, with what they use of `bufio`,
`regexp` and `strconv`. The file is a list of bytes. The classes of the patterns are
ASCII classes, so that a match stands in bytes that are characters of their own, whatever
the rest of the line is.

`os.Exit` is `none`. Not every line is read: a `bufio.Scanner` has room for 65536 bytes,
stops at a line that does not fit with its end, and `parseLog` does not ask it why it
stopped.
-/

namespace Col733.Lab3

/-- The bytes of an ASCII text. -/
def ascii (s : String) : List UInt8 := s.toList.map fun c => c.toNat.toUInt8

/-- The Go string of ASCII bytes. -/
def asString (bytes : List UInt8) : String :=
  String.ofList (bytes.map fun b => Char.ofNat b.toNat)

/-! ## `bufio.Scanner` -/

def newline : UInt8 := 10

def carriageReturn : UInt8 := 13

/-- The lines of a file from `line`, which is read already, on. Behind the last newline
there is a line only if there is a byte. -/
def linesFrom (line : List UInt8) : List UInt8 → List (List UInt8)
  | [] => if line = [] then [] else [line]
  | b :: rest => if b = newline then line :: linesFrom [] rest else linesFrom (line ++ [b]) rest

/-- The lines of a file, without their newlines. -/
def rawLines (file : List UInt8) : List (List UInt8) := linesFrom [] file

theorem linesFrom_append {line rest : List UInt8} (inside : newline ∉ line)
    (front : List UInt8) :
    linesFrom front (line ++ newline :: rest) = (front ++ line) :: rawLines rest := by
  induction line generalizing front with
  | nil => rw [List.nil_append, linesFrom, if_pos rfl, List.append_nil, rawLines]
  | cons b line ih =>
    have first : b ≠ newline := fun same => inside (same ▸ List.mem_cons_self)
    have others : newline ∉ line := fun member => inside (List.mem_cons_of_mem b member)
    rw [List.cons_append, linesFrom, if_neg first, ih others, List.append_assoc,
      List.singleton_append]

/-- A line and its newline in front of a file. -/
theorem rawLines_append {line : List UInt8} (inside : newline ∉ line) (rest : List UInt8) :
    rawLines (line ++ newline :: rest) = line :: rawLines rest :=
  linesFrom_append inside []

/-- What is written line by line has these lines. -/
theorem rawLines_flatMap {lines : List (List UInt8)} (inside : ∀ line ∈ lines, newline ∉ line) :
    rawLines (lines.flatMap fun line => line ++ [newline]) = lines := by
  induction lines with
  | nil => rfl
  | cons line lines ih =>
    rw [List.flatMap_cons, List.append_assoc, List.singleton_append,
      rawLines_append (inside line List.mem_cons_self),
      ih fun other member => inside other (List.mem_cons_of_mem line member)]

/-- `dropCR` of `ScanLines`. -/
def dropCR (line : List UInt8) : List UInt8 :=
  if line.getLast? = some carriageReturn then line.dropLast else line

/-- `MaxScanTokenSize`, in which the end of the line is included. -/
def maxScanTokenSize : Nat := 65536

/-- The texts of a `Scanner` over the file: `Scan` returns false at the first line that
is too long. -/
def scan (file : List UInt8) : List (List UInt8) :=
  ((rawLines file).takeWhile fun line => decide (line.length < maxScanTokenSize)).map dropCR

/-- Nothing is read from a line on that does not fit. -/
theorem scan_of_long {line : List UInt8} (inside : newline ∉ line)
    (long : maxScanTokenSize ≤ line.length) (rest : List UInt8) :
    scan (line ++ newline :: rest) = [] := by
  have refused : decide (line.length < maxScanTokenSize) = false :=
    decide_eq_false (Nat.not_lt.mpr long)
  rw [scan, rawLines_append inside, List.takeWhile_cons, refused, if_neg Bool.false_ne_true,
    List.map_nil]

/-! ## `regexp` -/

/-- `\s`. -/
def space (b : UInt8) : Bool := b == 32 || b == 9 || b == 10 || b == 12 || b == 13

/-- `\d`. -/
def digit (b : UInt8) : Bool := decide (48 ≤ b ∧ b ≤ 57)

/-- `\w`. -/
def wordChar (b : UInt8) : Bool :=
  digit b || decide (65 ≤ b ∧ b ≤ 90) || decide (97 ≤ b ∧ b ≤ 122) || b == 95

/-- `INFO\s+worker_(?P<worker_id>\d+)\s+`, the verb, and what comes behind it. -/
def logPattern (verb : String) (args : Pattern UInt8) : Pattern UInt8 :=
  Pattern.lit (ascii "INFO") ++ .plus false space :: (Pattern.lit (ascii "worker_") ++
    .plus true digit :: .plus false space :: (Pattern.lit (ascii verb) ++ args))

/-- `\s(?P<key>\w+)`. -/
def keyPattern : Pattern UInt8 := [.one space, .plus true wordChar]

/-- `\s(?P<key>\w+)\s=\s(?P<value>\d+)`. -/
def keyValuePattern : Pattern UInt8 :=
  keyPattern ++ .one space :: (Pattern.lit (ascii "=") ++ [.one space, .plus true digit])

def reSetter : Pattern UInt8 := logPattern "Setting" keyValuePattern

def reSetterSet : Pattern UInt8 := logPattern "Set" keyValuePattern

def reGetterGet : Pattern UInt8 := logPattern "Get" keyValuePattern

def reGetter : Pattern UInt8 := logPattern "Getting" keyPattern

/-- `matches[i]` of `FindStringSubmatch`, for a group; `matches[0]` is not used. -/
def submatch (groups : List (List UInt8)) (i : Nat) : String := asString (groups.getD (i - 1) [])

/-! ## `strconv.Atoi` and `getWorkerId` -/

/-- The number that a text of digits denotes. -/
def decimal (digits : List UInt8) : Nat :=
  digits.foldl (fun n b => 10 * n + (b.toNat - 48)) 0

/-- `strconv.Atoi` on what `\d+` matches: an `int` has 64 bits. -/
def atoi (digits : List UInt8) : Option Nat :=
  if decimal digits ≤ 9223372036854775807 then some (decimal digits) else none

/-- `getWorkerId`; `os.Exit(1)` if the number is out of range. -/
def getWorkerId (groups : List (List UInt8)) : Option Nat := atoi (groups.getD 0 [])

/-! ## `parseLog` -/

/-- `porcupine.EventKind`. -/
inductive EventKind where
  | callEvent
  | returnEvent
  deriving DecidableEq, Repr

/-- `porcupine.Event`. -/
structure LogEvent where
  clientId : Nat
  kind : EventKind
  value : CrInputOutput
  id : Nat
  deriving DecidableEq, Repr

/-- The variables of the loop. -/
structure ParseState where
  events : List LogEvent
  id : Nat
  procIdMap : Dict Nat Nat

namespace ParseState

def start : ParseState := { events := [], id := 0, procIdMap := Dict.empty }

/-- A call of the worker, under the next `Id`. -/
def call (p : ParseState) (workerId : Nat) (value : CrInputOutput) : ParseState where
  events := p.events ++ [⟨workerId, .callEvent, value, p.id⟩]
  id := p.id + 1
  procIdMap := p.procIdMap.set workerId p.id

/-- A return, under the `Id` in the map; the zero value if there is none. -/
def ret (p : ParseState) (workerId : Nat) (value : CrInputOutput) : ParseState where
  events := p.events ++ [⟨workerId, .returnEvent, value, (p.procIdMap.get? workerId).getD 0⟩]
  id := p.id
  procIdMap := p.procIdMap.erase workerId

end ParseState

/-- The `switch` in the loop, which tries the patterns in this order. -/
def parseLine (p : ParseState) (line : List UInt8) : Option ParseState :=
  match reSetter.find line with
  | some groups =>
    (getWorkerId groups).map fun workerId => p.call workerId
      { op := true, key := submatch groups 2, value := submatch groups 3 }
  | none =>
    match reSetterSet.find line with
    | some groups =>
      (getWorkerId groups).map fun workerId => p.ret workerId
        { op := true, key := submatch groups 2, value := submatch groups 3 }
    | none =>
      match reGetter.find line with
      | some groups =>
        (getWorkerId groups).map fun workerId => p.call workerId
          { op := false, key := submatch groups 2, value := "" }
      | none =>
        match reGetterGet.find line with
        | some groups =>
          (getWorkerId groups).map fun workerId => p.ret workerId
            { op := false, key := submatch groups 2, value := submatch groups 3 }
        | none => some p

/-- The loop over the lines. -/
def parseLines (p : ParseState) : List (List UInt8) → Option ParseState
  | [] => some p
  | line :: rest => (parseLine p line).bind fun next => parseLines next rest

/-- `parseLog`, where `open` is what `os.Open` finds under a name. -/
def parseLog (open_ : String → Option (List UInt8)) (filename : String) :
    Option (List LogEvent) :=
  (open_ filename).bind fun file =>
    (parseLines ParseState.start (scan file)).map ParseState.events

theorem parseLog_eq {open_ : String → Option (List UInt8)} {filename : String}
    {file : List UInt8} (opened : open_ filename = some file) :
    parseLog open_ filename = (parseLines ParseState.start (scan file)).map ParseState.events := by
  rw [parseLog, opened, Option.bind_some]

end Col733.Lab3

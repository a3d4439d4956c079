import Col733.Lab3.ClientLog

/-!
# The history that is read

The log of sequential workers: every line is that of a call or of a return, or a line in
which `parseLog` finds nothing, and each worker, told by the number in its name, logs a
call, then its return, then the next call. `parseLog` reads such a log back, line by line,
whatever the order in which the workers come, if it reads all of its lines: an `int` has
room for the numbers, and the buffer of the scanner for the lines.
-/

namespace Col733.Lab3

/-! ## Histories -/

/-- An event without its `Id`. -/
def LogEvent.shown (e : LogEvent) : Nat × EventKind × CrInputOutput := (e.clientId, e.kind, e.value)

def LogEvent.isCall (e : LogEvent) : Bool := decide (e.kind = .callEvent)

/-- The most recent call of the worker. -/
def lastCall (events : List LogEvent) (worker : Nat) : Option LogEvent :=
  (events.filter fun e => e.isCall && decide (e.clientId = worker)).getLast?

/-- The `Id`s of the calls, in order. -/
def callIds (events : List LogEvent) : List Nat := (events.filter LogEvent.isCall).map LogEvent.id

/-- The return belongs to the call. -/
def LogEvent.Returns (e call : LogEvent) : Prop :=
  e.id = call.id ∧ e.clientId = call.clientId ∧ e.value.op = call.value.op ∧
    e.value.key = call.value.key

/-- Every return event belongs to the most recent call of its worker. -/
def Paired (events : List LogEvent) : Prop :=
  ∀ before e after, events = before ++ e :: after → e.kind = .returnEvent →
    ∃ call, lastCall before e.clientId = some call ∧ e.Returns call

section Histories

variable {events : List LogEvent} {e call : LogEvent} {worker : Nat}

theorem lastCall_concat_call (isCall : e.kind = .callEvent) :
    lastCall (events ++ [e]) worker =
      if e.clientId = worker then some e else lastCall events worker := by
  unfold lastCall
  rw [List.filter_append, List.filter_singleton]
  by_cases same : e.clientId = worker
  · simp [LogEvent.isCall, isCall, same]
  · simp [LogEvent.isCall, isCall, same]

theorem lastCall_concat_return (isReturn : e.kind = .returnEvent) :
    lastCall (events ++ [e]) worker = lastCall events worker := by
  unfold lastCall
  rw [List.filter_append, List.filter_singleton]
  simp [LogEvent.isCall, isReturn]

theorem clientId_of_lastCall (last : lastCall events worker = some call) :
    call.clientId = worker := by
  have member := List.mem_of_getLast? last
  have both := (List.mem_filter.mp member).2
  exact of_decide_eq_true (Bool.and_eq_true_iff.mp both).2

theorem paired_nil : Paired [] := by
  intro before e after split
  exact absurd split.symm (List.append_ne_nil_of_right_ne_nil _ (List.cons_ne_nil _ _))

/-- A new event, at the end of the history. -/
theorem Paired.concat (paired : Paired events)
    (last : e.kind = .returnEvent → ∃ call, lastCall events e.clientId = some call ∧
      e.Returns call) : Paired (events ++ [e]) := by
  intro before x after split isReturn
  rcases List.eq_nil_or_concat after with rfl | ⟨front, y, rfl⟩
  · obtain ⟨rfl, same⟩ := List.append_inj' split rfl
    cases same
    exact last isReturn
  · have whole : events ++ [e] = (before ++ x :: front) ++ [y] := by
      rw [split, List.concat_eq_append, List.append_assoc, List.cons_append]
    obtain ⟨rfl, -⟩ := List.append_inj' whole rfl
    exact paired before x front rfl isReturn

end Histories

namespace ClientLog

/-! ## Logs -/

/-- A line in which none of the patterns finds anything. -/
def Unmatched (text : List UInt8) : Prop :=
  ∀ p ∈ [reSetter, reSetterSet, reGetter, reGetterGet], p.find text = none

inductive Line where
  | setting (sender : Sender) (key : Key) (value : Digits)
  | set (sender : Sender) (key : Key) (value : Digits)
  | getting (sender : Sender) (key : Key)
  | get (sender : Sender) (key : Key) (value : Digits)
  | other (text : List UInt8) (unmatched : Unmatched text)

namespace Line

def text : Line → List UInt8
  | .setting sender key value => logLine sender .setting (keyValue key (some value))
  | .set sender key value => logLine sender .set (keyValue key (some value))
  | .getting sender key => logLine sender .getting (keyValue key none)
  | .get sender key value => logLine sender .get (keyValue key (some value))
  | .other text _ => text

/-- The worker that logged the line. -/
def worker? : Line → Option Nat
  | .setting sender _ _ | .set sender _ _ | .getting sender _ | .get sender _ _ =>
    some sender.worker
  | .other _ _ => none

/-- The event that the line tells, without an `Id`. -/
def shown? : Line → Option (Nat × EventKind × CrInputOutput)
  | .setting sender key value =>
    some (sender.worker, .callEvent, ⟨true, asString key.bytes, asString value.bytes⟩)
  | .set sender key value =>
    some (sender.worker, .returnEvent, ⟨true, asString key.bytes, asString value.bytes⟩)
  | .getting sender key => some (sender.worker, .callEvent, ⟨false, asString key.bytes, ""⟩)
  | .get sender key value =>
    some (sender.worker, .returnEvent, ⟨false, asString key.bytes, asString value.bytes⟩)
  | .other _ _ => none

end Line

/-- The lines of one worker: calls and their returns in turn, the last call perhaps without
one. -/
def Turns : List Line → Prop
  | [] => True
  | [.setting _ _ _] | [.getting _ _] => True
  | .setting _ key value :: .set _ key' value' :: rest => key' = key ∧ value' = value ∧ Turns rest
  | .getting _ key :: .get _ key' _ :: rest => key' = key ∧ Turns rest
  | _ => False

/-- Every worker issues its operations one after the other. -/
def Sequential (log : List Line) : Prop :=
  ∀ w, Turns (log.filter fun line => decide (line.worker? = some w))

/-- The file has the lines of the log, with any of the two ends of a line. -/
def Logged (log : List Line) (file : List UInt8) : Prop :=
  (rawLines file).map dropCR = log.map Line.text

/-- The numbers of the workers are `int`s. -/
def InRange (log : List Line) : Prop :=
  ∀ line ∈ log, ∀ w ∈ line.worker?, w ≤ 9223372036854775807

/-- The scanner has room for the lines. -/
def Fits (file : List UInt8) : Prop := ∀ line ∈ rawLines file, line.length < maxScanTokenSize

/-- The scanner has room for the lines up to the last one of a call or a return. -/
def RoomFor (log : List Line) (file : List UInt8) : Prop :=
  ∃ n, (∀ line ∈ (rawLines file).take n, line.length < maxScanTokenSize) ∧
    ∀ line ∈ log.drop n, line.shown? = none

/-! ## What a line does -/

/-- The state after a line that tells this event, or none. -/
def tell (p : ParseState) : Option (Nat × EventKind × CrInputOutput) → ParseState
  | some (worker, .callEvent, value) => p.call worker value
  | some (worker, .returnEvent, value) => p.ret worker value
  | none => p

theorem getWorkerId_number {sender : Sender} (inRange : sender.worker ≤ 9223372036854775807)
    (groups : List (List UInt8)) :
    getWorkerId (sender.number.bytes :: groups) = some sender.worker :=
  if_pos inRange

/-- `parseLog` reads from every line the event that it tells. -/
theorem parseLine_text (p : ParseState) (line : Line)
    (inRange : ∀ w, line.worker? = some w → w ≤ 9223372036854775807) :
    parseLine p line.text = some (tell p line.shown?) := by
  cases line with
  | setting sender key value =>
    simp only [parseLine, Line.text, reSetter_setting, getWorkerId_number (inRange _ rfl)]
    rfl
  | set sender key value =>
    have first := reSetter_none sender key (some value) .set nofun
    simp only [parseLine, Line.text, first, reSetterSet_set,
      getWorkerId_number (inRange _ rfl)]
    rfl
  | getting sender key =>
    have first := reSetter_none sender key none .getting nofun
    have second := reSetterSet_none sender key none (.inl rfl)
    simp only [parseLine, Line.text, first, second, reGetter_getting,
      getWorkerId_number (inRange _ rfl)]
    rfl
  | get sender key value =>
    have first := reSetter_none sender key (some value) .get nofun
    have second := reSetterSet_none sender key (some value) (.inr rfl)
    have third := reGetter_get sender key (some value)
    simp only [parseLine, Line.text, first, second, third, reGetterGet_get,
      getWorkerId_number (inRange _ rfl)]
    rfl
  | other text unmatched =>
    have first := unmatched reSetter (by simp)
    have second := unmatched reSetterSet (by simp)
    have third := unmatched reGetter (by simp)
    have fourth := unmatched reGetterGet (by simp)
    simp only [parseLine, Line.text, first, second, third, fourth]
    rfl

/-! ## The run over a log -/

/-- The invariant of the loop, where `pending w` is the call of the worker `w` that has no
return yet, if there is one: the map has the `Id` of that call. -/
structure Reading (p : ParseState) (pending : Nat → List Line) : Prop where
  ids : callIds p.events = List.range p.id
  paired : Paired p.events
  pending : ∀ w, pending w = [] ∨ ∃ line call, pending w = [line] ∧
    line.shown? = some (w, .callEvent, call.value) ∧ lastCall p.events w = some call ∧
      p.procIdMap.get? w = some call.id

theorem reading_start : Reading ParseState.start fun _ => [] where
  ids := rfl
  paired := paired_nil
  pending _ := .inl rfl

variable {p : ParseState} {pending : Nat → List Line} {line : Line} {rest : List Line} {w : Nat}
  {value : CrInputOutput}

/-- A call becomes the pending one of its worker. -/
theorem Reading.call (reading : Reading p pending)
    (shown : line.shown? = some (w, .callEvent, value)) :
    Reading (p.call w value) (Function.update pending w [line]) where
  ids := by
    show callIds (p.events ++ [⟨w, .callEvent, value, p.id⟩]) = List.range (p.id + 1)
    rw [List.range_succ, ← reading.ids, callIds, callIds, List.filter_append, List.map_append]
    rfl
  paired := reading.paired.concat fun isReturn => by cases isReturn
  pending other := by
    have last : lastCall (p.call w value).events other = _ := lastCall_concat_call rfl
    by_cases same : w = other
    · subst same
      refine .inr ⟨line, ⟨w, .callEvent, value, p.id⟩, Function.update_self .., shown, ?_, ?_⟩
      · rw [last, if_pos rfl]
      · exact Dict.get?_set_self p.procIdMap w p.id
    · rw [Function.update_of_ne (Ne.symm same), last, if_neg same]
      rcases reading.pending other with none_ | ⟨before, call, has, shown', last', mapped⟩
      · exact .inl none_
      · refine .inr ⟨before, call, has, shown', last', ?_⟩
        show (p.procIdMap.set w p.id).get? other = some call.id
        rw [Dict.get?_set_of_ne _ (Ne.symm same), mapped]

/-- A return takes the `Id` of the pending call. -/
theorem Reading.ret (reading : Reading p pending) {before : Line} {asked : CrInputOutput}
    (has : pending w = [before]) (shown : before.shown? = some (w, .callEvent, asked))
    (answers : value.op = asked.op ∧ value.key = asked.key) :
    Reading (p.ret w value) (Function.update pending w []) where
  ids := by
    show callIds (p.events ++ [_]) = List.range p.id
    rw [← reading.ids, callIds, callIds, List.filter_append, List.map_append]
    exact List.append_nil _
  paired := by
    refine reading.paired.concat fun _ => ?_
    rcases reading.pending w with none_ | ⟨line, call, has', shown', last, mapped⟩
    · rw [none_] at has
      cases has
    · cases has.symm.trans has'
      cases shown.symm.trans shown'
      refine ⟨call, last, ?_, (clientId_of_lastCall last).symm, answers⟩
      show (p.procIdMap.get? w).getD 0 = call.id
      rw [mapped, Option.getD_some]
  pending other := by
    have last : lastCall (p.ret w value).events other = _ := lastCall_concat_return rfl
    by_cases same : other = w
    · subst same
      exact .inl (Function.update_self ..)
    · rw [Function.update_of_ne same, last]
      rcases reading.pending other with none_ | ⟨line, call, has', shown', last', mapped⟩
      · exact .inl none_
      · refine .inr ⟨line, call, has', shown', last', ?_⟩
        show (p.procIdMap.erase w).get? other = some call.id
        rw [Dict.get?_erase_of_ne _ same, mapped]

/-- The lines of calls. -/
theorem call_cases (shown : line.shown? = some (w, .callEvent, value)) :
    (∃ sender key number, line = .setting sender key number ∧
      value = ⟨true, asString key.bytes, asString number.bytes⟩) ∨
    ∃ sender key, line = .getting sender key ∧ value = ⟨false, asString key.bytes, ""⟩ := by
  cases line with
  | setting sender key number =>
    cases shown
    exact .inl ⟨sender, key, number, rfl, rfl⟩
  | getting sender key =>
    cases shown
    exact .inr ⟨sender, key, rfl, rfl⟩
  | set => cases shown
  | get => cases shown
  | other => cases shown

/-- The lines of returns. -/
theorem return_cases (shown : line.shown? = some (w, .returnEvent, value)) :
    (∃ sender key number, line = .set sender key number ∧
      value = ⟨true, asString key.bytes, asString number.bytes⟩) ∨
    ∃ sender key number, line = .get sender key number ∧
      value = ⟨false, asString key.bytes, asString number.bytes⟩ := by
  cases line with
  | set sender key number =>
    cases shown
    exact .inl ⟨sender, key, number, rfl, rfl⟩
  | get sender key number =>
    cases shown
    exact .inr ⟨sender, key, number, rfl, rfl⟩
  | setting => cases shown
  | getting => cases shown
  | other => cases shown

/-- What is known of the pending lines of a worker: there is none, or one call. -/
def Pending (w : Nat) (pend : List Line) : Prop :=
  pend = [] ∨ ∃ before asked, pend = [before] ∧ before.shown? = some (w, .callEvent, asked)

/-- A worker with a pending call does not call. -/
theorem Pending.nil_of_call {pend : List Line} (one : Pending w pend)
    (shown : line.shown? = some (w, .callEvent, value)) (turns : Turns (pend ++ line :: rest)) :
    pend = [] := by
  rcases one with none_ | ⟨before, asked, rfl, askedShown⟩
  · exact none_
  · rcases call_cases askedShown with ⟨_, _, _, rfl, -⟩ | ⟨_, _, rfl, -⟩
    · rcases call_cases shown with ⟨_, _, _, rfl, -⟩ | ⟨_, _, rfl, -⟩
      · exact turns.elim
      · exact turns.elim
    · rcases call_cases shown with ⟨_, _, _, rfl, -⟩ | ⟨_, _, rfl, -⟩
      · exact turns.elim
      · exact turns.elim

/-- A return is that of the pending call. -/
theorem Pending.of_return {pend : List Line} (one : Pending w pend)
    (shown : line.shown? = some (w, .returnEvent, value)) (turns : Turns (pend ++ line :: rest)) :
    ∃ before asked, pend = [before] ∧ before.shown? = some (w, .callEvent, asked) ∧
      (value.op = asked.op ∧ value.key = asked.key) ∧ Turns rest := by
  rcases one with rfl | ⟨before, asked, rfl, askedShown⟩
  · rcases return_cases shown with ⟨_, _, _, rfl, -⟩ | ⟨_, _, _, rfl, -⟩
    · exact turns.elim
    · exact turns.elim
  · refine ⟨before, asked, rfl, askedShown, ?_⟩
    rcases call_cases askedShown with ⟨_, key, number, rfl, rfl⟩ | ⟨_, key, rfl, rfl⟩
    · rcases return_cases shown with ⟨_, key', number', rfl, rfl⟩ | ⟨_, _, _, rfl, -⟩
      · obtain ⟨rfl, -, later⟩ := turns
        exact ⟨⟨rfl, rfl⟩, later⟩
      · exact turns.elim
    · rcases return_cases shown with ⟨_, _, _, rfl, -⟩ | ⟨_, key', number', rfl, rfl⟩
      · exact turns.elim
      · obtain ⟨rfl, later⟩ := turns
        exact ⟨⟨rfl, rfl⟩, later⟩

theorem Reading.known (reading : Reading p pending) (w : Nat) : Pending w (pending w) := by
  rcases reading.pending w with none_ | ⟨before, call, has, asked, -⟩
  · exact .inl none_
  · exact .inr ⟨before, call.value, has, asked⟩

theorem worker?_eq (line : Line) : line.worker? = line.shown?.map Prod.fst := by
  cases line <;> rfl

/-- The lines of the worker `w`. -/
def ofWorker (w : Nat) (log : List Line) : List Line :=
  log.filter fun line => decide (line.worker? = some w)

theorem ofWorker_cons_of_eq {kind : EventKind} (shown : line.shown? = some (w, kind, value)) :
    ofWorker w (line :: rest) = line :: ofWorker w rest := by
  have same : line.worker? = some w := by rw [worker?_eq, shown, Option.map_some]
  exact List.filter_cons_of_pos (decide_eq_true same)

theorem ofWorker_cons_of_ne (other : line.worker? ≠ some w) :
    ofWorker w (line :: rest) = ofWorker w rest :=
  List.filter_cons_of_neg (by simpa using other)

/-- A line of one worker leaves the turns of the others as they are. -/
theorem turns_update {pend : List Line} {kind : EventKind}
    (shown : line.shown? = some (w, kind, value))
    (turns : ∀ other, Turns (pending other ++ ofWorker other (line :: rest)))
    (here : Turns (pend ++ ofWorker w rest)) (other : Nat) :
    Turns (Function.update pending w pend other ++ ofWorker other rest) := by
  by_cases same : other = w
  · subst same
    rw [Function.update_self]
    exact here
  · have different : line.worker? ≠ some other := by
      rw [worker?_eq, shown, Option.map_some]
      exact fun found => same (Option.some.inj found).symm
    rw [Function.update_of_ne same, ← ofWorker_cons_of_ne different]
    exact turns other

/-- One line of a log of sequential workers keeps the invariant. -/
theorem Reading.step (reading : Reading p pending)
    (turns : ∀ w, Turns (pending w ++ ofWorker w (line :: rest))) :
    ∃ after, Reading (tell p line.shown?) after ∧ ∀ w, Turns (after w ++ ofWorker w rest) := by
  cases shown : line.shown? with
  | none =>
    refine ⟨pending, reading, fun w => ?_⟩
    have silent : line.worker? ≠ some w := by
      rw [worker?_eq, shown, Option.map_none]
      exact (Option.some_ne_none w).symm
    rw [← ofWorker_cons_of_ne silent]
    exact turns w
  | some event =>
    obtain ⟨w, kind, value⟩ := event
    have here := turns w
    rw [ofWorker_cons_of_eq shown] at here
    cases kind with
    | callEvent =>
      have free := (reading.known w).nil_of_call shown here
      rw [free] at here
      exact ⟨_, reading.call shown, turns_update shown turns here⟩
    | returnEvent =>
      obtain ⟨before, asked, has, askedShown, answers, later⟩ :=
        (reading.known w).of_return shown here
      exact ⟨_, reading.ret has askedShown answers, turns_update shown turns later⟩

theorem shown_tell (p : ParseState) (event : Option (Nat × EventKind × CrInputOutput)) :
    (tell p event).events.map LogEvent.shown = p.events.map LogEvent.shown ++ event.toList := by
  cases event with
  | none => exact (List.append_nil _).symm
  | some event =>
    obtain ⟨w, kind, value⟩ := event
    cases kind with
    | callEvent => exact List.map_append
    | returnEvent => exact List.map_append

/-- The run over the rest of a log. -/
theorem parseLines_log {log : List Line} (inRange : InRange log) (reading : Reading p pending)
    (turns : ∀ w, Turns (pending w ++ ofWorker w log)) :
    ∃ q, parseLines p (log.map Line.text) = some q ∧ callIds q.events = List.range q.id ∧
      Paired q.events ∧
      q.events.map LogEvent.shown = p.events.map LogEvent.shown ++ log.filterMap Line.shown? := by
  induction log generalizing p pending with
  | nil => exact ⟨p, rfl, reading.ids, reading.paired, (List.append_nil _).symm⟩
  | cons line rest ih =>
    have parsed := parseLine_text p line (inRange line List.mem_cons_self)
    have restInRange : InRange rest := fun other member =>
      inRange other (List.mem_cons_of_mem line member)
    obtain ⟨after, reading', turns'⟩ := reading.step turns
    obtain ⟨q, run, ids, paired, told⟩ := ih restInRange reading' turns'
    rw [List.map_cons, parseLines, parsed, Option.bind_some]
    refine ⟨q, run, ids, paired, ?_⟩
    rw [told, shown_tell, List.append_assoc]
    cases shown : line.shown? with
    | none => rw [List.filterMap_cons_none shown, Option.toList_none, List.nil_append]
    | some event => rw [List.filterMap_cons_some shown, Option.toList_some, List.singleton_append]

/-- The events are those of the log: one for every line of a call or a return, in the order
of the log, the calls numbered from 0 on, and every return that of the call before it. -/
structure ReadBack (log : List Line) (events : List LogEvent) : Prop where
  told : events.map LogEvent.shown = log.filterMap Line.shown?
  ids : callIds events = List.range (callIds events).length
  paired : Paired events

theorem scan_of_fits {file : List UInt8} (fits : Fits file) :
    scan file = (rawLines file).map dropCR := by
  rw [scan, List.takeWhile_eq_self_iff.mpr fun line member => decide_eq_true (fits line member)]

/-- What the scanner reads is the log up to a place behind which there are no calls or returns. -/
theorem scan_of_roomFor {file : List UInt8} {log : List Line} (logged : Logged log file)
    (room : RoomFor log file) :
    ∃ front back, log = front ++ back ∧ scan file = front.map Line.text ∧
      ∀ line ∈ back, line.shown? = none := by
  obtain ⟨n, short, silent⟩ := room
  -- all of the first `n` lines, and those behind them up to one that is too long
  have fits : ∀ line ∈ (rawLines file).take n,
      decide (line.length < maxScanTokenSize) = true :=
    fun line member => decide_eq_true (short line member)
  have more := List.prefix_iff_eq_take.mp
    (List.takeWhile_prefix (fun line => decide (line.length < maxScanTokenSize))
      (l := (rawLines file).drop n))
  generalize List.length _ = k at more
  refine ⟨log.take n ++ (log.drop n).take k, (log.drop n).drop k, ?_, ?_, ?_⟩
  · rw [List.append_assoc, List.take_append_drop, List.take_append_drop]
  · rw [scan, ← List.take_append_drop n (rawLines file), List.takeWhile_append_of_pos fits, more,
      List.map_append, List.map_take, List.map_take, List.map_drop, logged, List.map_append,
      List.map_take, List.map_take, List.map_drop]
  · exact fun line member => silent line (List.mem_of_mem_drop member)

theorem Line.worker?_of_shown? {line : Line} (silent : line.shown? = none) :
    line.worker? = none := by
  cases line with
  | other text unmatched => rfl
  | setting | set | getting | get => cases silent

/-- Lines that tell nothing, at the end, do not matter for the order of the operations. -/
theorem Sequential.of_append {front back : List Line} (sequential : Sequential (front ++ back))
    (silent : ∀ line ∈ back, line.shown? = none) : Sequential front := by
  intro w
  have none_ : (back.filter fun line => decide (line.worker? = some w)) = [] := by
    apply List.filter_eq_nil_iff.mpr
    intro line member
    rw [Line.worker?_of_shown? (silent line member)]
    exact of_decide_eq_true rfl
  have turns := sequential w
  rwa [List.filter_append, none_, List.append_nil] at turns

/-- `parseLog` reads the log of sequential workers, in whatever order they come, if their
numbers are `int`s and the scanner has room for the lines up to the last call or return. -/
theorem parseLog_sequential {open_ : String → Option (List UInt8)} {filename : String}
    {file : List UInt8} {log : List Line} (opened : open_ filename = some file)
    (logged : Logged log file) (sequential : Sequential log) (inRange : InRange log)
    (room : RoomFor log file) :
    ∃ events, parseLog open_ filename = some events ∧ ReadBack log events := by
  obtain ⟨front, back, rfl, scanned, silent⟩ := scan_of_roomFor logged room
  have inRange' : InRange front := fun line member => inRange line (List.mem_append_left _ member)
  obtain ⟨q, run, ids, paired, told⟩ :=
    parseLines_log inRange' reading_start (sequential.of_append silent)
  refine ⟨q.events, ?_, ?_, ?_, paired⟩
  · rw [← scanned] at run
    rw [parseLog_eq opened, run, Option.map_some]
  · rw [List.filterMap_append, List.filterMap_eq_nil_iff.mpr silent, List.append_nil]
    exact told
  · rw [ids, List.length_range]

/-! ### The log in the README -/

def stamp (number : Digits) : Sender where
  stamp := ascii "12:15:50 "
  plain := by decide
  number := number

def zero : Digits := ⟨ascii "0", by decide, List.all_eq_true.mp rfl⟩

def one : Digits := ⟨ascii "1", by decide, List.all_eq_true.mp rfl⟩

def aKey : Key := ⟨ascii "key", by decide, List.all_eq_true.mp rfl⟩

/-- Two workers, the second of which reads while the first one writes. -/
def readmeLog : List Line :=
  [.setting (stamp zero) aKey zero, .getting (stamp one) aKey, .get (stamp one) aKey zero,
    .set (stamp zero) aKey zero]

def readmeFile : List UInt8 :=
  ascii "12:15:50 INFO worker_0 Setting key = 0\n" ++ (ascii "12:15:50 INFO worker_1 Getting key\n" ++
    (ascii "12:15:50 INFO worker_1 Get key = 0\n" ++ ascii "12:15:50 INFO worker_0 Set key = 0\n"))

theorem readmeLog_sequential : Sequential readmeLog := by
  intro w
  by_cases first : w = 0
  · subst first
    exact ⟨rfl, rfl, trivial⟩
  · by_cases second : w = 1
    · subst second
      exact ⟨rfl, trivial⟩
    · have none_ : (readmeLog.filter fun line => decide (line.worker? = some w)) = [] := by
        apply List.filter_eq_nil_iff.mpr
        intro line member
        have known : line.worker? = some 0 ∨ line.worker? = some 1 := by
          revert line
          decide
        rcases known with worker | worker
        · rw [worker]
          simpa using Ne.symm first
        · rw [worker]
          simpa using Ne.symm second
      rw [none_]
      trivial

/-- A line without the first letter of `INFO` matches nothing. -/
theorem unmatched_of_plain {text : List UInt8} (absent : capitalI ∉ text) :
    Unmatched text := by
  intro p member
  obtain ⟨verb, args, rfl⟩ : ∃ verb args, p = logPattern verb args := by
    simp only [List.mem_cons, List.not_mem_nil, or_false] at member
    rcases member with rfl | rfl | rfl | rfl
    · exact ⟨_, _, rfl⟩
    · exact ⟨_, _, rfl⟩
    · exact ⟨_, _, rfl⟩
    · exact ⟨_, _, rfl⟩
  rw [logPattern_eq]
  exact Pattern.find_eq_none_of_absent (plain_of_not_mem absent)

theorem parseLog_sequential_readme :
    ∃ events, parseLog (fun _ => some readmeFile) "client.log" = some events ∧
      ReadBack readmeLog events := by
  have written : readmeFile = (readmeLog.map Line.text).flatMap fun line => line ++ [newline] := by
    decide +kernel
  have lines : rawLines readmeFile = readmeLog.map Line.text := by
    rw [written]
    exact rawLines_flatMap (by decide +kernel)
  have kept : (readmeLog.map Line.text).map dropCR = readmeLog.map Line.text := by decide +kernel
  have short : ∀ line ∈ (readmeLog.map Line.text).take 4, line.length < maxScanTokenSize := by
    decide +kernel
  have inRange : ∀ line ∈ readmeLog, ∀ w ∈ line.worker?, w ≤ 9223372036854775807 := by decide
  exact parseLog_sequential rfl (by rw [Logged, lines, kept]) readmeLog_sequential inRange
    ⟨4, by rw [lines]; exact short, List.forall_mem_nil _⟩

/-! ### Where it does not -/

/-- A log with one call. -/
theorem sequential_getting (front : List Line) (silent : ∀ line ∈ front, line.worker? = none)
    (sender : Sender) (key : Key) : Sequential (front ++ [.getting sender key]) := by
  intro w
  have none_ : (front.filter fun line => decide (line.worker? = some w)) = [] := by
    apply List.filter_eq_nil_iff.mpr
    intro line member
    rw [silent line member]
    simp
  rw [List.filter_append, none_, List.nil_append, List.filter_singleton]
  cases decide ((Line.getting sender key).worker? = some w) with
  | true => trivial
  | false => trivial

/-- 2 to the 63. -/
def huge : Digits := ⟨ascii "9223372036854775808", by decide, List.all_eq_true.mp rfl⟩

/-- A line that fills the buffer of the scanner. -/
def long : List UInt8 := List.replicate maxScanTokenSize 120

theorem eq_of_mem_long {b : UInt8} (member : b ∈ long) : b = 120 :=
  (List.mem_replicate.mp member).2

theorem unmatched_long : Unmatched long :=
  unmatched_of_plain fun member => by cases eq_of_mem_long member

/-- With a number that is no `int` the checker exits, and after a line that is too long it
reads nothing any more. -/
theorem not_parseLog_sequential :
    (¬ ∀ (file : List UInt8) (log : List Line), Logged log file → Sequential log → Fits file →
      ∃ events, parseLog (fun _ => some file) "client.log" = some events ∧
        ReadBack log events) ∧
    ¬ ∀ (file : List UInt8) (log : List Line), Logged log file → Sequential log → InRange log →
      ∃ events, parseLog (fun _ => some file) "client.log" = some events ∧
        ReadBack log events := by
  constructor
  · intro reads
    have lines : rawLines (ascii "12:15:50 INFO worker_9223372036854775808 Getting key\n") =
        [(Line.getting (stamp huge) aKey).text] := by decide +kernel
    have kept : [(Line.getting (stamp huge) aKey).text].map dropCR =
        [(Line.getting (stamp huge) aKey).text] := by decide +kernel
    have short : ∀ line ∈ [(Line.getting (stamp huge) aKey).text],
        line.length < maxScanTokenSize := by decide +kernel
    have exits : parseLog (fun _ => some
        (ascii "12:15:50 INFO worker_9223372036854775808 Getting key\n")) "client.log" = none := by
      decide +kernel
    obtain ⟨events, parsed, -⟩ := reads _ [.getting (stamp huge) aKey]
      (by rw [Logged, lines, kept, List.map_singleton])
      (sequential_getting [] (fun _ member => by cases member) _ _)
      (by rw [Fits, lines]; exact short)
    rw [exits] at parsed
    cases parsed
  · intro reads
    have whole : newline ∉ long := fun member => by cases eq_of_mem_long member
    have behind : rawLines (ascii "12:15:50 INFO worker_0 Getting key\n") =
        [(Line.getting (stamp zero) aKey).text] := by decide +kernel
    have kept : dropCR long = long := by
      refine if_neg fun last => ?_
      cases eq_of_mem_long (List.mem_of_getLast? last)
    have kept' : dropCR (Line.getting (stamp zero) aKey).text =
        (Line.getting (stamp zero) aKey).text := by decide +kernel
    have lines := rawLines_append whole (ascii "12:15:50 INFO worker_0 Getting key\n")
    rw [behind] at lines
    have logged : Logged [.other long unmatched_long, .getting (stamp zero) aKey]
        (long ++ newline :: ascii "12:15:50 INFO worker_0 Getting key\n") := by
      rw [Logged, lines, List.map_cons, List.map_singleton, kept, kept']
      rfl
    have sequential : Sequential [.other long unmatched_long, .getting (stamp zero) aKey] :=
      sequential_getting [.other long unmatched_long]
        (fun line member => by rw [List.mem_singleton.mp member]; rfl) _ _
    have inRange : InRange [.other long unmatched_long, .getting (stamp zero) aKey] := by
      intro line member w worker
      rcases List.mem_cons.mp member with rfl | last
      · cases worker
      · rw [List.mem_singleton.mp last] at worker
        cases worker
        decide
    obtain ⟨events, parsed, back⟩ := reads _ _ logged sequential inRange
    have tooLong : maxScanTokenSize ≤ long.length := by rw [long, List.length_replicate]
    rw [parseLog_eq rfl, scan_of_long whole tooLong] at parsed
    cases parsed
    cases back.told

end ClientLog

end Col733.Lab3

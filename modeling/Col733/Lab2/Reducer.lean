import Col733.Lab2.Message
import Col733.Misc.ByteStream
import Col733.Misc.Counter

/-!
# `reducer.py`: from the bytes of a mapper to the command queue

`handle_mappers` cuts the stream of a connection every 1024 bytes, reads a message from each
piece and puts a command into the queue. The first piece that is no message, the end of
the stream, or a message of another type ends it.
-/

namespace Col733.Lab2

/-- A `WC` command. -/
structure WC where
  word : Json
  count : Json
  recoveryId : Json

/-- What `handle_mappers` does with a message: the commands that it puts into the queue, or
`none` when the assertion on the type fails. A field that is missing is `None`. -/
def Message.commands (m : Message) : Option (List WC) :=
  match m.msgType with
  | .fwdCheckpoint => some []
  | .wordCount =>
    let field key := (m.kwargs.get? key).getD .null
    some [{ word := field "key", count := field "value", recoveryId := field "last_recovery_id" }]
  | _ => none

/-- The `id` of a `Reducer`. -/
def reducerId (r : Fin 2) : String := "Reducer_" ++ toString r.val

/-- A `ReducerState`. -/
structure ReducerState where
  wc : Dict String Int := Dict.empty
  lastRecoveryId : Int := 0
  lastCpId : Nat := 0

/-- `WC.handle`. A mapper sends a string and two numbers; what Python makes of other values, by
its own equality and addition, is not followed. -/
def WC.handle (state : ReducerState) : WC → Option ReducerState
  | ⟨.str word, .int count, .int recoveryId⟩ =>
    if recoveryId = state.lastRecoveryId then some { state with wc := state.wc.add word count }
    else some state
  | _ => none

/-- `handle_mappers`: the commands that it has put into the queue when it ends. -/
def handleMappers (json : JsonModule) (segments : List (List UInt8)) : List WC :=
  match _received : recvall 1024 segments with
  | none => []
  | some (data, rest) =>
    match (Message.deserialize json data).bind Message.commands with
    | none => []
    | some commands => commands ++ handleMappers json rest
termination_by segments.flatten.length
decreasing_by
  have := length_of_recvall _received
  omega

/-- A word that a mapper has counted. -/
structure WordCount where
  word : String
  count : Int
  recoveryId : Int
  deriving DecidableEq, Repr

namespace WordCount

/-- The message of `CmdHandler.word_count`. -/
def message (source : String) (wc : WordCount) : Message where
  msgType := .wordCount
  source := .str source
  kwargs := Dict.ofList [("key", .str wc.word), ("value", .int wc.count),
    ("last_recovery_id", .int wc.recoveryId)]

/-- The command that the reducer is to make of it. -/
def command (wc : WordCount) : WC where
  word := .str wc.word
  count := .int wc.count
  recoveryId := .int wc.recoveryId

/-- The message takes no more than the buffer. -/
def Fits (json : JsonModule) (source : String) (wc : WordCount) : Prop :=
  4 + ((wc.message source).body json).length ≤ bufferSize

instance (json : JsonModule) (source : String) (wc : WordCount) :
    Decidable (wc.Fits json source) :=
  inferInstanceAs (Decidable (_ ≤ _))

theorem ofDict_message (source : String) (wc : WordCount) :
    Message.ofDict (Dict.ofList (wc.message source).dict.entries) = some (wc.message source) := rfl

end WordCount

/-- The bytes that a mapper sends on one connection: each message is serialized and passed to
`sendall`. -/
def sendAll (json : JsonModule) (source : String) : List WordCount → Option (List UInt8)
  | [] => some []
  | wc :: wcs => do
    let frame ← (wc.message source).serialize json
    let rest ← sendAll json source wcs
    return frame ++ rest

section Framing

variable {json : JsonModule} {source : String} {wcs : List WordCount} {wc : WordCount}
  {stream frame : List UInt8} {segments : List (List UInt8)}

theorem sendAll_cons (sent : sendAll json source (wc :: wcs) = some stream) :
    ∃ frame rest, (wc.message source).serialize json = some frame ∧
      sendAll json source wcs = some rest ∧ stream = frame ++ rest := by
  unfold sendAll at sent
  obtain ⟨frame, serialized, sent⟩ := Option.bind_eq_some_iff.mp sent
  obtain ⟨rest, later, same⟩ := Option.bind_eq_some_iff.mp sent
  exact ⟨frame, rest, serialized, later, (Option.some.inj same).symm⟩

theorem sendAll_of_lt (small : ∀ wc ∈ wcs, ((wc.message source).body json).length < 4294967296) :
    ∃ stream, sendAll json source wcs = some stream := by
  induction wcs with
  | nil => exact ⟨[], rfl⟩
  | cons wc wcs ih =>
    obtain ⟨frame, serialized⟩ := Message.serialize_of_lt (small wc List.mem_cons_self)
    obtain ⟨rest, later⟩ := ih fun wc member => small wc (List.mem_cons_of_mem _ member)
    refine ⟨frame ++ rest, ?_⟩
    unfold sendAll
    rw [serialized, later]
    rfl

/-- One more message is sent. -/
theorem sendAll_concat (sent : sendAll json source wcs = some stream)
    (serialized : (wc.message source).serialize json = some frame) :
    sendAll json source (wcs ++ [wc]) = some (stream ++ frame) := by
  induction wcs generalizing stream with
  | nil =>
    cases sent
    simp [sendAll, serialized]
  | cons first wcs ih =>
    obtain ⟨front, rest, written, later, rfl⟩ := sendAll_cons sent
    rw [List.cons_append, sendAll, written, ih later, List.append_assoc]
    rfl

theorem handleMappers_of_commands {data : List UInt8} {rest : List (List UInt8)}
    {commands : List WC} (received : recvall 1024 segments = some (data, rest))
    (read : (Message.deserialize json data).bind Message.commands = some commands) :
    handleMappers json segments = commands ++ handleMappers json rest := by
  rw [handleMappers]
  split
  · rename_i none
    rw [received] at none
    cases none
  · rename_i same
    rw [received] at same
    cases same
    rw [read]

theorem handleMappers_of_refused {data : List UInt8} {rest : List (List UInt8)}
    (received : recvall 1024 segments = some (data, rest))
    (refused : Message.deserialize json data = none) : handleMappers json segments = [] := by
  rw [handleMappers]
  split
  · rfl
  · rename_i same
    rw [received] at same
    cases same
    rw [refused]
    rfl

theorem handleMappers_nil (done : segments.flatten = []) : handleMappers json segments = [] := by
  have none : recvall 1024 segments = none := recvall_of_lt (by simp [done])
  rw [handleMappers]
  split
  · rfl
  · rename_i same
    rw [none] at same
    cases same

/-- A message that fits is as long as the buffer. -/
theorem length_of_fits (serialized : (wc.message source).serialize json = some frame)
    (fits : wc.Fits json source) : frame.length = 1024 := by
  unfold WordCount.Fits bufferSize at fits
  rw [Message.length_of_serialize serialized]
  unfold bufferSize
  omega

/-- A message that fits is read as one command. -/
theorem commands_of_fits (serialized : (wc.message source).serialize json = some frame)
    (fits : wc.Fits json source) :
    (Message.deserialize json frame).bind Message.commands = some [wc.command] := by
  have length := length_of_fits serialized fits
  unfold WordCount.Fits bufferSize at fits
  have read := Message.deserialize_whole serialized (n := 1020) (by omega)
  rw [List.take_of_length_le (by omega), WordCount.ofDict_message] at read
  rw [read]
  rfl

/-- A frame that fits is one piece of the stream, and becomes one command. -/
theorem handleMappers_fits (whole : Segmented segments)
    (serialized : (wc.message source).serialize json = some frame) (fits : wc.Fits json source)
    {more : List UInt8} (delivered : segments.flatten = frame ++ more) :
    ∃ rest, handleMappers json segments = wc.command :: handleMappers json rest ∧
      rest.flatten = more ∧ Segmented rest := by
  have length := length_of_fits serialized fits
  obtain ⟨rest, received, left, whole'⟩ := recvall_of_le (n := 1024) whole (by
    rw [delivered, List.length_append]
    omega)
  rw [delivered, ← length, List.take_left, length] at received
  rw [delivered, ← length, List.drop_left] at left
  exact ⟨rest, handleMappers_of_commands received (commands_of_fits serialized fits), left, whole'⟩

/-- The first piece of a frame that does not fit is no message. -/
theorem handleMappers_oversize (whole : Segmented segments)
    (serialized : (wc.message source).serialize json = some frame)
    (oversize : ¬ wc.Fits json source) {more : List UInt8}
    (delivered : segments.flatten = frame ++ more) : handleMappers json segments = [] := by
  unfold WordCount.Fits bufferSize at oversize
  have length : 1024 ≤ frame.length := by
    rw [Message.length_of_serialize serialized]
    unfold bufferSize
    omega
  obtain ⟨rest, received, _, _⟩ := recvall_of_le (n := 1024) whole (by
    rw [delivered, List.length_append]
    omega)
  rw [delivered, List.take_append_of_le_length length] at received
  apply handleMappers_of_refused received
  exact Message.deserialize_cut serialized (n := 1020) (by omega)

/-- As long as every message fits, the reducer enqueues what the mapper sent. -/
theorem enqueued_of_fits (sent : sendAll json source wcs = some stream)
    (whole : Segmented segments) (delivered : segments.flatten = stream)
    (fits : ∀ wc ∈ wcs, wc.Fits json source) :
    handleMappers json segments = wcs.map WordCount.command := by
  induction wcs generalizing stream segments with
  | nil =>
    cases sent
    exact handleMappers_nil delivered
  | cons wc wcs ih =>
    obtain ⟨frame, more, serialized, later, rfl⟩ := sendAll_cons sent
    obtain ⟨rest, enqueued, left, whole'⟩ :=
      handleMappers_fits whole serialized (fits wc List.mem_cons_self) delivered
    rw [enqueued, ih later whole' left fun wc member => fits wc (List.mem_cons_of_mem _ member)]
    rfl

/-- With the first message that does not fit the reducer stops, and enqueues fewer. -/
theorem length_enqueued_lt (sent : sendAll json source wcs = some stream)
    (whole : Segmented segments) (delivered : segments.flatten = stream)
    (oversize : ∃ wc ∈ wcs, ¬ wc.Fits json source) :
    (handleMappers json segments).length < wcs.length := by
  induction wcs generalizing stream segments with
  | nil =>
    obtain ⟨wc, member, _⟩ := oversize
    cases member
  | cons wc wcs ih =>
    obtain ⟨frame, more, serialized, later, rfl⟩ := sendAll_cons sent
    by_cases fits : wc.Fits json source
    · obtain ⟨rest, enqueued, left, whole'⟩ :=
        handleMappers_fits whole serialized fits delivered
      have inRest : ∃ wc ∈ wcs, ¬ wc.Fits json source := by
        obtain ⟨other, member, long⟩ := oversize
        rcases List.mem_cons.mp member with rfl | there
        · exact absurd fits long
        · exact ⟨other, there, long⟩
      rw [enqueued, List.length_cons, List.length_cons]
      exact Nat.succ_lt_succ (ih later whole' left inRest)
    · rw [handleMappers_oversize whole serialized fits delivered]
      exact Nat.succ_pos _

end Framing

/-- For every sequence of messages of one mapper, and however their bytes are segmented, the
reducer enqueues exactly what was sent, in order, if and only if every message takes no
more than the buffer. -/
theorem framing_keeps_alignment (json : JsonModule) (source : String) (wcs : List WordCount)
    {stream : List UInt8} (sent : sendAll json source wcs = some stream)
    {segments : List (List UInt8)} (whole : Segmented segments)
    (delivered : segments.flatten = stream) :
    handleMappers json segments = wcs.map WordCount.command ↔
      ∀ wc ∈ wcs, wc.Fits json source := by
  constructor
  · intro enqueued wc member
    by_contra long
    have fewer := length_enqueued_lt sent whole delivered ⟨wc, member, long⟩
    rw [enqueued, List.length_map] at fewer
    exact Nat.lt_irrefl _ fewer
  · exact enqueued_of_fits sent whole delivered

/-- The segments of one byte each. -/
def byteByByte (stream : List UInt8) : List (List UInt8) := stream.map fun b => [b]

theorem segmented_byteByByte (stream : List UInt8) : Segmented (byteByByte stream) := by
  intro segment member
  obtain ⟨b, _, rfl⟩ := List.mem_map.mp member
  exact List.cons_ne_nil b []

theorem flatten_byteByByte (stream : List UInt8) : (byteByByte stream).flatten = stream := by
  induction stream with
  | nil => rfl
  | cons b stream ih => exact congrArg (b :: ·) ih

theorem framing_keeps_alignment_two :
    ∃ stream, sendAll Json.objectModule "Mapper_0" [⟨"cloud", 2, 0⟩, ⟨"données", 1, 0⟩] =
        some stream ∧
      handleMappers Json.objectModule (byteByByte stream) =
        [⟨.str "cloud", .int 2, .int 0⟩, ⟨.str "données", .int 1, .int 0⟩] := by
  have fits : ∀ wc ∈ [⟨"cloud", 2, 0⟩, ⟨"données", 1, 0⟩],
      WordCount.Fits Json.objectModule "Mapper_0" wc := by decide
  obtain ⟨stream, sent⟩ := sendAll_of_lt (fun wc member =>
    show ((WordCount.message "Mapper_0" wc).body Json.objectModule).length < 4294967296 by
      have := fits wc member
      unfold WordCount.Fits bufferSize at this
      omega)
  exact ⟨stream, sent, (framing_keeps_alignment Json.objectModule "Mapper_0" _ sent
    (segmented_byteByByte stream) (flatten_byteByByte stream)).mpr fits⟩

/-- A word of `n` letters. -/
def longWord (n : Nat) : WordCount :=
  { word := String.ofList (List.replicate n 'a'), count := 1, recoveryId := 0 }

/-- The length of the text that is written for a word. -/
theorem length_body_objectModule (source : String) (wc : WordCount) :
    ((wc.message source).body Json.objectModule).length =
      67 + (Json.charsText source.toList).length + (Json.charsText wc.word.toList).length +
        (Json.intText wc.count).length + (Json.intText wc.recoveryId).length := by
  have entries : (wc.message source).dict.entries = [("type", .int 3), ("source", .str source),
      ("key", .str wc.word), ("value", .int wc.count),
      ("last_recovery_id", .int wc.recoveryId)] := rfl
  have keys : (Json.charsText "type".toList).length = 5 ∧
      (Json.charsText "source".toList).length = 7 ∧ (Json.charsText "key".toList).length = 4 ∧
      (Json.charsText "value".toList).length = 6 ∧
      (Json.charsText "last_recovery_id".toList).length = 17 ∧ (Json.intText 3).length = 1 ∧
      (Json.separator true).length = 0 ∧ (Json.separator false).length = 2 := by decide
  obtain ⟨type, sourceKey, key, value, id, three, none, two⟩ := keys
  show (Json.encode (Json.text (.obj (wc.message source).dict.entries))).length = _
  rw [entries]
  simp only [Json.encode, List.length_map, Json.text, Json.itemsText, List.length_append,
    List.length_cons, List.length_nil, type, sourceKey, key, value, id, three, none, two]
  omega

theorem length_charsText_replicate (n : Nat) :
    (Json.charsText (List.replicate n 'a')).length = n + 1 := by
  induction n with
  | zero => rfl
  | succ n ih =>
    have plain : Json.escape 'a' = ['a'] := by decide
    simp only [Json.charsText, List.replicate_succ, List.flatMap_cons, plain, List.length_append,
      List.length_cons, List.length_nil] at ih ⊢
    omega

theorem length_body_longWord (n : Nat) :
    (((longWord n).message "Mapper_0").body Json.objectModule).length = n + 79 := by
  have source : (Json.charsText "Mapper_0".toList).length = 9 := by decide
  have one : (Json.intText 1).length = 1 := by decide
  have zero : (Json.intText 0).length = 1 := by decide
  rw [length_body_objectModule, source]
  simp only [longWord, String.toList_ofList, length_charsText_replicate, one, zero]
  omega

/-- A word that takes more than the buffer is lost, and so is all that comes after it. -/
theorem not_framing_keeps_alignment :
    ¬ ∀ (json : JsonModule) (source : String) (wcs : List WordCount) (stream : List UInt8)
      (segments : List (List UInt8)), sendAll json source wcs = some stream →
        Segmented segments → segments.flatten = stream →
          handleMappers json segments = wcs.map WordCount.command := by
  intro always
  have length := length_body_longWord 1024
  obtain ⟨stream, sent⟩ : ∃ stream,
      sendAll Json.objectModule "Mapper_0" [longWord 1024] = some stream := by
    apply sendAll_of_lt
    intro wc member
    rw [List.mem_singleton.mp member, length]
    omega
  have enqueued := always Json.objectModule "Mapper_0" [longWord 1024] stream (byteByByte stream) sent
    (segmented_byteByByte stream) (flatten_byteByByte stream)
  have fewer := length_enqueued_lt sent (segmented_byteByByte stream) (flatten_byteByByte stream)
    ⟨longWord 1024, List.mem_singleton_self _, by
      unfold WordCount.Fits bufferSize
      rw [length]
      omega⟩
  rw [enqueued, List.length_map] at fewer
  exact Nat.lt_irrefl _ fewer

end Col733.Lab2

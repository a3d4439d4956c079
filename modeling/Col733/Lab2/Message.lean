import Col733.Misc.Dict
import Col733.Misc.JsonModule

/-!
# `message.py` of lab 2

A message is a type, a source and named values. It is written as a JSON object, preceded by
the length of its text in four bytes and padded with zeros to `BUFFER_SIZE`; a text that is
longer than the buffer is not refused and not padded.
-/

namespace Col733.Lab2

/-- `MT`. -/
inductive MT where
  | heartbeat
  | checkpoint
  | fwdCheckpoint
  | wordCount
  | checkpointAck
  | exit
  | done
  | lastCheckpointAck
  | recover
  | recoveryAck
  deriving DecidableEq, Repr

namespace MT

/-- The members of the enumeration; `num_messages` is how many there are. -/
def all : List MT :=
  [heartbeat, checkpoint, fwdCheckpoint, wordCount, checkpointAck, exit, done, lastCheckpointAck,
    recover, recoveryAck]

/-- The number of a type. -/
def value : MT → Int
  | heartbeat => 0
  | checkpoint => 1
  | fwdCheckpoint => 2
  | wordCount => 3
  | checkpointAck => 4
  | exit => 5
  | done => 6
  | lastCheckpointAck => 7
  | recover => 8
  | recoveryAck => 9

/-- The number that a field of a message equals: a `bool` is a number, and so is a float
without a fraction. -/
def fieldValue : Json → Option Int
  | .int n => some n
  | .bool true => some 1
  | .bool false => some 0
  | .float x =>
    match x.text with
    | [digit, '.', '0'] => some (digit.toNat - 48 : Nat)
    | ['-', '0', '.', '0'] => some 0
    | _ => none
  | .null | .str _ | .arr _ | .obj _ => none

/-- `MT(field)`, `none` when it raises. -/
def ofField (field : Json) : Option MT :=
  (fieldValue field).bind fun n => all.find? fun t => t.value == n

theorem ofField_value (t : MT) : ofField (.int t.value) = some t := by
  cases t <;> rfl

end MT

/-- A `Message`. Its source is a string; one that `deserialize` reads is what the object
holds under that key. -/
structure Message where
  msgType : MT
  source : Json
  kwargs : Dict String Json

/-- `BUFFER_SIZE`. -/
def bufferSize : Nat := 1024

/-- `struct.pack('!I', n)`, which raises when the number does not fit. -/
def packI (n : Nat) : Option (List UInt8) :=
  if n < 4294967296 then
    some [(n / 16777216).toUInt8, (n / 65536).toUInt8, (n / 256).toUInt8, n.toUInt8]
  else none

/-- `struct.unpack('!I', b)[0]`, which raises unless there are four bytes. -/
def unpackI : List UInt8 → Option Nat
  | [a, b, c, d] => some (((a.toNat * 256 + b.toNat) * 256 + c.toNat) * 256 + d.toNat)
  | _ => none

/-- `b.ljust(n, b'\x00')`. -/
def ljust (n : Nat) (bytes : List UInt8) : List UInt8 :=
  bytes ++ List.replicate (n - bytes.length) 0

namespace Message

/-- `Message(msg_type, source, **kwargs)`. It raises for a number that is no message type, and
when a keyword names one of the other arguments again. -/
def init (msgType : MT) (source : String) (kwargs : Dict String Json) : Option Message :=
  if kwargs.contains "self" || kwargs.contains "msg_type" || kwargs.contains "source" then none
  else if msgType.value ≥ (MT.all.length : Int) then none
  else some { msgType, source := .str source, kwargs }

/-- `message_dict` of `serialize`. -/
def dict (m : Message) : Dict String Json :=
  m.kwargs.entries.foldl (fun d item => d.set item.1 item.2)
    (Dict.ofList [("type", .int m.msgType.value), ("source", m.source)])

/-- The bytes of the text of the message. -/
def body (json : JsonModule) (m : Message) : List UInt8 := json.dumps m.dict.entries

/-- `serialize`, `none` when it raises. -/
def serialize (json : JsonModule) (m : Message) : Option (List UInt8) := do
  let length ← packI (m.body json).length
  return ljust bufferSize (length ++ m.body json)

/-- The message that an object stands for. As `Message(msg_type, source, **kwargs)` it must
not name one of the other arguments again. -/
def ofDict (d : Dict String Json) : Option Message := do
  let msgType ← (d.get? "type").bind MT.ofField
  let source ← d.get? "source"
  let kwargs := (d.erase "type").erase "source"
  if kwargs.contains "self" || kwargs.contains "msg_type" then none
  else return { msgType, source, kwargs }

/-- What `deserialize` makes of the value that it loads; only a dictionary has items. -/
def ofJson : Json → Option Message
  | .obj items => ofDict (Dict.ofList items)
  | _ => none

/-- `deserialize`, `none` when it raises. -/
def deserialize (json : JsonModule) (bytes : List UInt8) : Option Message := do
  let length ← unpackI (bytes.take 4)
  let loaded ← json.loads ((bytes.drop 4).take length)
  ofJson loaded

end Message

/-! ## The length -/

theorem unpackI_packI {n : Nat} {bytes : List UInt8} (packed : packI n = some bytes) :
    unpackI bytes = some n ∧ bytes.length = 4 := by
  unfold packI at packed
  split at packed
  · cases packed
    refine ⟨?_, rfl⟩
    have value : ((n / 16777216 % 256 * 256 + n / 65536 % 256) * 256 + n / 256 % 256) * 256 +
        n % 256 = n := by omega
    simpa [unpackI, Nat.toUInt8] using value
  · cases packed

namespace Message

variable {json : JsonModule} {m : Message} {frame : List UInt8}

/-- What `serialize` returns: the length, the text and the padding. -/
theorem serialize_eq (serialized : m.serialize json = some frame) :
    ∃ length, packI (m.body json).length = some length ∧
      frame = length ++ (m.body json ++
        List.replicate (bufferSize - (length ++ m.body json).length) 0) := by
  unfold serialize at serialized
  obtain ⟨length, packed, same⟩ := Option.bind_eq_some_iff.mp serialized
  refine ⟨length, packed, ?_⟩
  rw [← List.append_assoc]
  exact (Option.some.inj same).symm

/-- Reading the first bytes of a frame: the length of the text, and as much of the text
as there is. -/
theorem deserialize_take (serialized : m.serialize json = some frame) (n : Nat) :
    deserialize json (frame.take (4 + n)) =
      (json.loads (((m.body json ++
        List.replicate (bufferSize - (4 + (m.body json).length)) 0).take n).take
          (m.body json).length)).bind ofJson := by
  obtain ⟨length, packed, rfl⟩ := serialize_eq serialized
  obtain ⟨unpacked, four⟩ := unpackI_packI packed
  have front : (length ++ (m.body json ++
      List.replicate (bufferSize - (length ++ m.body json).length) 0)).take (4 + n) =
        length ++ (m.body json ++
          List.replicate (bufferSize - (4 + (m.body json).length)) 0).take n := by
    rw [← four, List.take_length_add_append, List.length_append]
  rw [front]
  unfold deserialize
  rw [← four, List.take_left, List.drop_left, unpacked]
  rfl

/-- Only a text of 4 GiB is not written. -/
theorem serialize_of_lt (small : (m.body json).length < 4294967296) :
    ∃ frame, m.serialize json = some frame := by
  unfold serialize packI
  rw [if_pos small]
  exact ⟨_, rfl⟩

/-- A frame is as long as the buffer, or as the text with its length. -/
theorem length_of_serialize (serialized : m.serialize json = some frame) :
    frame.length = max bufferSize (4 + (m.body json).length) := by
  obtain ⟨length, packed, rfl⟩ := serialize_eq serialized
  have four := (unpackI_packI packed).2
  simp only [List.length_append, List.length_replicate, four]
  omega

/-- The whole text is read back. -/
theorem deserialize_whole (serialized : m.serialize json = some frame) {n : Nat}
    (whole : (m.body json).length ≤ n) :
    deserialize json (frame.take (4 + n)) = ofDict (Dict.ofList m.dict.entries) := by
  rw [deserialize_take serialized, List.take_take, Nat.min_eq_left whole, List.take_left]
  show (json.loads (json.dumps m.dict.entries)).bind ofJson = _
  rw [json.loads_dumps _ m.dict.nodup]
  rfl

/-- A text that is cut short is refused. -/
theorem deserialize_cut (serialized : m.serialize json = some frame) {n : Nat}
    (cut : n < (m.body json).length) : deserialize json (frame.take (4 + n)) = none := by
  rw [deserialize_take serialized, List.take_append_of_le_length (Nat.le_of_lt cut), List.take_take,
    Nat.min_eq_right (Nat.le_of_lt cut)]
  have refused : json.loads ((m.body json).take n) = none := by
    apply json.loads_prefix m.dict.entries m.dict.nodup
    · exact List.take_prefix n _
    · intro same
      have lengths := congrArg List.length same
      rw [List.length_take, Nat.min_eq_left (Nat.le_of_lt cut)] at lengths
      exact absurd lengths (Nat.ne_of_lt cut)
  rw [refused]
  rfl

/-! ## Reading a frame with anything behind it -/

/-- What stands behind the text is not looked at. -/
theorem deserialize_append {length rest : List UInt8}
    (packed : packI (m.body json).length = some length) :
    deserialize json (length ++ (m.body json ++ rest)) = ofDict m.dict := by
  obtain ⟨unpacked, four⟩ := unpackI_packI packed
  unfold deserialize
  rw [← four, List.take_left, List.drop_left, unpacked]
  show (json.loads ((m.body json ++ rest).take (m.body json).length)).bind ofJson = _
  rw [List.take_left, body, json.loads_dumps _ m.dict.nodup]
  exact congrArg ofDict (Dict.ofList_entries m.dict)

/-- The type, the source and the named values stand in one dictionary. -/
theorem entries_dict (noType : m.kwargs.contains "type" = false)
    (noSource : m.kwargs.contains "source" = false) :
    m.dict.entries = ("type", .int m.msgType.value) :: ("source", m.source) :: m.kwargs.entries := by
  have absent : ∀ key : String, m.kwargs.contains key = false →
      key ∉ m.kwargs.entries.map Prod.fst := by
    intro key missing member
    rw [Dict.contains_iff_mem_keys.mpr member] at missing
    cases missing
  apply Dict.entries_foldl_set
  show (("type" :: "source" :: m.kwargs.entries.map Prod.fst) : List String).Nodup
  refine List.nodup_cons.mpr ⟨?_, List.nodup_cons.mpr ⟨absent "source" noSource, m.kwargs.nodup⟩⟩
  rw [List.mem_cons, not_or]
  exact ⟨by decide, absent "type" noType⟩

/-- They are separated again. -/
theorem ofDict_dict (noType : m.kwargs.contains "type" = false)
    (noSource : m.kwargs.contains "source" = false)
    (noArgument : (m.kwargs.contains "self" || m.kwargs.contains "msg_type") = false) :
    ofDict m.dict = some m := by
  have entries := entries_dict noType noSource
  have others : ∀ e ∈ m.kwargs.entries, e.1 ≠ "type" ∧ e.1 ≠ "source" := by
    intro e member
    have present : m.kwargs.contains e.1 = true :=
      Dict.contains_iff_mem_keys.mpr (List.mem_map_of_mem member)
    constructor <;> intro same <;> rw [same] at present
    · rw [noType] at present
      cases present
    · rw [noSource] at present
      cases present
  have type : m.dict.get? "type" = some (.int m.msgType.value) := by
    rw [Dict.get?, entries, List.lookup_cons_self]
  have source : m.dict.get? "source" = some m.source := by
    rw [Dict.get?, entries]
    rfl
  have kwargs : (m.dict.erase "type").erase "source" = m.kwargs := by
    apply Dict.eq_of_entries
    show (m.dict.entries.filter fun e => e.1 ≠ "type").filter (fun e => e.1 ≠ "source") = _
    have kept : m.kwargs.entries.filter (fun e => e.1 ≠ "source" && e.1 ≠ "type") =
        m.kwargs.entries :=
      List.filter_eq_self.mpr fun e member => by simp [others e member]
    rw [List.filter_filter, entries]
    exact kept
  unfold ofDict
  rw [type, source, kwargs]
  simp only [Option.bind_eq_bind, Option.bind_some, MT.ofField_value, noArgument]
  rfl

/-- A message that can be built, with named values under other keys than `type` and `source`, is
read back from its frame, whatever stands behind it. The frame fills the buffer, and has only
zeros behind the text. -/
theorem deserialize_serialize (json : JsonModule) {msgType : MT} {source : String}
    {kwargs : Dict String Json} (built : init msgType source kwargs = some m)
    (noType : kwargs.contains "type" = false) (small : (m.body json).length < 4294967296) :
    ∃ frame, m.serialize json = some frame ∧
      (∀ suffix, deserialize json (frame ++ suffix) = some m) ∧
      bufferSize ≤ frame.length ∧ ∀ b ∈ frame.drop (4 + (m.body json).length), b = 0 := by
  unfold init at built
  split at built
  · cases built
  rename_i accepted
  split at built
  · cases built
  cases built
  obtain ⟨noArgument, noSource⟩ := Bool.or_eq_false_iff.mp (eq_false_of_ne_true accepted)
  obtain ⟨frame, serialized⟩ := serialize_of_lt small
  obtain ⟨length, packed, whole⟩ := serialize_eq serialized
  have four := (unpackI_packI packed).2
  refine ⟨frame, serialized, fun suffix => ?_, ?_, ?_⟩
  · rw [whole, List.append_assoc, List.append_assoc, deserialize_append packed]
    exact ofDict_dict noType noSource noArgument
  · rw [length_of_serialize serialized]
    exact le_max_left _ _
  · intro b member
    rw [whole, ← four, ← List.length_append, ← List.append_assoc, List.drop_left] at member
    exact List.eq_of_mem_replicate member

/-- A heartbeat, with a value under a key of its own. -/
theorem deserialize_serialize_heartbeat :
    ∃ m frame, init .heartbeat "Mapper_0" (Dict.empty.set "n" (.int 7)) = some m ∧
      m.serialize Json.objectModule = some frame ∧
      ∀ suffix, deserialize Json.objectModule (frame ++ suffix) = some m := by
  have built : init .heartbeat "Mapper_0" (Dict.empty.set "n" (.int 7)) =
      some { msgType := .heartbeat, source := .str "Mapper_0"
             kwargs := Dict.empty.set "n" (.int 7) } := rfl
  obtain ⟨frame, serialized, read, _⟩ :=
    deserialize_serialize Json.objectModule built rfl (by decide +kernel)
  exact ⟨_, frame, built, serialized, read⟩

end Message

end Col733.Lab2

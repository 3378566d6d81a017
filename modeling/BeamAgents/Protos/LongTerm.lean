import BeamAgents.Memory.Store
import BeamAgents.Wire.Message

/-!
# Long-term records on the wire

`LongTermRecord` of `protos/beam_agents.proto`, the envelope of a row of a long-term store, as it is
written and read.

## Main definitions

* `LongTermRecordMessage`, `LongTermRecordMessage.codec`.
* `LongTermRecord.serialize`, `LongTermRecord.parse`.

## Main results

* `LongTermRecord.parse_serialize`: the envelope of a record is read back.
-/

namespace BeamAgents

open Wire Wire.Scalar

/-- The numbers and the wire types of the fields of `LongTermRecord`. -/
def LongTermRecordMessage.tags : List (ℕ × ℕ) := [(1, 0), (2, 2), (3, 2), (4, 0), (5, 0)]

/-- `LongTermRecord`. -/
structure LongTermRecordMessage where
  stateSchemaVersion : UInt32 := 0
  key : String := ""
  value : Bytes := []
  seq : Int64 := 0
  updatedAtMs : Int64 := 0
  unknown : UnknownFields LongTermRecordMessage.tags := .empty
  deriving DecidableEq

namespace LongTermRecordMessage

/-- How the message is written. -/
def schema : Schema LongTermRecordMessage where
  tags := tags
  nodup := by decide
  numbers := by decide
  parts m :=
    [uint32.one 1 m.stateSchemaVersion, string.one 2 m.key, bytes.one 3 m.value, int64.one 4 m.seq,
      int64.one 5 m.updatedAtMs]
  tags_parts _ := rfl
  unknown := unknown

/-- The message that fields are read as. -/
def read (fs : List Field) (unknown : UnknownFields tags) : Option LongTermRecordMessage := do
  let stateSchemaVersion ← uint32.last 1 fs
  let key ← string.last 2 fs
  let value ← bytes.last 3 fs
  let seq ← int64.last 4 fs
  let updatedAtMs ← int64.last 5 fs
  return { stateSchemaVersion, key, value, seq, updatedAtMs, unknown }

theorem read_fields (m : LongTermRecordMessage) : read (schema.fields m) m.unknown = some m := by
  have hlast {α : Type} [DecidableEq α] {c : Scalar α} {number : ℕ} {a : α} (i : ℕ)
      (hi : (schema.parts m)[i]? = some (c.one number a)) :
      c.last number (schema.fields m) = some a :=
    last_eq (Schema.select_fields (List.mem_of_getElem? hi))
  simp only [read, hlast 0 rfl, hlast 1 rfl, hlast 2 rfl, hlast 3 rfl, hlast 4 rfl]
  rfl

/-- `LongTermRecord` as it is written and read. -/
def codec : MessageCodec LongTermRecordMessage where
  toSchema := schema
  read := read
  read_fields m _ := read_fields m

end LongTermRecordMessage

namespace LongTermRecord

/-- The message of an envelope. -/
def message (record : LongTermRecord) : LongTermRecordMessage where
  stateSchemaVersion := UInt32.ofNat record.stateSchemaVersion
  key := record.key
  value := record.value
  seq := Int64.ofInt record.seq
  updatedAtMs := Int64.ofInt record.updatedAtMs

/-- The envelope of a message. -/
def ofMessage (m : LongTermRecordMessage) : LongTermRecord where
  stateSchemaVersion := m.stateSchemaVersion.toNat
  key := m.key
  value := m.value
  seq := m.seq.toInt.toNat
  updatedAtMs := m.updatedAtMs.toInt

/-- `SerializeToString`. -/
def serialize (record : LongTermRecord) : Bytes :=
  LongTermRecordMessage.codec.serialize record.message

/-- `ParseFromString`; none is its `DecodeError`. -/
def parse (encoded : Bytes) : Option LongTermRecord :=
  (LongTermRecordMessage.codec.parse encoded).map ofMessage

/-- The numbers of an envelope are those of the message type. -/
structure Valid (record : LongTermRecord) : Prop where
  stateSchemaVersion : record.stateSchemaVersion < 2 ^ 32
  seq : record.seq < 2 ^ 63
  updatedAtMs : -2 ^ 63 ≤ record.updatedAtMs ∧ record.updatedAtMs < 2 ^ 63

theorem ofMessage_message {record : LongTermRecord} (h : record.Valid) :
    ofMessage record.message = record := by
  have hversion : (UInt32.ofNat record.stateSchemaVersion).toNat = record.stateSchemaVersion :=
    UInt32.toNat_ofNat_of_lt' h.stateSchemaVersion
  have hseq : (Int64.ofInt (record.seq : Int)).toInt = record.seq :=
    Int64.toInt_ofInt_of_le (by omega) (by have := h.seq; omega)
  have hupdated : (Int64.ofInt record.updatedAtMs).toInt = record.updatedAtMs :=
    Int64.toInt_ofInt_of_le h.updatedAtMs.1 h.updatedAtMs.2
  obtain ⟨version, key, value, seq, updated⟩ := record
  simp only [ofMessage, message, hversion, hseq, hupdated, Int.toNat_natCast]

/-- **The envelope of a record is read back** if it is not too long to be written. -/
theorem parse_serialize {record : LongTermRecord} (h : record.Valid)
    (hfits : LongTermRecordMessage.codec.Fits record.message) :
    parse record.serialize = some record := by
  rw [parse, serialize, MessageCodec.parse_serialize hfits, Option.map_some, ofMessage_message h]

end LongTermRecord

end BeamAgents

import BeamAgents.Protos
import BeamAgents.Wire.Message

/-!
# Error records on the wire

`ActivationErrorRecord` of `protos/beam_agents.proto`, the published form of a dead letter.

## Main definitions

* `ActivationErrorRecordMessage`, `ActivationErrorRecordMessage.codec`.
-/

namespace BeamAgents

open Wire Wire.Scalar

/-- The numbers and the wire types of the fields of `ActivationErrorRecord`. -/
def ActivationErrorRecordMessage.tags : List (ℕ × ℕ) := [(1, 2), (2, 2), (3, 2), (4, 0)]

/-- `ActivationErrorRecord`. -/
structure ActivationErrorRecordMessage where
  entityKey : Bytes := []
  reason : String := ""
  detail : String := ""
  eventTimeMs : Int64 := 0
  unknown : UnknownFields ActivationErrorRecordMessage.tags := .empty
  deriving DecidableEq

namespace ActivationErrorRecordMessage

/-- How the message is written. -/
def schema : Schema ActivationErrorRecordMessage where
  tags := tags
  nodup := by decide
  numbers := by decide
  parts m :=
    [bytes.one 1 m.entityKey, string.one 2 m.reason, string.one 3 m.detail,
      int64.one 4 m.eventTimeMs]
  tags_parts _ := rfl
  unknown := unknown

/-- The message that fields are read as. -/
def read (fs : List Field) (unknown : UnknownFields tags) :
    Option ActivationErrorRecordMessage := do
  let entityKey ← bytes.last 1 fs
  let reason ← string.last 2 fs
  let detail ← string.last 3 fs
  let eventTimeMs ← int64.last 4 fs
  return { entityKey, reason, detail, eventTimeMs, unknown }

theorem read_fields (m : ActivationErrorRecordMessage) :
    read (schema.fields m) m.unknown = some m := by
  have hlast {α : Type} [DecidableEq α] {c : Scalar α} {number : ℕ} {a : α} (i : ℕ)
      (hi : (schema.parts m)[i]? = some (c.one number a)) :
      c.last number (schema.fields m) = some a :=
    last_eq (Schema.select_fields (List.mem_of_getElem? hi))
  simp only [read, hlast 0 rfl, hlast 1 rfl, hlast 2 rfl, hlast 3 rfl]
  rfl

/-- `ActivationErrorRecord` as it is written and read. -/
def codec : MessageCodec ActivationErrorRecordMessage where
  toSchema := schema
  read := read
  read_fields m _ := read_fields m

/-- `SerializeToString(deterministic=True)`. -/
def serialize (m : ActivationErrorRecordMessage) : Bytes := codec.serialize m

end ActivationErrorRecordMessage

end BeamAgents

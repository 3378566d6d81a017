import BeamAgents.Protos
import BeamAgents.Wire.Message

/-!
# Tool intents on the wire

`ToolIntent` of `protos/beam_agents.proto` with all of its fields, those of the signature envelope
among them, and the fields that a reader with older bindings keeps.

## Main definitions

* `ToolIntentMessage`, `ToolIntentMessage.codec`.

## Main results

* `ToolIntentMessage.serialize_injective`.
-/

namespace BeamAgents

open Wire Wire.Scalar

/-- The numbers and the wire types of the fields of `ToolIntent`. -/
def ToolIntentMessage.tags : List (ℕ × ℕ) :=
  [(1, 2), (2, 2), (3, 0), (4, 0), (5, 2), (6, 2), (7, 0), (8, 0), (9, 0), (10, 0), (11, 2),
    (12, 0), (13, 2), (14, 2)]

/-- `ToolIntent`. An enumeration is its number, which may be one that is not declared. -/
structure ToolIntentMessage where
  intentId : String := ""
  entityKey : Bytes := []
  seq : Int64 := 0
  stepIndex : UInt32 := 0
  toolName : String := ""
  argsJson : String := ""
  createdAtMs : Int64 := 0
  expiresAtMs : Int64 := 0
  attempt : UInt32 := 0
  kind : Int32 := 0
  traceId : Bytes := []
  signatureScheme : Int32 := 0
  signingKeyId : String := ""
  signature : Bytes := []
  unknown : UnknownFields ToolIntentMessage.tags := .empty
  deriving DecidableEq

namespace ToolIntentMessage

/-- How the message is written. -/
def schema : Schema ToolIntentMessage where
  tags := tags
  nodup := by decide
  numbers := by decide
  parts m :=
    [string.one 1 m.intentId, bytes.one 2 m.entityKey, int64.one 3 m.seq, uint32.one 4 m.stepIndex,
      string.one 5 m.toolName, string.one 6 m.argsJson, int64.one 7 m.createdAtMs,
      int64.one 8 m.expiresAtMs, uint32.one 9 m.attempt, enumeration.one 10 m.kind,
      bytes.one 11 m.traceId, enumeration.one 12 m.signatureScheme, string.one 13 m.signingKeyId,
      bytes.one 14 m.signature]
  tags_parts _ := rfl
  unknown := unknown

/-- The message that fields are read as. -/
def read (fs : List Field) (unknown : UnknownFields tags) : Option ToolIntentMessage := do
  let intentId ← string.last 1 fs
  let entityKey ← bytes.last 2 fs
  let seq ← int64.last 3 fs
  let stepIndex ← uint32.last 4 fs
  let toolName ← string.last 5 fs
  let argsJson ← string.last 6 fs
  let createdAtMs ← int64.last 7 fs
  let expiresAtMs ← int64.last 8 fs
  let attempt ← uint32.last 9 fs
  let kind ← enumeration.last 10 fs
  let traceId ← bytes.last 11 fs
  let signatureScheme ← enumeration.last 12 fs
  let signingKeyId ← string.last 13 fs
  let signature ← bytes.last 14 fs
  return { intentId, entityKey, seq, stepIndex, toolName, argsJson, createdAtMs, expiresAtMs,
           attempt, kind, traceId, signatureScheme, signingKeyId, signature, unknown }

theorem read_fields (m : ToolIntentMessage) : read (schema.fields m) m.unknown = some m := by
  have hlast {α : Type} [DecidableEq α] {c : Scalar α} {number : ℕ} {a : α} (i : ℕ)
      (hi : (schema.parts m)[i]? = some (c.one number a)) :
      c.last number (schema.fields m) = some a :=
    last_eq (Schema.select_fields (List.mem_of_getElem? hi))
  simp only [read, hlast 0 rfl, hlast 1 rfl, hlast 2 rfl, hlast 3 rfl, hlast 4 rfl, hlast 5 rfl,
    hlast 6 rfl, hlast 7 rfl, hlast 8 rfl, hlast 9 rfl, hlast 10 rfl, hlast 11 rfl, hlast 12 rfl,
    hlast 13 rfl]
  rfl

/-- `ToolIntent` as it is written and read. -/
def codec : MessageCodec ToolIntentMessage where
  toSchema := schema
  read := read
  read_fields m _ := read_fields m

/-- **Intents that are written as the same bytes are the same**, field by field. -/
theorem serialize_injective : Function.Injective codec.serialize := by
  intro m m' h
  have hfields : schema.fields m = schema.fields m' := Schema.fields_eq_of_serialize_eq h
  have hunknown : m.unknown = m'.unknown := by
    apply UnknownFields.fields_injective
    have hm : (schema.fields m).filter (·.tag ∉ tags) = m.unknown.fields :=
      Schema.filter_fields (c := schema)
    have hm' : (schema.fields m').filter (·.tag ∉ tags) = m'.unknown.fields :=
      Schema.filter_fields (c := schema)
    rw [← hm, ← hm', hfields]
  have hread := read_fields m
  rw [hfields, hunknown, read_fields m'] at hread
  exact (Option.some.inj hread).symm

end ToolIntentMessage

end BeamAgents

import BeamAgents.Wire.Oneof
import BeamAgents.Protos

/-!
# Envelopes on the wire

`ToolResult` and `AgentEnvelope` of `protos/beam_agents.proto`, with the messages that an envelope
may hold.

## Main definitions

* `ToolResultMessage`, `ApprovalMessage`, `StateExportRequestMessage` and their codecs.
* `PayloadMessage`, `AgentEnvelopeMessage`, `AgentEnvelopeMessage.codec`.
-/

namespace BeamAgents

open Wire Wire.Scalar

/-! ### What an envelope may hold -/

/-- The numbers and the wire types of the fields of `ToolResult`. -/
def ToolResultMessage.tags : List (ℕ × ℕ) :=
  [(1, 2), (2, 2), (3, 0), (4, 0), (5, 2), (6, 2), (7, 0)]

/-- `ToolResult`. The status is its number, which may be one that is not declared. -/
structure ToolResultMessage where
  intentId : String := ""
  entityKey : Bytes := []
  seq : Int64 := 0
  status : Int32 := 0
  payload : Bytes := []
  errorMessage : String := ""
  completedAtMs : Int64 := 0
  unknown : UnknownFields ToolResultMessage.tags := .empty
  deriving DecidableEq

namespace ToolResultMessage

/-- How the message is written. -/
def schema : Schema ToolResultMessage where
  tags := tags
  nodup := by decide
  numbers := by decide
  parts m :=
    [string.one 1 m.intentId, bytes.one 2 m.entityKey, int64.one 3 m.seq,
      enumeration.one 4 m.status, bytes.one 5 m.payload, string.one 6 m.errorMessage,
      int64.one 7 m.completedAtMs]
  tags_parts _ := rfl
  unknown := unknown

/-- The message that fields are read as. -/
def read (fs : List Field) (unknown : UnknownFields tags) : Option ToolResultMessage := do
  let intentId ← string.last 1 fs
  let entityKey ← bytes.last 2 fs
  let seq ← int64.last 3 fs
  let status ← enumeration.last 4 fs
  let payload ← bytes.last 5 fs
  let errorMessage ← string.last 6 fs
  let completedAtMs ← int64.last 7 fs
  return { intentId, entityKey, seq, status, payload, errorMessage, completedAtMs, unknown }

theorem read_fields (m : ToolResultMessage) : read (schema.fields m) m.unknown = some m := by
  have hlast {α : Type} [DecidableEq α] {c : Scalar α} {number : ℕ} {a : α} (i : ℕ)
      (hi : (schema.parts m)[i]? = some (c.one number a)) :
      c.last number (schema.fields m) = some a :=
    last_eq (Schema.select_fields (List.mem_of_getElem? hi))
  simp only [read, hlast 0 rfl, hlast 1 rfl, hlast 2 rfl, hlast 3 rfl, hlast 4 rfl, hlast 5 rfl,
    hlast 6 rfl]
  rfl

/-- `ToolResult` as it is written and read. -/
def codec : MessageCodec ToolResultMessage where
  toSchema := schema
  read := read
  read_fields m _ := read_fields m

end ToolResultMessage

/-- The numbers and the wire types of the fields of `AgentEnvelope.Approval`. -/
def ApprovalMessage.tags : List (ℕ × ℕ) := [(1, 2), (2, 0), (3, 2), (4, 0)]

/-- `AgentEnvelope.Approval`. -/
structure ApprovalMessage where
  intentId : String := ""
  approved : Bool := false
  approver : String := ""
  decidedAtMs : Int64 := 0
  unknown : UnknownFields ApprovalMessage.tags := .empty
  deriving DecidableEq

namespace ApprovalMessage

/-- How the message is written. -/
def schema : Schema ApprovalMessage where
  tags := tags
  nodup := by decide
  numbers := by decide
  parts m :=
    [string.one 1 m.intentId, bool.one 2 m.approved, string.one 3 m.approver,
      int64.one 4 m.decidedAtMs]
  tags_parts _ := rfl
  unknown := unknown

/-- The message that fields are read as. -/
def read (fs : List Field) (unknown : UnknownFields tags) : Option ApprovalMessage := do
  let intentId ← string.last 1 fs
  let approved ← bool.last 2 fs
  let approver ← string.last 3 fs
  let decidedAtMs ← int64.last 4 fs
  return { intentId, approved, approver, decidedAtMs, unknown }

theorem read_fields (m : ApprovalMessage) : read (schema.fields m) m.unknown = some m := by
  have hlast {α : Type} [DecidableEq α] {c : Scalar α} {number : ℕ} {a : α} (i : ℕ)
      (hi : (schema.parts m)[i]? = some (c.one number a)) :
      c.last number (schema.fields m) = some a :=
    last_eq (Schema.select_fields (List.mem_of_getElem? hi))
  simp only [read, hlast 0 rfl, hlast 1 rfl, hlast 2 rfl, hlast 3 rfl]
  rfl

/-- `AgentEnvelope.Approval` as it is written and read. -/
def codec : MessageCodec ApprovalMessage where
  toSchema := schema
  read := read
  read_fields m _ := read_fields m

end ApprovalMessage

/-- The number and the wire type of the field of `AgentEnvelope.StateExportRequest`. -/
def StateExportRequestMessage.tags : List (ℕ × ℕ) := [(1, 2)]

/-- `AgentEnvelope.StateExportRequest`. -/
structure StateExportRequestMessage where
  requestId : String := ""
  unknown : UnknownFields StateExportRequestMessage.tags := .empty
  deriving DecidableEq

namespace StateExportRequestMessage

/-- How the message is written. -/
def schema : Schema StateExportRequestMessage where
  tags := tags
  nodup := by decide
  numbers := by decide
  parts m := [string.one 1 m.requestId]
  tags_parts _ := rfl
  unknown := unknown

/-- The message that fields are read as. -/
def read (fs : List Field) (unknown : UnknownFields tags) : Option StateExportRequestMessage := do
  let requestId ← string.last 1 fs
  return { requestId, unknown }

theorem read_fields (m : StateExportRequestMessage) :
    read (schema.fields m) m.unknown = some m := by
  have hlast : string.last 1 (schema.fields m) = some m.requestId :=
    last_eq (Schema.select_fields (List.mem_of_getElem? (i := 0) rfl))
  simp only [read, hlast]
  rfl

/-- `AgentEnvelope.StateExportRequest` as it is written and read. -/
def codec : MessageCodec StateExportRequestMessage where
  toSchema := schema
  read := read
  read_fields m _ := read_fields m

end StateExportRequestMessage

/-! ### Envelopes -/

/-- The member of `payload` that is set. -/
inductive PayloadMessage
  | unset
  | externalEvent (event : Bytes)
  | toolResult (result : ToolResultMessage)
  | approval (approval : ApprovalMessage)
  | exportRequest (request : StateExportRequestMessage)
  deriving DecidableEq

namespace PayloadMessage

/-- The numbers and the wire types of the members. -/
def tags : List (ℕ × ℕ) := [(3, 2), (4, 2), (5, 2), (6, 2)]

def event? : PayloadMessage → Option Bytes
  | .externalEvent event => some event
  | _ => none

def result? : PayloadMessage → Option ToolResultMessage
  | .toolResult result => some result
  | _ => none

def approval? : PayloadMessage → Option ApprovalMessage
  | .approval decision => some decision
  | _ => none

def request? : PayloadMessage → Option StateExportRequestMessage
  | .exportRequest request => some request
  | _ => none

/-- The member that fields are read as. Every occurrence of a member has to be well formed. -/
def read (fs : List Field) : Option PayloadMessage := do
  let _ ← ToolResultMessage.codec.all 4 fs
  let _ ← ApprovalMessage.codec.all 5 fs
  let _ ← StateExportRequestMessage.codec.all 6 fs
  let held := heldFields tags fs
  let events ← bytes.all 3 held
  let result ← ToolResultMessage.codec.merged 4 held
  let decision ← ApprovalMessage.codec.merged 5 held
  let request ← StateExportRequestMessage.codec.merged 6 held
  return match events.getLast?, result, decision, request with
    | some event, _, _, _ => .externalEvent event
    | none, some result, _, _ => .toolResult result
    | none, none, some decision, _ => .approval decision
    | none, none, none, some request => .exportRequest request
    | none, none, none, none => .unset

end PayloadMessage

/-- The numbers and the wire types of the fields of `AgentEnvelope`. -/
def AgentEnvelopeMessage.tags : List (ℕ × ℕ) :=
  [(1, 2), (2, 0), (3, 2), (4, 2), (5, 2), (6, 2)]

/-- `AgentEnvelope`. -/
structure AgentEnvelopeMessage where
  entityKey : Bytes := []
  eventTimeMs : Int64 := 0
  payload : PayloadMessage := .unset
  unknown : UnknownFields AgentEnvelopeMessage.tags := .empty
  deriving DecidableEq

namespace AgentEnvelopeMessage

/-- How the message is written. -/
def schema : Schema AgentEnvelopeMessage where
  tags := tags
  nodup := by decide
  numbers := by decide
  parts m :=
    [bytes.one 1 m.entityKey, int64.one 2 m.eventTimeMs, bytes.present 3 m.payload.event?,
      ToolResultMessage.codec.one 4 m.payload.result?,
      ApprovalMessage.codec.one 5 m.payload.approval?,
      StateExportRequestMessage.codec.one 6 m.payload.request?]
  tags_parts _ := rfl
  unknown := unknown

/-- The message that fields are read as. -/
def read (fs : List Field) (unknown : UnknownFields tags) : Option AgentEnvelopeMessage := do
  let entityKey ← bytes.last 1 fs
  let eventTimeMs ← int64.last 2 fs
  let payload ← PayloadMessage.read fs
  return { entityKey, eventTimeMs, payload, unknown }

/-- Of the members an envelope writes the one that it has. -/
theorem heldFields_fields (m : AgentEnvelopeMessage) :
    heldFields PayloadMessage.tags (schema.fields m) =
      match m.payload with
      | .unset => []
      | .externalEvent event => [.of 3 (bytes.encode event)]
      | .toolResult result => [.of 4 (ToolResultMessage.codec.encode result)]
      | .approval approval => [.of 5 (ApprovalMessage.codec.encode approval)]
      | .exportRequest request => [.of 6 (StateExportRequestMessage.codec.encode request)] := by
  have hmembers : PayloadMessage.tags ⊆ schema.tags := by decide
  have hparts : (schema.parts m).filter (·.tag ∈ PayloadMessage.tags) =
      [bytes.present 3 m.payload.event?, ToolResultMessage.codec.one 4 m.payload.result?,
        ApprovalMessage.codec.one 5 m.payload.approval?,
        StateExportRequestMessage.codec.one 6 m.payload.request?] := rfl
  rw [Schema.heldFields_fields hmembers, hparts]
  cases m.payload with
  | unset => rfl
  | externalEvent event => exact lastRun_singleton _
  | toolResult result => exact lastRun_singleton _
  | approval decision => exact lastRun_singleton _
  | exportRequest request => exact lastRun_singleton _

/-- Of the member that an envelope has, what counts is what was written. -/
theorem select_heldFields (m : AgentEnvelopeMessage) {p : Part} (hp : p ∈ (schema.parts m).drop 2) :
    select p.tag (heldFields PayloadMessage.tags (schema.fields m)) = p.values := by
  have hparts : (schema.parts m).drop 2 =
      [bytes.present 3 m.payload.event?, ToolResultMessage.codec.one 4 m.payload.result?,
        ApprovalMessage.codec.one 5 m.payload.approval?,
        StateExportRequestMessage.codec.one 6 m.payload.request?] := rfl
  rw [hparts] at hp
  rw [heldFields_fields]
  clear hparts
  generalize m.payload = payload at hp
  simp only [List.mem_cons, List.not_mem_nil, or_false] at hp
  obtain rfl | rfl | rfl | rfl := hp <;> cases payload <;> rfl

/-- The member of an envelope is read. -/
theorem readPayload_fields (m : AgentEnvelopeMessage) (hfits : schema.Fits m) :
    PayloadMessage.read (schema.fields m) = some m.payload := by
  have hfits' {M : Type} {c : MessageCodec M} {number : ℕ} {member : Option M}
      (hp : c.one number member ∈ (schema.parts m).drop 2) : ∀ a ∈ member, c.Fits a := by
    rintro a rfl
    exact MessageCodec.fits_of_mem hfits (List.mem_of_mem_drop hp) List.mem_cons_self
  have hall {M : Type} {c : MessageCodec M} {number : ℕ} {member : Option M}
      (hp : c.one number member ∈ (schema.parts m).drop 2) :
      c.all number (schema.fields m) = some member.toList := by
    have hselect := Schema.select_fields (List.mem_of_mem_drop hp)
    refine MessageCodec.all_eq (fun a ha => hfits' hp a (Option.mem_toList.mp ha)) ?_
    cases member <;> exact hselect
  have hmerged {M : Type} {c : MessageCodec M} {number : ℕ} {member : Option M}
      (hp : c.one number member ∈ (schema.parts m).drop 2) :
      c.merged number (heldFields PayloadMessage.tags (schema.fields m)) = some member :=
    MessageCodec.merged_eq (hfits' hp) (select_heldFields m hp)
  have hevents : bytes.all 3 (heldFields PayloadMessage.tags (schema.fields m)) =
      some m.payload.event?.toList := by
    have hselect := select_heldFields m (p := bytes.present 3 m.payload.event?) List.mem_cons_self
    refine all_eq (hselect.trans ?_)
    cases m.payload.event? <;> rfl
  have hresult : ToolResultMessage.codec.one 4 m.payload.result? ∈ (schema.parts m).drop 2 :=
    List.mem_of_getElem? (i := 1) rfl
  have hdecision : ApprovalMessage.codec.one 5 m.payload.approval? ∈ (schema.parts m).drop 2 :=
    List.mem_of_getElem? (i := 2) rfl
  have hrequest : StateExportRequestMessage.codec.one 6 m.payload.request? ∈
      (schema.parts m).drop 2 := List.mem_of_getElem? (i := 3) rfl
  simp only [PayloadMessage.read, hall hresult, hall hdecision, hall hrequest, hevents,
    hmerged hresult, hmerged hdecision, hmerged hrequest]
  cases m.payload <;> rfl

theorem read_fields (m : AgentEnvelopeMessage) (hfits : schema.Fits m) :
    read (schema.fields m) m.unknown = some m := by
  have hkey : bytes.last 1 (schema.fields m) = some m.entityKey :=
    last_eq (Schema.select_fields (List.mem_of_getElem? (i := 0) rfl))
  have htime : int64.last 2 (schema.fields m) = some m.eventTimeMs :=
    last_eq (Schema.select_fields (List.mem_of_getElem? (i := 1) rfl))
  simp only [read, hkey, htime, readPayload_fields m hfits]
  rfl

/-- `AgentEnvelope` as it is written and read. -/
def codec : MessageCodec AgentEnvelopeMessage where
  toSchema := schema
  read := read
  read_fields := read_fields

end AgentEnvelopeMessage

end BeamAgents

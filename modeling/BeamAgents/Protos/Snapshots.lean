import BeamAgents.Protos.Intents

/-!
# Snapshots on the wire

`StateSnapshot` of `protos/beam_agents.proto` with the state blobs that it holds. A snapshot of a
key without a continuation has none, which is not one whose fields are zero.

## Main definitions

* `MemoryEntryMessage`, `MemoryBlobMessage`, `LlmCacheEntryMessage`, `LlmCacheBlobMessage`,
  `ContinuationMessage` and their codecs.
* `StateSnapshotMessage`, `StateSnapshotMessage.codec`.
-/

namespace BeamAgents

open Wire Wire.Scalar

/-! ### Working memory -/

/-- The numbers and the wire types of the fields of `MemoryBlob.MemoryEntry`. -/
def MemoryEntryMessage.tags : List (ℕ × ℕ) := [(1, 2), (2, 2), (3, 0)]

/-- `MemoryBlob.MemoryEntry`. -/
structure MemoryEntryMessage where
  key : String := ""
  value : Bytes := []
  lastAccessMs : Int64 := 0
  unknown : UnknownFields MemoryEntryMessage.tags := .empty
  deriving DecidableEq

namespace MemoryEntryMessage

/-- How the message is written. -/
def schema : Schema MemoryEntryMessage where
  tags := tags
  nodup := by decide
  numbers := by decide
  parts m := [string.one 1 m.key, bytes.one 2 m.value, int64.one 3 m.lastAccessMs]
  tags_parts _ := rfl
  unknown := unknown

/-- The message that fields are read as. -/
def read (fs : List Field) (unknown : UnknownFields tags) : Option MemoryEntryMessage := do
  let key ← string.last 1 fs
  let value ← bytes.last 2 fs
  let lastAccessMs ← int64.last 3 fs
  return { key, value, lastAccessMs, unknown }

theorem read_fields (m : MemoryEntryMessage) : read (schema.fields m) m.unknown = some m := by
  have hlast {α : Type} [DecidableEq α] {c : Scalar α} {number : ℕ} {a : α} (i : ℕ)
      (hi : (schema.parts m)[i]? = some (c.one number a)) :
      c.last number (schema.fields m) = some a :=
    last_eq (Schema.select_fields (List.mem_of_getElem? hi))
  simp only [read, hlast 0 rfl, hlast 1 rfl, hlast 2 rfl]
  rfl

/-- `MemoryBlob.MemoryEntry` as it is written and read. -/
def codec : MessageCodec MemoryEntryMessage where
  toSchema := schema
  read := read
  read_fields m _ := read_fields m

end MemoryEntryMessage

/-- The numbers and the wire types of the fields of `MemoryBlob`. -/
def MemoryBlobMessage.tags : List (ℕ × ℕ) := [(1, 0), (2, 2), (3, 0)]

/-- `MemoryBlob`. -/
structure MemoryBlobMessage where
  stateSchemaVersion : UInt32 := 0
  entries : List MemoryEntryMessage := []
  totalValueBytes : Int64 := 0
  unknown : UnknownFields MemoryBlobMessage.tags := .empty
  deriving DecidableEq

namespace MemoryBlobMessage

/-- How the message is written. -/
def schema : Schema MemoryBlobMessage where
  tags := tags
  nodup := by decide
  numbers := by decide
  parts m :=
    [uint32.one 1 m.stateSchemaVersion, MemoryEntryMessage.codec.each 2 m.entries,
      int64.one 3 m.totalValueBytes]
  tags_parts _ := rfl
  unknown := unknown

/-- The message that fields are read as. -/
def read (fs : List Field) (unknown : UnknownFields tags) : Option MemoryBlobMessage := do
  let stateSchemaVersion ← uint32.last 1 fs
  let entries ← MemoryEntryMessage.codec.all 2 fs
  let totalValueBytes ← int64.last 3 fs
  return { stateSchemaVersion, entries, totalValueBytes, unknown }

theorem read_fields {m : MemoryBlobMessage} (hfits : schema.Fits m) :
    read (schema.fields m) m.unknown = some m := by
  have hlast {α : Type} [DecidableEq α] {c : Scalar α} {number : ℕ} {a : α} (i : ℕ)
      (hi : (schema.parts m)[i]? = some (c.one number a)) :
      c.last number (schema.fields m) = some a :=
    last_eq (Schema.select_fields (List.mem_of_getElem? hi))
  have hentries : MemoryEntryMessage.codec.all 2 (schema.fields m) = some m.entries :=
    MessageCodec.all_eq_of_fits hfits (List.mem_of_getElem? (i := 1) rfl)
  simp only [read, hlast 0 rfl, hentries, hlast 2 rfl]
  rfl

/-- `MemoryBlob` as it is written and read. -/
def codec : MessageCodec MemoryBlobMessage where
  toSchema := schema
  read := read
  read_fields _ hfits := read_fields hfits

end MemoryBlobMessage

/-! ### The replay cache -/

/-- The numbers and the wire types of the fields of `LlmCacheBlob.LlmCacheEntry`. -/
def LlmCacheEntryMessage.tags : List (ℕ × ℕ) := [(1, 2), (2, 2), (3, 2), (4, 0), (5, 0), (6, 0)]

/-- `LlmCacheBlob.LlmCacheEntry`. -/
structure LlmCacheEntryMessage where
  cacheKey : String := ""
  response : Bytes := []
  responseDigest : Bytes := []
  createdAtMs : Int64 := 0
  lastAccessMs : Int64 := 0
  digestOnly : Bool := false
  unknown : UnknownFields LlmCacheEntryMessage.tags := .empty
  deriving DecidableEq

namespace LlmCacheEntryMessage

/-- How the message is written. -/
def schema : Schema LlmCacheEntryMessage where
  tags := tags
  nodup := by decide
  numbers := by decide
  parts m :=
    [string.one 1 m.cacheKey, bytes.one 2 m.response, bytes.one 3 m.responseDigest,
      int64.one 4 m.createdAtMs, int64.one 5 m.lastAccessMs, bool.one 6 m.digestOnly]
  tags_parts _ := rfl
  unknown := unknown

/-- The message that fields are read as. -/
def read (fs : List Field) (unknown : UnknownFields tags) : Option LlmCacheEntryMessage := do
  let cacheKey ← string.last 1 fs
  let response ← bytes.last 2 fs
  let responseDigest ← bytes.last 3 fs
  let createdAtMs ← int64.last 4 fs
  let lastAccessMs ← int64.last 5 fs
  let digestOnly ← bool.last 6 fs
  return { cacheKey, response, responseDigest, createdAtMs, lastAccessMs, digestOnly, unknown }

theorem read_fields (m : LlmCacheEntryMessage) : read (schema.fields m) m.unknown = some m := by
  have hlast {α : Type} [DecidableEq α] {c : Scalar α} {number : ℕ} {a : α} (i : ℕ)
      (hi : (schema.parts m)[i]? = some (c.one number a)) :
      c.last number (schema.fields m) = some a :=
    last_eq (Schema.select_fields (List.mem_of_getElem? hi))
  simp only [read, hlast 0 rfl, hlast 1 rfl, hlast 2 rfl, hlast 3 rfl, hlast 4 rfl, hlast 5 rfl]
  rfl

/-- `LlmCacheBlob.LlmCacheEntry` as it is written and read. -/
def codec : MessageCodec LlmCacheEntryMessage where
  toSchema := schema
  read := read
  read_fields m _ := read_fields m

end LlmCacheEntryMessage

/-- The numbers and the wire types of the fields of `LlmCacheBlob`. -/
def LlmCacheBlobMessage.tags : List (ℕ × ℕ) := [(1, 0), (2, 2), (3, 0)]

/-- `LlmCacheBlob`. -/
structure LlmCacheBlobMessage where
  stateSchemaVersion : UInt32 := 0
  entries : List LlmCacheEntryMessage := []
  totalResponseBytes : Int64 := 0
  unknown : UnknownFields LlmCacheBlobMessage.tags := .empty
  deriving DecidableEq

namespace LlmCacheBlobMessage

/-- How the message is written. -/
def schema : Schema LlmCacheBlobMessage where
  tags := tags
  nodup := by decide
  numbers := by decide
  parts m :=
    [uint32.one 1 m.stateSchemaVersion, LlmCacheEntryMessage.codec.each 2 m.entries,
      int64.one 3 m.totalResponseBytes]
  tags_parts _ := rfl
  unknown := unknown

/-- The message that fields are read as. -/
def read (fs : List Field) (unknown : UnknownFields tags) : Option LlmCacheBlobMessage := do
  let stateSchemaVersion ← uint32.last 1 fs
  let entries ← LlmCacheEntryMessage.codec.all 2 fs
  let totalResponseBytes ← int64.last 3 fs
  return { stateSchemaVersion, entries, totalResponseBytes, unknown }

theorem read_fields {m : LlmCacheBlobMessage} (hfits : schema.Fits m) :
    read (schema.fields m) m.unknown = some m := by
  have hlast {α : Type} [DecidableEq α] {c : Scalar α} {number : ℕ} {a : α} (i : ℕ)
      (hi : (schema.parts m)[i]? = some (c.one number a)) :
      c.last number (schema.fields m) = some a :=
    last_eq (Schema.select_fields (List.mem_of_getElem? hi))
  have hentries : LlmCacheEntryMessage.codec.all 2 (schema.fields m) = some m.entries :=
    MessageCodec.all_eq_of_fits hfits (List.mem_of_getElem? (i := 1) rfl)
  simp only [read, hlast 0 rfl, hentries, hlast 2 rfl]
  rfl

/-- `LlmCacheBlob` as it is written and read. -/
def codec : MessageCodec LlmCacheBlobMessage where
  toSchema := schema
  read := read
  read_fields _ hfits := read_fields hfits

end LlmCacheBlobMessage

/-! ### Continuations -/

/-- The numbers and the wire types of the fields of `Continuation`. -/
def ContinuationMessage.tags : List (ℕ × ℕ) :=
  [(1, 0), (2, 0), (3, 0), (4, 2), (5, 2), (6, 2), (7, 0), (8, 0), (9, 0)]

/-- `Continuation`. -/
structure ContinuationMessage where
  stateSchemaVersion : UInt32 := 0
  seq : Int64 := 0
  stepIndex : UInt32 := 0
  pendingIntentIds : List String := []
  adapter : String := ""
  snapshot : Bytes := []
  suspendedAtMs : Int64 := 0
  deadlineMs : Int64 := 0
  escalations : UInt32 := 0
  unknown : UnknownFields ContinuationMessage.tags := .empty
  deriving DecidableEq

namespace ContinuationMessage

/-- How the message is written. -/
def schema : Schema ContinuationMessage where
  tags := tags
  nodup := by decide
  numbers := by decide
  parts m :=
    [uint32.one 1 m.stateSchemaVersion, int64.one 2 m.seq, uint32.one 3 m.stepIndex,
      string.each 4 m.pendingIntentIds, string.one 5 m.adapter, bytes.one 6 m.snapshot,
      int64.one 7 m.suspendedAtMs, int64.one 8 m.deadlineMs, uint32.one 9 m.escalations]
  tags_parts _ := rfl
  unknown := unknown

/-- The message that fields are read as. -/
def read (fs : List Field) (unknown : UnknownFields tags) : Option ContinuationMessage := do
  let stateSchemaVersion ← uint32.last 1 fs
  let seq ← int64.last 2 fs
  let stepIndex ← uint32.last 3 fs
  let pendingIntentIds ← string.all 4 fs
  let adapter ← string.last 5 fs
  let snapshot ← bytes.last 6 fs
  let suspendedAtMs ← int64.last 7 fs
  let deadlineMs ← int64.last 8 fs
  let escalations ← uint32.last 9 fs
  return { stateSchemaVersion, seq, stepIndex, pendingIntentIds, adapter, snapshot, suspendedAtMs,
           deadlineMs, escalations, unknown }

theorem read_fields (m : ContinuationMessage) : read (schema.fields m) m.unknown = some m := by
  have hlast {α : Type} [DecidableEq α] {c : Scalar α} {number : ℕ} {a : α} (i : ℕ)
      (hi : (schema.parts m)[i]? = some (c.one number a)) :
      c.last number (schema.fields m) = some a :=
    last_eq (Schema.select_fields (List.mem_of_getElem? hi))
  have hpending : string.all 4 (schema.fields m) = some m.pendingIntentIds :=
    all_eq (Schema.select_fields (List.mem_of_getElem? (i := 3) rfl))
  simp only [read, hlast 0 rfl, hlast 1 rfl, hlast 2 rfl, hpending, hlast 4 rfl, hlast 5 rfl,
    hlast 6 rfl, hlast 7 rfl, hlast 8 rfl]
  rfl

/-- `Continuation` as it is written and read. -/
def codec : MessageCodec ContinuationMessage where
  toSchema := schema
  read := read
  read_fields m _ := read_fields m

end ContinuationMessage

/-! ### Snapshots -/

/-- The numbers and the wire types of the fields of `StateSnapshot`. -/
def StateSnapshotMessage.tags : List (ℕ × ℕ) :=
  [(1, 0), (2, 2), (3, 0), (4, 0), (5, 2), (6, 2), (7, 2), (8, 2), (9, 2)]

/-- `StateSnapshot`. -/
structure StateSnapshotMessage where
  stateSchemaVersion : UInt32 := 0
  entityKey : Bytes := []
  seq : Int64 := 0
  snapshotAtMs : Int64 := 0
  memory : Option MemoryBlobMessage := none
  llmCache : Option LlmCacheBlobMessage := none
  continuation : Option ContinuationMessage := none
  pending : List ToolIntentMessage := []
  requestId : String := ""
  unknown : UnknownFields StateSnapshotMessage.tags := .empty
  deriving DecidableEq

namespace StateSnapshotMessage

/-- How the message is written. -/
def schema : Schema StateSnapshotMessage where
  tags := tags
  nodup := by decide
  numbers := by decide
  parts m :=
    [uint32.one 1 m.stateSchemaVersion, bytes.one 2 m.entityKey, int64.one 3 m.seq,
      int64.one 4 m.snapshotAtMs, MemoryBlobMessage.codec.one 5 m.memory,
      LlmCacheBlobMessage.codec.one 6 m.llmCache, ContinuationMessage.codec.one 7 m.continuation,
      ToolIntentMessage.codec.each 8 m.pending, string.one 9 m.requestId]
  tags_parts _ := rfl
  unknown := unknown

/-- The message that fields are read as. -/
def read (fs : List Field) (unknown : UnknownFields tags) : Option StateSnapshotMessage := do
  let stateSchemaVersion ← uint32.last 1 fs
  let entityKey ← bytes.last 2 fs
  let seq ← int64.last 3 fs
  let snapshotAtMs ← int64.last 4 fs
  let memory ← MemoryBlobMessage.codec.merged 5 fs
  let llmCache ← LlmCacheBlobMessage.codec.merged 6 fs
  let continuation ← ContinuationMessage.codec.merged 7 fs
  let pending ← ToolIntentMessage.codec.all 8 fs
  let requestId ← string.last 9 fs
  return { stateSchemaVersion, entityKey, seq, snapshotAtMs, memory, llmCache, continuation,
           pending, requestId, unknown }

theorem read_fields {m : StateSnapshotMessage} (hfits : schema.Fits m) :
    read (schema.fields m) m.unknown = some m := by
  have hlast {α : Type} [DecidableEq α] {c : Scalar α} {number : ℕ} {a : α} (i : ℕ)
      (hi : (schema.parts m)[i]? = some (c.one number a)) :
      c.last number (schema.fields m) = some a :=
    last_eq (Schema.select_fields (List.mem_of_getElem? hi))
  have hmerged {M : Type} {c : MessageCodec M} {number : ℕ} {a : Option M} (i : ℕ)
      (hi : (schema.parts m)[i]? = some (c.one number a)) :
      c.merged number (schema.fields m) = some a :=
    MessageCodec.merged_eq_of_fits hfits (List.mem_of_getElem? hi)
  have hpending : ToolIntentMessage.codec.all 8 (schema.fields m) = some m.pending :=
    MessageCodec.all_eq_of_fits hfits (List.mem_of_getElem? (i := 7) rfl)
  simp only [read, hlast 0 rfl, hlast 1 rfl, hlast 2 rfl, hlast 3 rfl, hmerged 4 rfl, hmerged 5 rfl,
    hmerged 6 rfl, hpending, hlast 8 rfl]
  rfl

/-- `StateSnapshot` as it is written and read. -/
def codec : MessageCodec StateSnapshotMessage where
  toSchema := schema
  read := read
  read_fields _ hfits := read_fields hfits

/-- `SerializeToString(deterministic=True)`. -/
def serialize (m : StateSnapshotMessage) : Bytes := codec.serialize m

end StateSnapshotMessage

end BeamAgents

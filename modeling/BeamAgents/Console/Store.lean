import BeamAgents.Console.BundleImport
import BeamAgents.Console.Rows
import BeamAgents.Containers.Table
import Mathlib.Data.Prod.Lex

/-!
# The tables of the console

`console/_schema.py` and the merges of `console/_store.py`: the records that producers delivered,
and the tables that are computed from them. An event is stored by trace, span and type, and a
further copy of it is merged into the stored one. An event is kept with its attributes, which the
schema has in a table of their own by the same key.

## Main definitions

* `EventKey`, `ActivationKey`, `FacetKey`, `SpanKey`, `SnapshotKey`: the primary keys.
* `ConsoleRecords`, `ConsoleRollups`: the tables.
* `mergeEvent`, `mergeSnapshot`: the upserts.
-/

namespace BeamAgents

open Containers

/-! ### Keys -/

/-- The primary key of `events`. -/
@[ext]
structure EventKey where
  traceId : String
  spanId : String
  eventType : String

instance : LinearOrder EventKey :=
  LinearOrder.lift' (fun k => toLex (k.traceId, toLex (k.spanId, k.eventType))) fun _ _ h => by
    have hpair := congrArg ofLex h
    have hrest := congrArg ofLex (congrArg Prod.snd hpair)
    exact EventKey.ext (congrArg Prod.fst hpair) (congrArg Prod.fst hrest) (congrArg Prod.snd hrest)

/-- The primary key of `activations`. -/
@[ext]
structure ActivationKey where
  entityKey : String
  seq : Int

instance : LinearOrder ActivationKey :=
  LinearOrder.lift' (fun k => toLex (k.entityKey, k.seq)) fun _ _ h =>
    have hpair := congrArg ofLex h
    ActivationKey.ext (congrArg Prod.fst hpair) (congrArg Prod.snd hpair)

/-- The primary key of `activation_tools` and of `activation_reasons`. -/
@[ext]
structure FacetKey where
  activation : ActivationKey
  value : String

instance : LinearOrder FacetKey :=
  LinearOrder.lift' (fun k => toLex (k.activation, k.value)) fun _ _ h =>
    have hpair := congrArg ofLex h
    FacetKey.ext (congrArg Prod.fst hpair) (congrArg Prod.snd hpair)

/-- The primary key of `spans`. -/
@[ext]
structure SpanKey where
  traceId : String
  spanId : String

instance : LinearOrder SpanKey :=
  LinearOrder.lift' (fun k => toLex (k.traceId, k.spanId)) fun _ _ h =>
    have hpair := congrArg ofLex h
    SpanKey.ext (congrArg Prod.fst hpair) (congrArg Prod.snd hpair)

/-- The primary key of `snapshots`. -/
@[ext]
structure SnapshotKey where
  entityKey : String
  seq : Int
  requestId : String
  snapshotAtMs : Int

instance : LinearOrder SnapshotKey :=
  LinearOrder.lift'
    (fun k => toLex (k.entityKey, toLex (k.seq, toLex (k.requestId, k.snapshotAtMs))))
    fun _ _ h => by
      have h₁ := congrArg ofLex h
      have h₂ := congrArg ofLex (congrArg Prod.snd h₁)
      have h₃ := congrArg ofLex (congrArg Prod.snd h₂)
      exact SnapshotKey.ext (congrArg Prod.fst h₁) (congrArg Prod.fst h₂) (congrArg Prod.fst h₃)
        (congrArg Prod.snd h₃)

/-! ### Records -/

/-- A row of `events`, with the attributes of the event. -/
structure StoredEvent where
  parentSpanId : String
  entityKey : String
  seq : Int
  stepIndex : ℕ
  startMs : Int
  endMs : Int
  provenance : Provenance
  attributes : Attributes
  deriving DecidableEq

/-- `_records.SnapshotRow` without its key. -/
structure SnapshotColumns where
  stateSchemaVersion : Int
  memoryEntries : ℕ
  memoryBytes : Int
  llmCacheEntries : ℕ
  pendingIntentIds : List String
  continuationStepIndex : Option Int
  continuationDeadlineMs : Option Int
  continuationAdapter : String
  raw : Bytes
  provenance : Provenance
  deriving DecidableEq

/-- `_records.SnapshotRow`. -/
structure SnapshotRow where
  key : SnapshotKey
  columns : SnapshotColumns

/-- The tables of what was delivered. -/
@[ext]
structure ConsoleRecords where
  events : SortedMap EventKey StoredEvent
  errors : ErrorTable
  snapshots : SortedMap SnapshotKey SnapshotColumns

namespace EventRow

/-- The key that a row is stored under. -/
def key (row : EventRow) : EventKey := ⟨row.traceId, row.spanId, row.eventType⟩

/-- The activation that a row names. -/
def activation (row : EventRow) : ActivationKey := ⟨row.entityKey, row.seq⟩

end EventRow

/-- The activation that an event is stored under. -/
def StoredEvent.activation (event : StoredEvent) : ActivationKey := ⟨event.entityKey, event.seq⟩

/-- The activation that an error is stored under, if any. -/
def ErrorRow.activation (row : ErrorRow) : Option ActivationKey :=
  row.seq.map fun seq => ⟨row.entityKey, seq⟩

/-- `_keep_if_empty`. -/
def keepIfEmpty (stored excluded : String) : String := if excluded ≠ "" then excluded else stored

/-- `_keep_if_zero`. -/
def keepIfZero (stored excluded : Int) : Int := if excluded ≠ 0 then excluded else stored

/-- `_ATTRIBUTE_UPSERT` for each of the attributes. -/
def mergeAttributes (stored incoming : Attributes) : Attributes :=
  incoming.entries.foldl (fun attributes p => attributes.set p.1 p.2) stored

/-- `_EVENT_UPSERT` and `_ATTRIBUTE_UPSERT`: what is stored of an event. -/
def mergeEvent (stored : Option StoredEvent) (row : EventRow) : StoredEvent :=
  match stored with
  | none =>
    { parentSpanId := row.parentSpanId
      entityKey := row.entityKey
      seq := row.seq
      stepIndex := row.stepIndex
      startMs := row.startMs
      endMs := row.endMs
      provenance := row.provenance
      attributes := mergeAttributes .empty row.attributes }
  | some event =>
    { parentSpanId := keepIfEmpty event.parentSpanId row.parentSpanId
      entityKey := keepIfEmpty event.entityKey row.entityKey
      seq := row.seq
      stepIndex := row.stepIndex
      startMs := keepIfZero event.startMs row.startMs
      endMs := keepIfZero event.endMs row.endMs
      provenance := keepLossless event.provenance row.provenance
      attributes := mergeAttributes event.attributes row.attributes }

/-- How many rows storing an event changes: its own, and those of its attributes. -/
def eventChanges (stored : Option StoredEvent) (row : EventRow) : ℕ :=
  (match stored with
    | none => 1
    | some event =>
      if { mergeEvent stored row with attributes := event.attributes } = event then 0 else 1) +
  (row.attributes.entries.filter fun p =>
    (stored.bind fun event => event.attributes.get? p.1) ≠ some p.2).length

/-- `_SNAPSHOT_UPSERT`. -/
def mergeSnapshot (stored : Option SnapshotColumns) (columns : SnapshotColumns) : SnapshotColumns :=
  match stored with
  | none => columns
  | some held =>
    { columns with
      raw := if 0 < columns.raw.length then columns.raw else held.raw
      provenance := keepLossless held.provenance columns.provenance }

/-! ### Roll-ups -/

/-- `_Rollup`. -/
structure Rollup where
  traceId : String
  status : String
  kind : String
  attempts : ℕ
  startedMs : Int
  endedMs : Option Int
  wallMs : Option Int
  model : Option String
  llmCalls : ℕ
  toolCalls : ℕ
  intents : ℕ
  errors : ℕ
  promptTokens : Option Int
  completionTokens : Option Int
  totalTokens : Option Int
  cacheHits : ℕ
  tools : List String
  reasons : List String
  provenance : List String
  completeProvenance : Bool
  deriving DecidableEq

/-- A row of `traces`. -/
structure TraceRollup where
  entityKey : String
  seq : Int
  startedMs : Int
  lastEventMs : Int
  events : ℕ
  spans : ℕ
  deriving DecidableEq

/-- A row of `spans`. -/
structure SpanRollup where
  parentSpanId : String
  entityKey : String
  seq : Int
  role : String
  stepIndex : ℕ
  firstMs : Int
  lastMs : Int
  events : ℕ
  deriving DecidableEq

/-- A row of `entities`. -/
structure EntityRollup where
  firstSeenMs : Int
  lastSeenMs : Int
  activations : ℕ
  errors : ℕ
  totalTokens : Option Int
  latestSeq : Option Int
  latestStatus : Option String
  deriving DecidableEq

/-- The tables that are computed. -/
@[ext]
structure ConsoleRollups where
  activations : SortedMap ActivationKey Rollup
  activationTools : SortedMap FacetKey Unit
  activationReasons : SortedMap FacetKey Unit
  traces : SortedMap String TraceRollup
  spans : SortedMap SpanKey SpanRollup
  entities : SortedMap String EntityRollup

/-- The tables without rows. -/
def ConsoleRollups.empty : ConsoleRollups := ⟨.empty, .empty, .empty, .empty, .empty, .empty⟩

end BeamAgents

import BeamAgents.Console.Store
import BeamAgents.Observability.Traces
import Mathlib.Data.List.Sort

/-!
# Roll-ups of the console

What `console/_store.py` computes from the records, and when. A write recomputes the roll-ups of the
keys that its records carry, and pruning those of the records that it removes.

The order of events with one start, span and type, which SQLite leaves open, is that of their keys.
The conversion `int` of a text is a parameter.

## Main definitions

* `summarize`, `traceRollup`, `spanRollups`, `entityRollup`: what is computed for a key.
* `ConsoleDb` with `recompute`, `write` and `prune`.
-/

namespace BeamAgents

open Containers

/-! ### Summaries -/

/-- `_StoredEvent`: an event as the roll-up reads it. -/
structure ReadEvent where
  key : EventKey
  startMs : Int
  provenance : Provenance
  attributes : Attributes

/-- `_StoredError`. -/
structure ReadError where
  reason : String
  eventTimeMs : Int
  provenance : Provenance

namespace ReadEvent

/-- What the total order of the events of an activation compares. -/
def order (event : ReadEvent) : Int ×ₗ String ×ₗ String :=
  toLex (event.startMs, toLex (event.key.spanId, event.key.eventType))

/-- The events of a type. -/
def ofType (events : List ReadEvent) (type : EventType) : List ReadEvent :=
  events.filter fun event => event.key.eventType = type.name

/-- `_latest`, the first of those that are last. -/
def latest (events : List ReadEvent) : Option ReadEvent :=
  events.foldl (fun best event =>
    match best with
    | none => some event
    | some held => if held.order < event.order then some event else some held) none

/-- An attribute that is there and not empty. -/
def text? (event : ReadEvent) (name : String) : Option String :=
  (event.attributes.get? name).filter (· ≠ "")

end ReadEvent

/-- The name of an ingest path. -/
def Provenance.name : Provenance → String
  | .native => "native"
  | .otlp => "otlp"
  | .kafka => "kafka"
  | .bigquery => "bigquery"
  | .bundle => "bundle"

/-- `sorted` of a set of texts. -/
def sortedSet (texts : List String) : List String := texts.dedup.insertionSort (· ≤ ·)

section Summarize

variable (readInt : String → Option Int) (py : PyLib)

/-- `_int_attribute`. -/
def intAttribute (event : ReadEvent) (name : String) : Option Int :=
  (event.attributes.get? name).bind readInt

/-- `_sum_attribute`. -/
def sumAttribute (events : List ReadEvent) (name : String) : Option Int :=
  match events.filterMap (intAttribute readInt · name) with
  | [] => none
  | values => some values.sum

/-- `_derived_trace_id`. -/
def derivedTraceId (activation : ActivationKey) : String :=
  match Bytes.fromHex activation.entityKey with
  | none => ""
  | some entityKey =>
    (py.uuid5 traceNamespace (entityKey.hex ++ "|" ++ toString activation.seq)).bytes.hex

/-- `_wall_ms`. -/
def wallMs (starts : List ReadEvent) (endedMs : Option Int) : Option Int := do
  let ended ← endedMs
  let first ← (starts.map ReadEvent.startMs).min?
  if 0 < ended - first then some (ended - first) else none

/-- The status of an activation, and when it ended. -/
def statusOf (starts ends : List ReadEvent) (terminalMs : List Int) : String × Option Int :=
  match terminalMs.max? with
  | some terminal => ("error", some terminal)
  | none =>
    -- An attempt that has not ended leaves the activation in flight.
    let openAttempts := starts.filter fun start =>
      start.key.spanId ∉ ends.map fun finish => finish.key.spanId
    match ReadEvent.latest ends, openAttempts with
    | some latest, [] =>
      let declared := (latest.attributes.get? "beam_agents.activation.status").getD ""
      if declared ∈ ["completed", "suspended"] then (declared, some latest.startMs)
      else ("in_flight", none)
    | _, _ => ("in_flight", none)

/-- `_summarize`. -/
def summarize (activation : ActivationKey) (events : List ReadEvent) (errors : List ReadError) :
    Option Rollup :=
  match ((events.map ReadEvent.startMs) ++ errors.map ReadError.eventTimeMs).min? with
  | none => none
  | some startedMs =>
    let starts := ReadEvent.ofType events .activationStart
    let ends := ReadEvent.ofType events .activationEnd
    let errorEvents := ReadEvent.ofType events .error
    let llmCalls := ReadEvent.ofType events .llmCall
    let toolCalls := ReadEvent.ofType events .toolCall
    let intents := ReadEvent.ofType events .intentEmitted
    let status := statusOf starts ends
      (errorEvents.map ReadEvent.startMs ++ errors.map ReadError.eventTimeMs)
    let kindSource := if starts.isEmpty then ends else starts
    let kind := ((ReadEvent.latest kindSource).bind fun event =>
      event.attributes.get? "beam_agents.activation.kind").getD ""
    let models := llmCalls.filter fun event => (event.text? "gen_ai.request.model").isSome
    let promptTokens := sumAttribute readInt llmCalls "gen_ai.usage.input_tokens"
    let completionTokens := sumAttribute readInt llmCalls "gen_ai.usage.output_tokens"
    let provenance := events.map ReadEvent.provenance ++ errors.map ReadError.provenance
    some {
      traceId := match events with
        | [] => derivedTraceId py activation
        | event :: _ => event.key.traceId
      status := status.1
      kind := if kind ∈ ["start", "resume"] then kind else "unknown"
      attempts := max ((starts ++ ends).map fun event => event.key.spanId).dedup.length 1
      startedMs
      endedMs := status.2
      wallMs := wallMs starts status.2
      model := (ReadEvent.latest models).bind fun event => event.text? "gen_ai.request.model"
      llmCalls := llmCalls.length
      toolCalls := toolCalls.length
      intents := intents.length
      errors := max errorEvents.length errors.length
      promptTokens
      completionTokens
      totalTokens := match promptTokens, completionTokens with
        | none, none => none
        | _, _ => some (promptTokens.getD 0 + completionTokens.getD 0)
      cacheHits := (llmCalls.filter fun event =>
        event.attributes.get? "beam_agents.cache_hit" = some "true").length
      tools := sortedSet ((toolCalls ++ intents).filterMap (·.text? "beam_agents.tool_name"))
      reasons := sortedSet (errorEvents.filterMap (·.text? "beam_agents.reason") ++
        (errors.map ReadError.reason).filter (· ≠ ""))
      provenance := sortedSet (provenance.map Provenance.name)
      completeProvenance := !starts.isEmpty || !(provenance.contains .otlp) }

/-! ### What is computed for a key -/

/-- The events of an activation, as `_read_events` lists them. -/
def readEvents (records : ConsoleRecords) (activation : ActivationKey) : List ReadEvent :=
  ((records.events.entries.filter fun p => p.2.activation = activation).map fun p =>
    ({ key := p.1, startMs := p.2.startMs, provenance := p.2.provenance,
       attributes := p.2.attributes } : ReadEvent)).insertionSort fun a b => a.order ≤ b.order

/-- The errors of an activation. -/
def readErrors (records : ConsoleRecords) (activation : ActivationKey) : List ReadError :=
  (records.errors.values.filter fun row => row.activation = some activation).map fun row =>
    { reason := row.reason, eventTimeMs := row.eventTimeMs, provenance := row.provenance }

/-- The roll-up of an activation. -/
def activationRollup (records : ConsoleRecords) (activation : ActivationKey) : Option Rollup :=
  summarize readInt py activation (readEvents records activation) (readErrors records activation)

end Summarize

/-- The events of a trace. -/
def traceEvents (records : ConsoleRecords) (traceId : String) : List (EventKey × StoredEvent) :=
  records.events.entries.filter fun p => p.1.traceId = traceId

/-- The row of a trace. -/
def traceRollup (records : ConsoleRecords) (traceId : String) : Option TraceRollup := do
  let events := traceEvents records traceId
  return {
    entityKey := ← (events.map fun p => p.2.entityKey).max?
    seq := ← (events.map fun p => p.2.seq).max?
    startedMs := ← (events.map fun p => p.2.startMs).min?
    lastEventMs := ← (events.map fun p => p.2.startMs).max?
    events := events.length
    spans := (events.map fun p => p.1.spanId).dedup.length }

/-- The row of a span, from its events. -/
def spanRollup (events : List (EventKey × StoredEvent)) : Option SpanRollup := do
  let eventType ← (events.map fun p => p.1.eventType).min?
  return {
    parentSpanId := ← (events.map fun p => p.2.parentSpanId).max?
    entityKey := ← (events.map fun p => p.2.entityKey).max?
    seq := ← (events.map fun p => p.2.seq).max?
    role := if events.any fun p => p.1.eventType ∈ ["ACTIVATION_START", "ACTIVATION_END"] then
        roleActivation
      else eventType
    stepIndex := ← (events.map fun p => p.2.stepIndex).min?
    firstMs := ← (events.map fun p => p.2.startMs).min?
    lastMs := ← (events.map fun p => p.2.endMs).max?
    events := events.length }

/-- The rows of the spans of a trace: one for each of its span ids. -/
def spanRollups (records : ConsoleRecords) (traceId : String) : List (SpanKey × SpanRollup) :=
  ((traceEvents records traceId).map fun p => p.1.spanId).dedup.filterMap fun spanId =>
    (spanRollup ((traceEvents records traceId).filter fun p => p.1.spanId = spanId)).map
      fun row => (⟨traceId, spanId⟩, row)

/-- The row of an entity. -/
def entityRollup (activations : SortedMap ActivationKey Rollup) (errors : ErrorTable)
    (entityKey : String) : Option EntityRollup :=
  let activations := activations.entries.filter fun p => p.1.entityKey = entityKey
  let errors := errors.values.filter fun row => row.entityKey = entityKey
  let latest := activations.getLast?
  let tokens := activations.filterMap fun p => p.2.totalTokens
  let unscoped := errors.filter fun row => row.seq = none
  do
    return {
      firstSeenMs := ← ((activations.map fun p => p.2.startedMs) ++
        errors.map ErrorRow.eventTimeMs).min?
      lastSeenMs := ← ((activations.map fun p => p.2.endedMs.getD p.2.startedMs) ++
        errors.map ErrorRow.eventTimeMs).max?
      activations := activations.length
      errors := (activations.map fun p => p.2.errors).sum + unscoped.length
      totalTokens := if tokens.isEmpty then none else some tokens.sum
      latestSeq := latest.map fun p => p.1.seq
      latestStatus := latest.map fun p => p.2.status }

/-! ### The database -/

/-- The database: what was delivered, what was computed, and how many rows have been changed and
deleted on its connection. -/
structure ConsoleDb where
  records : ConsoleRecords
  rollups : ConsoleRollups
  totalChanges : ℕ
  deleted : ℕ

namespace ConsoleDb

/-- A database without rows. -/
def empty : ConsoleDb := ⟨⟨.empty, .empty, .empty⟩, .empty, 0, 0⟩

/-- Store the row of a key, or delete it: how many rows change, and how many are deleted. -/
def enterCounts {κ ν : Type} [LinearOrder κ] [DecidableEq ν] (table : SortedMap κ ν) (k : κ)
    (row : Option ν) : ℕ × ℕ :=
  if table.get? k = row then (0, 0) else (1, if row = none then 1 else 0)

/-- Store the rows of a group, and delete its others. -/
def replaceCounts {κ ν : Type} [LinearOrder κ] [DecidableEq ν] (table : SortedMap κ ν)
    (group : κ → Bool) (rows : List (κ × ν)) : ℕ × ℕ :=
  let gone := (table.entries.filter fun p => group p.1 && p.1 ∉ rows.map Prod.fst).length
  ((rows.filter fun p => table.get? p.1 ≠ some p.2).length + gone, gone)

/-- Add to the counts. -/
def counted (db : ConsoleDb) (counts : ℕ × ℕ) : ConsoleDb :=
  { db with totalChanges := db.totalChanges + counts.1, deleted := db.deleted + counts.2 }

/-- `_recompute_trace`. -/
def recomputeTrace (db : ConsoleDb) (traceId : String) : ConsoleDb :=
  let row := traceRollup db.records traceId
  let spans := spanRollups db.records traceId
  let traceCounts := enterCounts db.rollups.traces traceId row
  let spanCounts := replaceCounts db.rollups.spans (fun k => k.traceId = traceId) spans
  { db.counted (traceCounts + spanCounts) with
    rollups := { db.rollups with
      traces := db.rollups.traces.enter traceId row
      spans := db.rollups.spans.replaceGroup (fun k => k.traceId = traceId) spans } }

/-- The facets of an activation. -/
def facets (activation : ActivationKey) (values : List String) : List (FacetKey × Unit) :=
  values.map fun value => (⟨activation, value⟩, ())

/-- `_recompute_activation`, with `_sync_facet` for the tools and for the reasons. -/
def recomputeActivation (readInt : String → Option Int) (py : PyLib) (db : ConsoleDb)
    (activation : ActivationKey) : ConsoleDb :=
  let row := activationRollup readInt py db.records activation
  let tools := facets activation ((row.map Rollup.tools).getD [])
  let reasons := facets activation ((row.map Rollup.reasons).getD [])
  let group := fun k : FacetKey => decide (k.activation = activation)
  let counts := enterCounts db.rollups.activations activation row +
    replaceCounts db.rollups.activationTools group tools +
    replaceCounts db.rollups.activationReasons group reasons
  { db.counted counts with
    rollups := { db.rollups with
      activations := db.rollups.activations.enter activation row
      activationTools := db.rollups.activationTools.replaceGroup group tools
      activationReasons := db.rollups.activationReasons.replaceGroup group reasons } }

/-- `_recompute_entity`. -/
def recomputeEntity (db : ConsoleDb) (entityKey : String) : ConsoleDb :=
  let row := entityRollup db.rollups.activations db.records.errors entityKey
  { db.counted (enterCounts db.rollups.entities entityKey row) with
    rollups := { db.rollups with entities := db.rollups.entities.enter entityKey row } }

/-- `_recompute`. -/
def recompute (readInt : String → Option Int) (py : PyLib) (db : ConsoleDb)
    (activations : List ActivationKey) (traces entities : List String) : ConsoleDb :=
  let db := traces.foldl recomputeTrace db
  let db := activations.foldl (recomputeActivation readInt py) db
  entities.foldl recomputeEntity db

/-! ### Writing -/

/-- A round of `_write_events`. -/
def writeEvent (db : ConsoleDb) (row : EventRow) : ConsoleDb :=
  let stored := db.records.events.get? row.key
  { db.counted (eventChanges stored row, 0) with
    records := { db.records with
      events := db.records.events.set row.key (mergeEvent stored row) } }

/-- A round of `_write_errors`. -/
def writeError (py : PyLib) (db : ConsoleDb) (row : ErrorRow) : ConsoleDb :=
  let errors := upsertError py db.records.errors row
  let changes := if errors.get? (errorId py row) = db.records.errors.get? (errorId py row) then 0
    else 1
  { db.counted (changes, 0) with records := { db.records with errors } }

/-- A round of `_write_snapshots`. -/
def writeSnapshot (db : ConsoleDb) (row : SnapshotRow) : ConsoleDb :=
  let stored := db.records.snapshots.get? row.key
  let merged := mergeSnapshot stored row.columns
  { db.counted (if stored = some merged then 0 else 1, 0) with
    records := { db.records with snapshots := db.records.snapshots.set row.key merged } }

/-- The activations that the records of a batch name. -/
def touched (batch : RecordBatch SnapshotRow) : List ActivationKey :=
  (batch.events.map EventRow.activation ++ batch.errors.filterMap ErrorRow.activation).dedup

/-- The records of a batch are stored. -/
def writeRecords (py : PyLib) (db : ConsoleDb) (batch : RecordBatch SnapshotRow) : ConsoleDb :=
  let db := batch.events.foldl writeEvent db
  let db := batch.errors.foldl (writeError py) db
  batch.snapshots.foldl writeSnapshot db

/-- `write`: the database, and how many of its rows have changed. -/
def write (readInt : String → Option Int) (py : PyLib) (db : ConsoleDb)
    (batch : RecordBatch SnapshotRow) : ConsoleDb × ℕ :=
  if batch.nonempty then
    let activations := touched batch
    let written := recompute readInt py (writeRecords py db batch) activations
      (batch.events.map EventRow.traceId).dedup
      (activations.map ActivationKey.entityKey ++ batch.errors.map ErrorRow.entityKey).dedup
    (written, written.totalChanges - db.totalChanges)
  else (db, 0)

/-! ### Retention -/

/-- The rows of a table of errors that pass a test. -/
def keepErrors (errors : ErrorTable) (p : ErrorRow → Bool) : ErrorTable :=
  ⟨errors.items.filter fun e => p e.2, errors.nodup.sublist (List.filter_sublist.map _)⟩

/-- The deletes of `_prune`. -/
def pruneRecords (db : ConsoleDb) (cutoffMs : Int) : ConsoleDb :=
  let events := db.records.events.entries.filter fun p => p.2.startMs < cutoffMs
  let errors := db.records.errors.values.filter fun row => row.eventTimeMs < cutoffMs
  let snapshots := db.records.snapshots.entries.filter fun p => p.1.snapshotAtMs < cutoffMs
  let gone := (events.map fun p => p.2.attributes.entries.length).sum + events.length +
    errors.length + snapshots.length
  { db.counted (gone, gone) with
    records := {
      events := db.records.events.restrict fun _ event => ¬ event.startMs < cutoffMs
      errors := keepErrors db.records.errors fun row => ¬ row.eventTimeMs < cutoffMs
      snapshots := db.records.snapshots.restrict fun k _ => ¬ k.snapshotAtMs < cutoffMs } }

/-- `_prune`. -/
def pruneBefore (readInt : String → Option Int) (py : PyLib) (db : ConsoleDb) (cutoffMs : Int) :
    ConsoleDb :=
  let events := db.records.events.entries.filter fun p => p.2.startMs < cutoffMs
  let errors := db.records.errors.values.filter fun row => row.eventTimeMs < cutoffMs
  let activations :=
    (events.map (fun p => p.2.activation) ++ errors.filterMap ErrorRow.activation).dedup
  recompute readInt py (db.pruneRecords cutoffMs) activations
    (events.map fun p => p.1.traceId).dedup
    (activations.map ActivationKey.entityKey ++ errors.map ErrorRow.entityKey).dedup

/-- `prune`: the database, and how many of its rows were removed. Without a retention window nothing
is. -/
def prune (readInt : String → Option Int) (py : PyLib) (retentionMs : Option Int) (db : ConsoleDb)
    (nowMs : Int) : ConsoleDb × ℕ :=
  match retentionMs with
  | none => (db, 0)
  | some retention =>
    let pruned := db.pruneBefore readInt py (nowMs - retention)
    (pruned, pruned.deleted - db.deleted)

end ConsoleDb

end BeamAgents

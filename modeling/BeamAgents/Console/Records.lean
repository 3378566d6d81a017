import BeamAgents.Protos.Traces

/-!
# The rows of the console's store

`EventRow` of `console/_records.py` and what `console/_ingest.py` makes of an event. A number
without a name keeps its place in the name of the type, so that every event has a row.

## Main definitions

* `Provenance`, `EventRow`, `eventTypeLabel`, `eventRow`.
-/

namespace BeamAgents

/-- The ingest path that a record arrived by. -/
inductive Provenance
  | native
  | otlp
  | kafka
  | bigquery
  | bundle
  deriving DecidableEq, Repr

/-- One trace event as the store keeps it. -/
structure EventRow where
  traceId : String
  spanId : String
  parentSpanId : String
  entityKey : String
  seq : Int
  stepIndex : ℕ
  eventType : String
  startMs : Int
  endMs : Int
  attributes : Attributes
  provenance : Provenance
  deriving DecidableEq

/-- `_event_type_name`. -/
def eventTypeLabel (number : Int32) : String :=
  (eventTypeName number).getD s!"EVENT_TYPE_{number.toInt}"

/-- `_event_row`. -/
def eventRow (event : TraceEventMessage) (provenance : Provenance) : EventRow where
  traceId := event.traceId.hex
  spanId := event.spanId.hex
  parentSpanId := event.parentSpanId.hex
  entityKey := event.entityKey.hex
  seq := event.seq.toInt
  stepIndex := event.stepIndex.toNat
  eventType := eventTypeLabel event.eventType
  startMs := event.startMs.toInt
  endMs := event.endMs.toInt
  attributes := event.attributes
  provenance

end BeamAgents
